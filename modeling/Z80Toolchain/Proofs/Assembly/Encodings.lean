import Z80Toolchain.Proofs.Assembly.CanonicalDecoding

/-!
The places that an accepted statement reserves for labels. They hold zeros, lie inside the bytes of
the statement and do not overlap, for instructions as for data words.
-/
namespace Z80Toolchain

/-! ### Bytes at a place -/

def StandsAt (code : List UInt8) (offset : Nat) (bytes : List UInt8) : Prop :=
  ∀ index < bytes.length, code[offset + index]? = bytes[index]?

theorem StandsAt.inside {code bytes : List UInt8} {offset : Nat}
    (stands : StandsAt code offset bytes) (some : 0 < bytes.length) :
    offset + bytes.length ≤ code.length := by
  have last := stands (bytes.length - 1) (by omega)
  rw [List.getElem?_eq_getElem (by omega : bytes.length - 1 < bytes.length)] at last
  obtain ⟨bound, -⟩ := List.getElem?_eq_some_iff.mp last
  omega

theorem StandsAt.append_left {code bytes : List UInt8} {offset : Nat}
    (stands : StandsAt code offset bytes) (front : List UInt8) :
    StandsAt (front ++ code) (front.length + offset) bytes := by
  intro index bound
  rw [← stands index bound, List.getElem?_append_right (by omega)]
  congr 1
  omega

theorem StandsAt.append_right {code bytes : List UInt8} {offset : Nat}
    (stands : StandsAt code offset bytes) (rest : List UInt8) :
    StandsAt (code ++ rest) offset bytes := by
  intro index bound
  have inside := stands.inside (by omega)
  rw [← stands index bound, List.getElem?_append_left (by omega)]

theorem stands_at_append (front bytes : List UInt8) : StandsAt (front ++ bytes) front.length bytes := by
  intro index _
  rw [List.getElem?_append_right (by omega)]
  congr 1
  omega

theorem StandsAt.congr {code other bytes : List UInt8} {offset : Nat}
    (stands : StandsAt code offset bytes)
    (same : ∀ index < bytes.length, other[offset + index]? = code[offset + index]?) :
    StandsAt other offset bytes := by
  intro index bound
  rw [same index bound, stands index bound]

/-- The places of references hold what is given for each, and follow one another. -/
structure Reserves (content : Reference → List UInt8) (bytes : List UInt8)
    (references : List Reference) : Prop where
  held : ∀ reference ∈ references, StandsAt bytes reference.offset (content reference)
  apart : references.Pairwise fun left right => left.offset + left.width.size ≤ right.offset

theorem reserves_nil (content : Reference → List UInt8) (bytes : List UInt8) :
    Reserves content bytes [] :=
  ⟨by simp, .nil⟩

theorem Width.size_pos (width : Width) : 0 < width.size := by
  cases width <;> decide

theorem Reserves.inside {content : Reference → List UInt8} {bytes : List UInt8}
    {references : List Reference} (reserved : Reserves content bytes references)
    (size : ∀ reference, (content reference).length = reference.width.size)
    {reference : Reference} (member : reference ∈ references) :
    reference.offset + reference.width.size ≤ bytes.length := by
  have inside := (reserved.held reference member).inside
    (by rw [size]; exact reference.width.size_pos)
  rwa [size] at inside

def Reference.zeros (reference : Reference) : List UInt8 :=
  List.replicate reference.width.size 0

/-- The byte at an index waits for the label. -/
def Reference.Covers (reference : Reference) (index : Nat) : Prop :=
  reference.offset ≤ index ∧ index < reference.offset + reference.width.size

/-! ### Writing to reserved places -/

/-- Writing for a reference replaces the bytes in its place and no others. -/
structure Replaces (write : List UInt8 → Reference → List UInt8)
    (before after : Reference → List UInt8) : Prop where
  size_after : ∀ reference, (after reference).length = reference.width.size
  length : ∀ bytes reference, (write bytes reference).length = bytes.length
  elsewhere : ∀ bytes reference index, ¬ reference.Covers index →
    (write bytes reference)[index]? = bytes[index]?
  there : ∀ bytes reference, StandsAt bytes reference.offset (before reference) →
    StandsAt (write bytes reference) reference.offset (after reference)

namespace Replaces

variable {write : List UInt8 → Reference → List UInt8} {before after : Reference → List UInt8}

theorem length_foldl (replaces : Replaces write before after) (references : List Reference)
    (bytes : List UInt8) : (references.foldl write bytes).length = bytes.length := by
  induction references generalizing bytes with
  | nil => rfl
  | cons reference rest induction => rw [List.foldl_cons, induction, replaces.length]

theorem foldl_elsewhere (replaces : Replaces write before after) {references : List Reference}
    {index : Nat} (outside : ∀ reference ∈ references, ¬ reference.Covers index)
    (bytes : List UInt8) : (references.foldl write bytes)[index]? = bytes[index]? := by
  induction references generalizing bytes with
  | nil => rfl
  | cons reference rest induction =>
    obtain ⟨here, later⟩ := List.forall_mem_cons.mp outside
    rw [List.foldl_cons, induction later, replaces.elsewhere _ _ _ here]

/-- Since places lie apart, writing for all references replaces what stands in each of them. -/
theorem foldl_reserves (replaces : Replaces write before after) {references : List Reference}
    {bytes : List UInt8} (reserved : Reserves before bytes references) :
    Reserves after (references.foldl write bytes) references := by
  refine ⟨?_, reserved.apart⟩
  induction references generalizing bytes with
  | nil => simp
  | cons reference rest induction =>
    obtain ⟨here, later⟩ := List.forall_mem_cons.mp reserved.held
    obtain ⟨behind, apart⟩ := List.pairwise_cons.mp reserved.apart
    have written := replaces.there bytes reference here
    refine List.forall_mem_cons.mpr ⟨?_, induction ⟨fun other member => ?_, apart⟩⟩
    · refine written.congr fun index bound => ?_
      rw [List.foldl_cons]
      refine replaces.foldl_elsewhere (fun other member => ?_) _
      have := behind other member
      rw [replaces.size_after] at bound
      unfold Reference.Covers
      omega
    · refine (later other member).congr fun index bound => replaces.elsewhere _ _ _ ?_
      have := behind other member
      unfold Reference.Covers
      omega

end Replaces

/-! ### Data words -/

/-- A word that waits for a label is zero, so its place holds zeros. -/
theorem Encoding.of_words_reserves {items : List (UInt16 × Option Target)}
    (waiting : ∀ item ∈ items, item.2 ≠ none → item.1 = 0) (front : List UInt8) :
    Reserves Reference.zeros (front ++ (ofWords front.length items).bytes)
        (ofWords front.length items).references ∧
      ∀ reference ∈ (ofWords front.length items).references, front.length ≤ reference.offset := by
  induction items generalizing front with
  | nil => exact ⟨reserves_nil _ _, by simp [ofWords]⟩
  | cons item items induction =>
    obtain ⟨word, target⟩ := item
    obtain ⟨later, behind⟩ := induction (fun item member => waiting item (by simp [member]))
      (front ++ wordBytes word)
    have size : (front ++ wordBytes word).length = front.length + 2 := by simp [wordBytes]
    rw [size, List.append_assoc] at later
    rw [size] at behind
    cases target with
    | none =>
      refine ⟨later, fun reference member => ?_⟩
      have := behind reference member
      omega
    | some target =>
      obtain rfl : word = 0 := waiting (word, some target) (by simp) (by simp)
      have stands : StandsAt (front ++ (wordBytes 0 ++ (ofWords (front.length + 2) items).bytes))
          front.length [0, 0] := by
        rw [← List.append_assoc]
        exact (stands_at_append front [0, 0]).append_right _
      refine ⟨⟨?_, ?_⟩, ?_⟩
      · intro reference member
        rcases List.mem_cons.mp member with rfl | rest
        · exact stands
        · exact later.held reference rest
      · exact List.pairwise_cons.mpr ⟨behind, later.apart⟩
      · intro reference member
        rcases List.mem_cons.mp member with rfl | rest
        · exact Nat.le_refl _
        · have := behind reference rest
          omega

theorem word_item_waiting {symbols : Symbols} {cursor after : Cursor}
    {item : UInt16 × Option Target} (read : wordItem symbols cursor = (.ok item, after)) :
    item.2 ≠ none → item.1 = 0 := by
  obtain ⟨argument, middle, -, read⟩ := Parse.bind_eq_ok.mp read
  cases operand : argument.operand with
  | immediate value =>
    cases value with
    | value number =>
      simp only [operand] at read
      obtain ⟨word, same, -, read⟩ := Parse.bind_eq_ok.mp read
      cases read
      exact fun waits => absurd rfl waits
    | symbol name addend =>
      simp only [operand] at read
      cases read
      exact fun _ => rfl
  | _ =>
    simp only [operand] at read
    cases read

/-- What holds of each item holds of all. -/
theorem items_up_to_forall {α : Type} {item : Parse α} {valid : α → Prop}
    (each : ∀ cursor value after, item cursor = (.ok value, after) → valid value) {count : Nat}
    {cursor after : Cursor} {values : List α}
    (read : itemsUpTo item count cursor = (.ok values, after)) : ∀ value ∈ values, valid value := by
  induction count generalizing cursor values with
  | zero =>
    cases read
    simp
  | succ count induction =>
    obtain ⟨first, middle, taken, read⟩ := Parse.bind_eq_ok.mp read
    have valid := each _ _ _ taken
    by_cases comma : middle.peek.kind = .comma
    · rw [Parse.bind_of_ok (Parse.eat_eq_true comma)] at read
      obtain ⟨others, behind, more, read⟩ := Parse.bind_eq_ok.mp read
      cases read
      exact List.forall_mem_cons.mpr ⟨valid, induction more⟩
    · rw [Parse.bind_of_ok (Parse.eat_eq_false comma)] at read
      cases read
      simpa using valid

/-! ### Statements -/

theorem Selection.encoding_reserves {selection : Selection} (zeros : selection.HoldsZeros) :
    Reserves Reference.zeros selection.encoding.bytes selection.encoding.references := by
  cases target : selection.target with
  | none =>
    simp only [encoding, target]
    exact reserves_nil _ _
  | some waiting =>
    obtain ⟨width, label⟩ := waiting
    obtain ⟨front, encoded⟩ := zeros width label target
    have offset : selection.instruction.encode.length - width.size = front.length := by
      simp [encoded]
    simp only [encoding, target, Option.toList_some, List.map_cons, List.map_nil, offset]
    refine ⟨?_, List.pairwise_singleton _ _⟩
    intro reference member
    obtain rfl := List.mem_singleton.mp member
    rw [encoded]
    exact stands_at_append front _

inductive Statement.Form (word : String) : Statement → Prop
  | instruction {mnemonic : Mnemonic} {arguments : List Argument} {selection : Selection}
      (noBytes : word ≠ "db") (noWords : word ≠ "dw")
      (chosen : Selection.choose? mnemonic arguments = some selection) :
      Form word (.instruction selection)
  | bytes (data : word = "db") (items : List (List UInt8)) : Form word (.bytes items)
  | words {items : List (UInt16 × Option Target)} (data : word = "dw")
      (waiting : ∀ item ∈ items, item.2 ≠ none → item.1 = 0) : Form word (.words items)

theorem Statement.form_of_parse {symbols : Symbols} {head : Token} {cursor after : Cursor}
    {statement : Statement} (read : Statement.parse symbols head cursor = (.ok statement, after)) :
    ∃ name, head.kind = .text name ∧ Form (Text.lower name) statement := by
  cases kind : head.kind with
  | text name =>
    refine ⟨name, rfl, ?_⟩
    simp only [Statement.parse, kind] at read
    by_cases data : Text.lower name = "db"
    · simp only [data, parseNamed] at read
      obtain ⟨items, middle, -, read⟩ := Parse.bind_eq_ok.mp read
      cases read
      exact .bytes data items
    by_cases words : Text.lower name = "dw"
    · simp only [words, parseNamed] at read
      obtain ⟨items, middle, listed, read⟩ := Parse.bind_eq_ok.mp read
      cases read
      exact .words words (items_up_to_forall (fun _ _ _ => word_item_waiting) listed)
    · obtain ⟨mnemonic, selection, arguments, -, rfl, -, chosen⟩ :=
        parse_named_inversion data words read
      exact .instruction data words chosen
  | _ =>
    simp only [Statement.parse, kind] at read
    cases read

/-- The bytes of an accepted statement hold zeros where labels are awaited. -/
theorem Statement.encoding_reserves {symbols : Symbols} {head : Token} {cursor after : Cursor}
    {statement : Statement} (read : Statement.parse symbols head cursor = (.ok statement, after)) :
    Reserves Reference.zeros statement.encoding.bytes statement.encoding.references := by
  obtain ⟨name, -, form⟩ := form_of_parse read
  cases form with
  | instruction noBytes noWords chosen =>
    exact Selection.encoding_reserves (Selection.choose?_renders chosen).zeros
  | bytes data items => exact reserves_nil _ _
  | words data waiting => exact (Encoding.of_words_reserves waiting []).1

end Z80Toolchain
