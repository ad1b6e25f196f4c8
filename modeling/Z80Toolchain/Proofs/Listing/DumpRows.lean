import Z80Toolchain.Listing.Dump
import Z80Toolchain.Proofs.Assembly.Layout
import Z80Toolchain.Proofs.Assembly.SourcePlaces

/-!
The rows of a dump. Statements stand on lines that are not empty, and such a line has the same number
in the source and in its listing as long as no carriage return stands alone. So the walk over the source
lines meets every line of the code in turn, and the rows show each byte once, at its address.
-/
namespace Z80Toolchain

/-! ### Listed lines -/

namespace Text

/-- Every carriage return stands directly in front of a line feed. -/
def returnsPaired : List Char → Bool
  | [] => true
  | c :: rest => (c != '\r' || rest.head? == some '\n') && returnsPaired rest

def closePieces (pieces : List (List Char)) : List (List Char) :=
  pieces.dropLast.map dropReturn ++ pieces.getLast?.toList

theorem close_pieces_cons (line : List Char) {pieces : List (List Char)} (some : pieces ≠ []) :
    closePieces (line :: pieces) = dropReturn line :: closePieces pieces := by
  obtain ⟨next, pieces, rfl⟩ := List.exists_cons_of_ne_nil some
  rfl

theorem drop_return_cons {c : Char} (other : c ≠ '\r') (line : List Char) :
    dropReturn (c :: line) = c :: dropReturn line := by
  cases line with
  | nil => simp [dropReturn, other]
  | cons next line =>
    simp only [dropReturn, List.getLast?_cons_cons]
    split <;> rfl

/-- Where returns are paired, both ways to cut a text into lines agree. -/
theorem split_lines_normalize {text : List Char} (paired : returnsPaired text = true) :
    splitLines (normalize text) = closePieces (splitLines text) := by
  fun_induction normalize text with
  | case1 => rfl
  | case2 rest induction =>
    have later : returnsPaired rest = true := by simpa [returnsPaired] using paired
    have pieces : splitLines ('\r' :: '\n' :: rest) = ['\r'] :: splitLines rest := rfl
    rw [pieces, close_pieces_cons _ (split_lines_ne_nil rest), ← induction later]
    rfl
  | case3 rest alone induction =>
    -- a return in front of anything else is not paired
    cases rest with
    | nil => cases paired
    | cons c rest =>
      obtain ⟨rfl, -⟩ : c = '\n' ∧ _ := by simpa [returnsPaired] using paired
      exact absurd rfl (alone rest)
  | case4 c rest noFeed noReturn induction =>
    have other : c ≠ '\r' := noReturn
    have later : returnsPaired rest = true := by
      rw [returnsPaired, Bool.and_eq_true] at paired
      exact paired.2
    obtain ⟨line, lines, cut⟩ := List.exists_cons_of_ne_nil (split_lines_ne_nil rest)
    rw [cut] at induction
    simp only [splitLines, induction later, cut]
    split
    · rw [close_pieces_cons [] (List.cons_ne_nil line lines)]
      rfl
    · cases lines with
      | nil => rfl
      | cons next lines =>
        rw [close_pieces_cons _ (List.cons_ne_nil next lines),
          close_pieces_cons _ (List.cons_ne_nil next lines), drop_return_cons other]

theorem get_elem?_listed_lines {text : List Char} (paired : returnsPaired text = true) {number : Nat}
    {line : List Char} (found : (splitLines (normalize text))[number]? = some line)
    (filled : line ≠ []) : (listedLines text)[number]? = some line := by
  rw [split_lines_normalize paired, closePieces] at found
  unfold listedLines
  cases last : (splitLines text).getLast? with
  | none => simpa [last] using found
  | some final =>
    rw [last, Option.toList_some] at found
    cases final with
    | nil =>
      simp only [last]
      rw [List.getElem?_append] at found
      split at found
      · exact found
      · obtain ⟨bound, rfl⟩ := List.getElem?_eq_some_iff.mp found
        exact absurd (List.getElem_singleton bound) filled
    | cons c final =>
      simp only [last]
      exact found

theorem no_feed_of_mem_listed_lines {text line : List Char} (member : line ∈ listedLines text) :
    '\n' ∉ line := by
  have flat : ∀ piece ∈ splitLines text, '\n' ∉ piece := fun piece found feed =>
    (mem_of_mem_split_lines found feed).2 rfl
  have closed : ∀ piece ∈ (splitLines text).dropLast.map dropReturn, '\n' ∉ piece := by
    intro piece found feed
    obtain ⟨whole, inside, rfl⟩ := List.mem_map.mp found
    refine flat whole (List.dropLast_subset _ inside) ?_
    unfold dropReturn at feed
    split at feed
    · exact List.dropLast_subset _ feed
    · exact feed
  unfold listedLines at member
  dsimp only at member
  split at member
  · exact closed line member
  · exact closed line member
  · next last found =>
    rcases List.mem_append.mp member with early | late
    · exact closed line early
    · obtain rfl := List.mem_singleton.mp late
      exact flat line (List.mem_of_getLast? found)

end Text

/-! ### Lines of the code -/

namespace Draft

theorem head_mem_of_emitted_from {final : Position} {draft : Draft} {tokens : List Token}
    {emission : Emission} (member : emission ∈ draft.emittedFrom final tokens) :
    emission.head ∈ tokens ∧ emission.head.kind ≠ .newLine := by
  fun_induction emittedFrom final draft tokens with
  | case1 => cases member
  | case2 => cases member
  | case3 draft token rest name kind induction =>
    obtain ⟨inside, plain⟩ := induction member
    exact ⟨List.mem_cons_of_mem token inside, plain⟩
  | case4 draft token rest noFeed noLabel =>
    unfold emitted at member
    split at member
    · obtain rfl := List.mem_singleton.mp member
      exact ⟨List.mem_cons_self, noFeed⟩
    · cases member

theorem head_mem_of_emissions {draft : Draft} {lines : List (List Token)} {emission : Emission}
    (member : emission ∈ draft.emissions lines) :
    emission.head ∈ lines.flatten ∧ emission.head.kind ≠ .newLine := by
  induction lines generalizing draft with
  | nil => cases member
  | cons line lines induction =>
    rw [List.flatten_cons, List.mem_append]
    rcases List.mem_append.mp member with here | later
    · obtain ⟨inside, plain⟩ := head_mem_of_emitted_from here
      exact ⟨.inl inside, plain⟩
    · obtain ⟨inside, plain⟩ := induction later
      exact ⟨.inr inside, plain⟩

end Draft

/-- A statement stands on a line of the listing. -/
theorem line_lt_listed_lines {origin : UInt16} {source : List Char}
    (paired : Text.returnsPaired source = true) {entry : Line}
    (member : entry ∈ (assemble origin source).lines) :
    entry.line < (Text.listedLines source).length := by
  have holds := (Expansion.ofSource source).draft_holds origin
  have listed : entry ∈ ((Expansion.ofSource source).draft origin).lines.toList := member
  rw [holds.lines] at listed
  obtain ⟨emission, emitted, rfl⟩ := List.mem_map.mp listed
  obtain ⟨inside, plain⟩ := Draft.head_mem_of_emissions emitted
  rw [Token.flatten_lines] at inside
  obtain ⟨line, found, -, begins⟩ := Expansion.begins_of_mem_tokens inside
  refine (List.getElem?_eq_some_iff.mp (Text.get_elem?_listed_lines paired found ?_)).1
  rintro rfl
  cases begins with
  | lexeme code cut =>
    rw [Defines.expand_eq, fragments, List.flatMap_nil, lexemes_nil] at cut
    exact absurd cut (by simp)
  | lineEnd ends | directiveEnd ends => exact plain ends

/-! ### Rows -/

namespace Dump

theorem cut_eq (bytes : List UInt8) :
    cut bytes = if bytes = [] then [] else bytes.take 4 :: cut (bytes.drop 4) := by
  rcases bytes with _ | ⟨a, _ | ⟨b, _ | ⟨c, _ | ⟨d, rest⟩⟩⟩⟩ <;> rfl

theorem code_rows_eq (address : UInt16) (bytes : List UInt8) (line : SourceLine) :
    codeRows address bytes line =
      .code address (bytes.take 4) line :: moreRows (address + 4) (cut (bytes.drop 4)) := by
  by_cases none : bytes = []
  · subst none
    rfl
  · rw [codeRows, cut_eq, if_neg none]

def Row.line? : Row → Option SourceLine
  | silent line | code _ _ line => some line
  | more _ _ => none

def Row.code? : Row → Option (UInt16 × List UInt8)
  | silent _ => none
  | code address bytes _ | more address bytes => some (address, bytes)

def places : Option (UInt16 × List UInt8) → List (UInt8 × Nat)
  | none => []
  | some (address, bytes) => bytes.zipIdx address.toNat

/-- The number of the source line, the address and the bytes of a row that shows all of them. -/
def Row.start? : Row → Option (Nat × UInt16 × List UInt8)
  | code address bytes line => some (line.number, address, bytes)
  | silent _ | more _ _ => none

/-! ### Addresses in rows -/

/-- What `view` sees of a place does not depend on whether the addresses of rows wrap. -/
def Steady {α : Type} (view : Nat → α) (base length : Nat) : Prop :=
  ∀ offset index, offset + index < length →
    view ((base + offset) % Address.space + index) = view (base + offset + index)

theorem steady_mod (base length : Nat) : Steady (· % Address.space) base length := by
  intro offset index _
  exact Nat.mod_add_mod _ _ _

theorem steady_id {base length : Nat} (fits : base + length ≤ Address.space) :
    Steady id base length := by
  intro offset index inside
  rw [Nat.mod_eq_of_lt (by omega)]

section

variable {α : Type} {view : Nat → α}

theorem Steady.within {base length start count : Nat} (steady : Steady view base length)
    (inside : start + count ≤ length) : Steady view (base + start) count := by
  intro offset index bound
  have here := steady (start + offset) index (by omega)
  rwa [← Nat.add_assoc] at here

theorem Steady.zip_idx {base length : Nat} (steady : Steady view base length) {bytes : List UInt8}
    (bound : bytes.length ≤ length) :
    (bytes.zipIdx (base % Address.space)).map (Prod.map id view) =
      (bytes.zipIdx base).map (Prod.map id view) := by
  apply List.ext_getElem?
  intro index
  rw [List.getElem?_map, List.getElem?_map, List.getElem?_zipIdx, List.getElem?_zipIdx]
  by_cases inside : index < bytes.length
  · have same := steady 0 index (by omega)
    rw [Nat.add_zero] at same
    simp [List.getElem?_eq_getElem inside, same]
  · simp [List.getElem?_eq_none (Nat.le_of_not_lt inside)]

/-- A row and those behind it. -/
theorem Steady.zip_idx_take {base : Nat} {bytes : List UInt8} (steady : Steady view base bytes.length) :
    ((bytes.take 4).zipIdx (base % Address.space)).map (Prod.map id view) ++
        ((bytes.drop 4).zipIdx (base + 4)).map (Prod.map id view) =
      (bytes.zipIdx base).map (Prod.map id view) := by
  rw [steady.zip_idx (List.length_take_le' 4 bytes), ← List.map_append]
  by_cases short : bytes.length ≤ 4
  · simp [List.drop_eq_nil_of_le short, List.take_of_length_le short]
  · have next : base + 4 = base + (bytes.take 4).length := by
      rw [List.length_take]
      omega
    rw [next, ← List.zipIdx_append, List.take_append_drop]

theorem Steady.drop {base : Nat} {bytes : List UInt8} (steady : Steady view base bytes.length) :
    Steady view (base + 4) (bytes.drop 4).length := by
  by_cases short : bytes.length ≤ 4
  · intro offset index bound
    rw [List.length_drop] at bound
    omega
  · exact steady.within (by rw [List.length_drop]; omega)

theorem of_nat_add_four (base : Nat) : UInt16.ofNat base + 4 = UInt16.ofNat (base + 4) :=
  (UInt16.ofNat_add base 4).symm

theorem places_more_rows {base : Nat} {bytes : List UInt8} (steady : Steady view base bytes.length) :
    ((moreRows (.ofNat base) (cut bytes)).flatMap fun row => places row.code?).map
        (Prod.map id view) =
      (bytes.zipIdx base).map (Prod.map id view) := by
  fun_induction cut bytes generalizing base with
  | case1 => rfl
  | case2 a b c d rest induction =>
    rw [moreRows, List.flatMap_cons, List.map_append, of_nat_add_four, induction steady.drop]
    exact steady.zip_idx_take
  | case3 short =>
    rw [moreRows, moreRows, List.flatMap_singleton]
    exact steady.zip_idx (Nat.le_refl _)

theorem places_code_rows {base : Nat} {bytes : List UInt8} (steady : Steady view base bytes.length)
    (line : SourceLine) :
    ((codeRows (.ofNat base) bytes line).flatMap fun row => places row.code?).map
        (Prod.map id view) =
      (bytes.zipIdx base).map (Prod.map id view) := by
  rw [code_rows_eq, List.flatMap_cons, List.map_append, of_nat_add_four, places_more_rows steady.drop]
  exact steady.zip_idx_take

end

section

variable {address : UInt16} {bytes : List UInt8}

theorem exists_of_mem_more_rows {address : UInt16} {pieces : List (List UInt8)} {row : Row}
    (member : row ∈ moreRows address pieces) :
    ∃ address, ∃ bytes ∈ pieces, row = .more address bytes := by
  induction pieces generalizing address with
  | nil => cases member
  | cons bytes pieces induction =>
    rcases List.mem_cons.mp member with here | later
    · exact ⟨address, bytes, List.mem_cons_self, here⟩
    · obtain ⟨address, other, inside, same⟩ := induction later
      exact ⟨address, other, List.mem_cons_of_mem bytes inside, same⟩

theorem length_le_of_mem_cut (bytes : List UInt8) : ∀ piece ∈ cut bytes, piece.length ≤ 4 := by
  fun_induction cut bytes with
  | case1 => simp
  | case2 a b c d rest induction => exact List.forall_mem_cons.mpr ⟨Nat.le_refl 4, induction⟩
  | case3 short some long =>
    rcases short with _ | ⟨a, _ | ⟨b, _ | ⟨c, _ | ⟨d, rest⟩⟩⟩⟩
    iterate 4 simp
    exact absurd rfl (long a b c d rest)

variable {line : SourceLine}

/-- A view that the further rows do not have shows the first row of a line only. -/
theorem filter_map_code_rows {α : Type} {view : Row → Option α}
    (further : ∀ address bytes, view (.more address bytes) = none) :
    (codeRows address bytes line).filterMap view =
      (view (.code address (bytes.take 4) line)).toList := by
  have none : (moreRows (address + 4) (cut (bytes.drop 4))).filterMap view = [] := by
    refine List.filterMap_eq_nil_iff.mpr fun row member => ?_
    obtain ⟨address, bytes, -, rfl⟩ := exists_of_mem_more_rows member
    exact further address bytes
  rw [code_rows_eq, List.filterMap_cons, none]
  cases view (.code address (bytes.take 4) line) <;> rfl

theorem length_le_of_mem_code_rows {row : Row} (member : row ∈ codeRows address bytes line)
    {shown : UInt16 × List UInt8} (shows : row.code? = some shown) : shown.2.length ≤ 4 := by
  rw [code_rows_eq] at member
  rcases List.mem_cons.mp member with rfl | later
  · cases shows
    exact List.length_take_le 4 bytes
  · obtain ⟨address, piece, inside, rfl⟩ := exists_of_mem_more_rows later
    cases shows
    exact length_le_of_mem_cut _ piece inside

end

/-! ### The walk -/

/-- What the rows of source lines show of the code is what the lines of the code have to show, as long
as the walk meets them in order. -/
theorem flat_map_rows_from {α : Type} {view : Row → List α} {value : Line → List α}
    (quiet : ∀ line, view (.silent line) = []) (assembly : Assembly)
    (shown : ∀ span ∈ assembly.lines, ∀ line : SourceLine, line.number = span.line →
      (codeRows span.address (lineBytes assembly.code span) line).flatMap view = value span)
    {number : Nat} {spans : List Line} {texts : List (List Char)} (known : spans ⊆ assembly.lines)
    (ordered : spans.Pairwise fun first second => first.line < second.line)
    (within : ∀ span ∈ spans, number ≤ span.line ∧ span.line < number + texts.length) :
    (rowsFrom assembly number spans texts).flatMap view = spans.flatMap value := by
  induction texts generalizing number spans with
  | nil =>
    cases spans with
    | nil => rfl
    | cons span spans =>
      have := within span (by simp)
      simp at this
      omega
  | cons text texts induction =>
    cases spans with
    | nil =>
      rw [rowsFrom, List.flatMap_cons, quiet, List.nil_append]
      exact induction known ordered (by simp)
    | cons span spans =>
      obtain ⟨before, ordered⟩ := List.pairwise_cons.mp ordered
      obtain ⟨⟨low, high⟩, others⟩ := List.forall_mem_cons.mp within
      rw [List.length_cons] at high
      have later : ∀ other ∈ spans,
          number + 1 ≤ other.line ∧ other.line < number + 1 + texts.length := by
        intro other member
        have behind := before other member
        have bound := (others other member).2
        rw [List.length_cons] at bound
        omega
      by_cases here : span.line = number
      · rw [rowsFrom]
        simp only [if_pos here, List.flatMap_append]
        rw [shown span (known (by simp)) _ here.symm, List.flatMap_cons,
          induction (fun _ member => known (by simp [member])) ordered later]
      · rw [rowsFrom]
        simp only [if_neg here]
        rw [List.flatMap_cons, quiet, List.nil_append,
          induction known (List.pairwise_cons.mpr ⟨before, ordered⟩)
            (List.forall_mem_cons.mpr ⟨by omega, later⟩)]

def sourceLine (assembly : Assembly) (number : Nat) (text : List Char) : SourceLine :=
  ⟨number, text, assembly.diagnostics.any fun diagnostic => diagnostic.position.line == number⟩

/-- Every source line is shown once, whatever the lines of the code. -/
theorem filter_map_line?_rows_from (assembly : Assembly) (number : Nat) (spans : List Line)
    (texts : List (List Char)) :
    (rowsFrom assembly number spans texts).filterMap Row.line? =
      (texts.zipIdx number).map fun (text, number) => sourceLine assembly number text := by
  induction texts generalizing number spans with
  | nil => rfl
  | cons text texts induction =>
    cases spans with
    | nil =>
      rw [rowsFrom, List.filterMap_cons_some (by rfl), induction]
      rfl
    | cons span spans =>
      rw [rowsFrom]
      split
      · rw [List.filterMap_append, filter_map_code_rows fun _ _ => rfl, induction]
        rfl
      · rw [List.filterMap_cons_some (by rfl), induction]
        rfl

theorem length_le_of_mem_rows_from {assembly : Assembly} {number : Nat} {spans : List Line}
    {texts : List (List Char)} {row : Row} (member : row ∈ rowsFrom assembly number spans texts)
    {shown : UInt16 × List UInt8} (shows : row.code? = some shown) : shown.2.length ≤ 4 := by
  induction texts generalizing number spans with
  | nil => cases member
  | cons text texts induction =>
    cases spans with
    | nil =>
      rcases List.mem_cons.mp member with rfl | later
      · cases shows
      · exact induction later
    | cons span spans =>
      rw [rowsFrom] at member
      split at member
      · rcases List.mem_append.mp member with here | later
        · exact length_le_of_mem_code_rows here shows
        · exact induction later
      · rcases List.mem_cons.mp member with rfl | later
        · cases shows
        · exact induction later

/-! ### Rows of an assembled source -/

theorem length_line_bytes {code : Array UInt8} {line : Line} (bound : line.stop ≤ code.size) :
    (lineBytes code line).length = line.stop - line.start := by
  rw [lineBytes, Array.length_toList, Array.size_extract, Nat.min_eq_left bound]

theorem places_of_tile (code : Array UInt8) (origin : Nat) {start stop : Nat} {lines : List Line}
    (tile : Line.Tile start lines stop) (bound : stop ≤ code.size) :
    lines.flatMap (fun line => (lineBytes code line).zipIdx (origin + line.start)) =
      (code.extract start stop).toList.zipIdx (origin + start) := by
  induction lines generalizing start with
  | nil =>
    cases tile
    simp
  | cons line lines induction =>
    obtain ⟨rfl, up, later⟩ := tile
    have last := later.le
    have joined := @Array.extract_append_extract _ code line.start line.stop stop
    rw [Nat.min_eq_left up, Nat.max_eq_right last] at joined
    have next : origin + line.start + (lineBytes code line).length = origin + line.stop := by
      rw [length_line_bytes (Nat.le_trans last bound)]
      omega
    rw [List.flatMap_cons, induction later, ← joined, Array.toList_append, List.zipIdx_append, ← next]
    rfl

section

variable (origin : UInt16) {source : List Char} (paired : Text.returnsPaired source = true)

include paired

theorem flat_map_rows {α : Type} {view : Row → List α} {value : Line → List α}
    (quiet : ∀ line, view (.silent line) = [])
    (shown : ∀ span ∈ (assemble origin source).lines, ∀ line : SourceLine, line.number = span.line →
      (codeRows span.address (lineBytes (assemble origin source).code span) line).flatMap view =
        value span) :
    (rows source (assemble origin source)).flatMap view =
      (assemble origin source).lines.flatMap value := by
  apply flat_map_rows_from quiet _ shown (List.Subset.refl _) (assemble_ordered origin source)
  intro span member
  rw [Nat.zero_add]
  exact ⟨Nat.zero_le _, line_lt_listed_lines paired member⟩

/-- The rows show each byte of the code once, in order and at its address. -/
theorem places_rows {α : Type} {view : Nat → α}
    (steady : Steady view origin.toNat (assemble origin source).code.size) :
    ((rows source (assemble origin source)).flatMap fun row => places row.code?).map
        (Prod.map id view) =
      ((assemble origin source).code.toList.zipIdx origin.toNat).map (Prod.map id view) := by
  have tile := assemble_tile origin source
  have shown := places_of_tile (assemble origin source).code origin.toNat tile (Nat.le_refl _)
  rw [Array.extract_size, Nat.add_zero] at shown
  rw [← shown, List.map_flatMap, List.map_flatMap]
  refine flat_map_rows origin paired (fun line => rfl) fun span member line same => ?_
  have last := tile.stop_le span member
  have inside := tile.start_le_stop span member
  have length := length_line_bytes last
  rw [assemble_addressed origin source span member, ← List.map_flatMap]
  exact places_code_rows (steady.within (by omega)) line

/-- Every line of the code starts in the row of its source line. -/
theorem starts_rows :
    (rows source (assemble origin source)).filterMap Row.start? =
      (assemble origin source).lines.map fun line =>
        (line.line, line.address, (lineBytes (assemble origin source).code line).take 4) := by
  rw [List.filterMap_eq_flatMap_toList, List.map_eq_flatMap]
  refine flat_map_rows origin paired (fun line => rfl) fun span member line same => ?_
  rw [← List.filterMap_eq_flatMap_toList, filter_map_code_rows fun _ _ => rfl, ← same]
  rfl

end

end Dump

end Z80Toolchain
