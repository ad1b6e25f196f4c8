import Z80Toolchain.Machine.Disassembly
import Z80Toolchain.Proofs.Machine.EncodeRead

/-!
How far reading looks. An entry at the front of a binary depends on its own bytes only, as long as
what follows is cut and not changed: behind a prefix byte the reader looks at one byte that it does
not take. Four bytes are always enough. So a disassembly can be taken apart at the start of every
entry.
-/
namespace Z80Toolchain

open Opcode

/-! ### Readers with a limit -/

namespace Decoded

/-- A reader that takes at most `limit` bytes and finds something in any input of that length. What it
finds stays the same when the bytes behind it are cut off. -/
structure Bounded (limit : Nat) (reader : List UInt8 → Option (Decoded × List UInt8)) : Prop where
  takes {input rest : List UInt8} {decoded : Decoded} : reader input = some (decoded, rest) →
    ∃ taken, taken ++ rest = input ∧ taken.length ≤ limit ∧
      ∀ shorter, shorter <+: rest → reader (taken ++ shorter) = some (decoded, shorter)
  complete {input : List UInt8} : limit ≤ input.length → ∃ found, reader input = some found

namespace Bounded

variable {limit : Nat} {reader : List UInt8 → Option (Decoded × List UInt8)}

theorem mono {larger : Nat} (bounded : Bounded limit reader) (le : limit ≤ larger) :
    Bounded larger reader where
  takes found := by
    obtain ⟨taken, whole, short, same⟩ := bounded.takes found
    exact ⟨taken, whole, short.trans le, same⟩
  complete long := bounded.complete (le.trans long)

theorem pure (decoded : Decoded) : Bounded 0 fun rest => some (decoded, rest) where
  takes found := by
    cases found
    exact ⟨[], rfl, Nat.le_refl 0, fun _ _ => rfl⟩
  complete _ := ⟨_, rfl⟩

theorem takes_cons {byte : UInt8} (bounded : Bounded limit fun rest => reader (byte :: rest))
    {input rest : List UInt8} {decoded : Decoded}
    (found : reader (byte :: input) = some (decoded, rest)) :
    ∃ taken, taken ++ rest = byte :: input ∧ taken.length ≤ limit + 1 ∧
      ∀ shorter, shorter <+: rest → reader (taken ++ shorter) = some (decoded, shorter) := by
  obtain ⟨taken, whole, short, same⟩ := bounded.takes found
  refine ⟨byte :: taken, ?_, Nat.succ_le_succ short, same⟩
  rw [List.cons_append, whole]

/-- A reader that takes a byte first, whatever it is. -/
theorem cons (needs : reader [] = none)
    (behind : ∀ byte, Bounded limit fun rest => reader (byte :: rest)) :
    Bounded (limit + 1) reader where
  takes {input rest decoded} found := by
    cases input with
    | nil => rw [needs] at found; cases found
    | cons byte input => exact (behind byte).takes_cons found
  complete {input} long := by
    cases input with
    | nil => cases long
    | cons byte input => exact (behind byte).complete (Nat.le_of_succ_le_succ long)

end Bounded

theorem bounded_of_form (form : Form) : Bounded 2 (ofForm form) := by
  cases form with
  | complete instruction => exact (Bounded.pure _).mono (by decide)
  | byte build =>
    have whole : Bounded 1 (ofForm (.byte build)) := .cons rfl fun _ => .pure _
    exact whole.mono (by decide)
  | word build => exact .cons rfl fun _ => .cons rfl fun _ => .pure _
  | distanceAndByte build => exact .cons rfl fun _ => .cons rfl fun _ => .pure _

theorem bounded_bit : Bounded 1 bit := .cons rfl fun _ => .pure _

theorem bounded_extended : Bounded 3 extended := by
  refine .cons rfl fun opcode => ?_
  cases form : Form.ofExtendedOpcode opcode with
  | some known =>
    simp only [extended, form]
    exact bounded_of_form known
  | none =>
    simp only [extended, form]
    exact (Bounded.pure _).mono (by decide)

theorem bounded_indexed_bit (index : Index) : Bounded 2 (indexedBit index) := by
  refine .cons rfl fun distance => .cons rfl fun opcode => ?_
  by_cases memory : (Fields.ofByte opcode).low = memorySlot
  · simp only [indexedBit, if_pos memory]
    exact .pure _
  · simp only [indexedBit, if_neg memory]
    exact .pure _

end Decoded

/-! ### Every opcode has a form -/

/-- Only the bytes that open another table have no form in the unprefixed one. -/
theorem Form.is_some_of_opcode (base : Base) {opcode : UInt8}
    (noPrefix : Index.ofMarker? opcode = none) (noBit : opcode ≠ bitMarker)
    (noExtended : opcode ≠ extendedMarker) : (ofOpcode base opcode).isSome = true := by
  rw [← Fields.to_byte_of_byte opcode] at *
  generalize Fields.ofByte opcode = fields at *
  rw [ofOpcode, Fields.of_byte_to_byte]
  obtain ⟨block, middle, low⟩ := fields
  revert block middle low
  cases base with
  | hl => decide +kernel
  | index index => cases index <;> decide +kernel

theorem Opcode.plain_of_takes_marker {opcode : UInt8} (takes : takesMarker opcode = true) :
    Index.ofMarker? opcode = none ∧ opcode ≠ extendedMarker := by
  rw [← Fields.to_byte_of_byte opcode] at *
  generalize Fields.ofByte opcode = fields at *
  obtain ⟨block, middle, low⟩ := fields
  revert block middle low
  decide +kernel

namespace Decoded

theorem bounded_table (base : Base) {opcode : UInt8} (noPrefix : Index.ofMarker? opcode = none)
    (noBit : opcode ≠ bitMarker) (noExtended : opcode ≠ extendedMarker) :
    Bounded 2 fun rest => (Form.ofOpcode base opcode).bind fun form => ofForm form rest := by
  obtain ⟨form, found⟩ :=
    Option.isSome_iff_exists.mp (Form.is_some_of_opcode base noPrefix noBit noExtended)
  rw [found]
  exact bounded_of_form form

/-- Behind a prefix byte, for an opcode that it belongs to. -/
theorem bounded_indexed_cons (index : Index) {opcode : UInt8}
    (marked : opcode = bitMarker ∨ takesMarker opcode = true) :
    Bounded 2 fun rest => indexed index (opcode :: rest) := by
  by_cases bits : opcode = bitMarker
  · simp only [indexed, if_pos bits]
    exact bounded_indexed_bit index
  · have takes := marked.resolve_left bits
    obtain ⟨noPrefix, noExtended⟩ := plain_of_takes_marker takes
    simp only [indexed, if_neg bits, if_pos takes]
    exact bounded_table (.index index) noPrefix bits noExtended

/-- A prefix byte that its opcode does not need stands alone, as it does at the end of the input. -/
theorem indexed_alone (index : Index) {opcode : UInt8}
    (marked : ¬ (opcode = bitMarker ∨ takesMarker opcode = true)) (rest : List UInt8) :
    indexed index (opcode :: rest) = some (.data [index.marker], opcode :: rest) := by
  rw [not_or] at marked
  rw [indexed, if_neg marked.1, if_neg marked.2]

theorem bounded_indexed (index : Index) : Bounded 3 (indexed index) where
  takes {input rest decoded} found := by
    cases input with
    | nil =>
      cases found
      refine ⟨[], rfl, Nat.zero_le 3, fun shorter cut => ?_⟩
      rw [List.prefix_nil.mp cut]
      rfl
    | cons opcode input =>
      by_cases marked : opcode = bitMarker ∨ takesMarker opcode = true
      · exact (bounded_indexed_cons index marked).takes_cons found
      · rw [indexed_alone index marked] at found
        cases found
        refine ⟨[], rfl, Nat.zero_le 3, fun shorter cut => ?_⟩
        cases shorter with
        | nil => rfl
        | cons byte shorter =>
          obtain ⟨rfl, -⟩ := List.cons_prefix_cons.mp cut
          exact indexed_alone index marked shorter
  complete {input} long := by
    cases input with
    | nil => cases long
    | cons opcode input =>
      by_cases marked : opcode = bitMarker ∨ takesMarker opcode = true
      · exact (bounded_indexed_cons index marked).complete (Nat.le_of_succ_le_succ long)
      · exact ⟨_, indexed_alone index marked input⟩

theorem bounded_read : Bounded 4 read := by
  refine .cons rfl fun first => ?_
  cases noPrefix : Index.ofMarker? first with
  | some index =>
    simp only [read, noPrefix]
    exact bounded_indexed index
  | none =>
    by_cases noBit : first = bitMarker
    · simp only [read, noPrefix, if_pos noBit]
      exact bounded_bit.mono (by decide)
    · by_cases noExtended : first = extendedMarker
      · simp only [read, noPrefix, if_neg noBit, if_pos noExtended]
        exact bounded_extended
      · simp only [read, noPrefix, if_neg noBit, if_neg noExtended]
        exact (bounded_table .hl noPrefix noBit noExtended).mono (by decide)

/-! ### Entries -/

/-- What is read depends on no byte behind it. -/
theorem read_cut {input rest shorter : List UInt8} {decoded : Decoded}
    (found : read input = some (decoded, rest)) (cut : shorter <+: rest) :
    read (decoded.bytes ++ shorter) = some (decoded, shorter) := by
  obtain ⟨taken, whole, -, same⟩ := bounded_read.takes found
  obtain rfl : taken = decoded.bytes :=
    List.append_cancel_right (whole.trans (bytes_of_read found).2.symm)
  exact same shorter cut

theorem length_bytes_le {input rest : List UInt8} {decoded : Decoded}
    (found : read input = some (decoded, rest)) : decoded.bytes.length ≤ 4 := by
  obtain ⟨taken, whole, short, -⟩ := bounded_read.takes found
  obtain rfl : taken = decoded.bytes :=
    List.append_cancel_right (whole.trans (bytes_of_read found).2.symm)
  exact short

theorem length_bytes_pos {input rest : List UInt8} {decoded : Decoded}
    (found : read input = some (decoded, rest)) : 0 < decoded.bytes.length := by
  have shorter := read_length_lt found
  have whole := congrArg List.length (bytes_of_read found).2
  rw [List.length_append] at whole
  omega

theorem length_le_of_short {bytes : List UInt8} (short : read bytes = none) :
    bytes.length ≤ 3 := by
  by_contra long
  obtain ⟨found, read⟩ := bounded_read.complete (Nat.lt_of_not_le long)
  rw [read] at short
  cases short

/-- Bytes that are cut short are the front of something longer than they are. -/
theorem read_longer {input longer : List UInt8} (short : read input = none)
    (starts : input <+: longer) (enough : 4 ≤ longer.length) :
    ∃ decoded rest, read longer = some (decoded, rest) ∧ input.length < decoded.bytes.length := by
  obtain ⟨⟨decoded, rest⟩, found⟩ := bounded_read.complete enough
  refine ⟨decoded, rest, found, ?_⟩
  by_contra within
  -- Otherwise the same would have been read from the input, cut behind it.
  have whole := (bytes_of_read found).2
  have inside : decoded.bytes <+: input :=
    List.prefix_of_prefix_length_le (whole ▸ List.prefix_append _ _) starts (Nat.le_of_not_lt within)
  obtain ⟨shorter, rfl⟩ := inside
  rw [← whole, List.prefix_append_right_inj] at starts
  rw [read_cut found starts] at short
  cases short

end Decoded

theorem Entry.first?_eq_some {bytes : List UInt8} {entry : Entry}
    (found : first? bytes = some entry) :
    entry.offset = 0 ∧ ∃ rest, Decoded.read bytes = some (entry.content, rest) := by
  obtain ⟨⟨content, rest⟩, read, rfl⟩ := Option.map_eq_some_iff.mp found
  exact ⟨rfl, rest, read⟩

theorem Entry.first?_of_read {bytes rest : List UInt8} {content : Decoded}
    (read : Decoded.read bytes = some (content, rest)) : first? bytes = some ⟨0, content⟩ :=
  Option.map_eq_some_iff.mpr ⟨_, read, rfl⟩

theorem Entry.first?_take {bytes : List UInt8} {entry : Entry} (found : first? bytes = some entry)
    {k : Nat} (covered : entry.size ≤ k) : first? (bytes.take k) = some entry := by
  obtain ⟨start, rest, read⟩ := first?_eq_some found
  have whole := (Decoded.bytes_of_read read).2
  have split : bytes.take k = entry.content.bytes ++ rest.take (k - entry.size) := by
    rw [← whole, List.take_append]
    congr 1
    exact List.take_of_length_le covered
  rw [split, first?_of_read (Decoded.read_cut read (List.take_prefix _ _)), ← start]

/-! ### A disassembly, taken apart -/

def Entry.shift (distance : Nat) (entry : Entry) : Entry :=
  { entry with offset := entry.offset + distance }

theorem disassemble_from_nil (offset : Nat) : disassembleFrom offset [] = [] := by
  rw [disassembleFrom, if_pos rfl]

theorem disassemble_from_of_read {bytes rest : List UInt8} {content : Decoded}
    (read : Decoded.read bytes = some (content, rest)) (offset : Nat) :
    disassembleFrom offset bytes =
      ⟨offset, content⟩ :: disassembleFrom (offset + content.bytes.length) rest := by
  have some : bytes ≠ [] := by
    rintro rfl
    cases read
  rw [disassembleFrom, if_neg some]
  split
  · next missing => rw [missing] at read; cases read
  · next found =>
    rw [found] at read
    cases read
    rfl

theorem disassemble_from_of_short {bytes : List UInt8} (some : bytes ≠ [])
    (short : Decoded.read bytes = none) (offset : Nat) :
    disassembleFrom offset bytes = [⟨offset, .data bytes⟩] := by
  rw [disassembleFrom, if_neg some]
  split
  · rfl
  · next found => rw [found] at short; cases short

/-- What the first entry of a disassembly is, and what follows it. -/
theorem disassemble_from_eq_cons {offset : Nat} {bytes : List UInt8} {entry : Entry}
    {back : List Entry} (found : disassembleFrom offset bytes = entry :: back) :
    entry.offset = offset ∧
      ((∃ rest, Decoded.read bytes = some (entry.content, rest) ∧
          back = disassembleFrom (offset + entry.size) rest) ∨
        Decoded.read bytes = none ∧ entry.content = .data bytes ∧ back = []) := by
  by_cases some : bytes = []
  · rw [some, disassemble_from_nil] at found
    cases found
  · cases read : Decoded.read bytes with
    | none =>
      rw [disassemble_from_of_short some read] at found
      cases found
      exact ⟨rfl, .inr ⟨rfl, rfl, rfl⟩⟩
    | some first =>
      rw [disassemble_from_of_read read] at found
      cases found
      exact ⟨rfl, .inl ⟨_, rfl, rfl⟩⟩

theorem disassemble_from_shift (offset distance : Nat) (bytes : List UInt8) :
    disassembleFrom (offset + distance) bytes =
      (disassembleFrom offset bytes).map (Entry.shift distance) := by
  fun_induction disassembleFrom offset bytes with
  | case1 => exact disassemble_from_nil _
  | case2 offset bytes some short => exact disassemble_from_of_short some short _
  | case3 offset bytes some content rest read induction =>
    rw [disassemble_from_of_read read, List.map_cons, ← induction, Nat.add_right_comm]
    rfl

theorem flat_map_bytes_disassemble_from (offset : Nat) (bytes : List UInt8) :
    (disassembleFrom offset bytes).flatMap Entry.bytes = bytes := by
  fun_induction disassembleFrom offset bytes with
  | case1 => rfl
  | case2 => simp [Entry.bytes, Decoded.bytes]
  | case3 offset bytes some content rest read induction =>
    rw [List.flatMap_cons, induction]
    exact (Decoded.bytes_of_read read).2

/-- A disassembly can be taken apart in front of any entry: what stands there was found from the bytes
in front of it, and what follows from the others. -/
theorem disassemble_from_split {offset : Nat} {bytes : List UInt8} {front back : List Entry}
    (found : disassembleFrom offset bytes = front ++ back) :
    disassembleFrom offset (bytes.take (front.flatMap Entry.bytes).length) = front ∧
      disassembleFrom (offset + (front.flatMap Entry.bytes).length)
        (bytes.drop (front.flatMap Entry.bytes).length) = back := by
  induction front generalizing offset bytes with
  | nil => exact ⟨disassemble_from_nil offset, found⟩
  | cons entry front induction =>
    rw [List.flatMap_cons, List.length_append]
    obtain ⟨start, ⟨rest, read, later⟩ | ⟨short, content, none⟩⟩ := disassemble_from_eq_cons found
    · obtain ⟨before, behind⟩ := induction later.symm
      have whole : bytes = entry.bytes ++ rest := (Decoded.bytes_of_read read).2.symm
      have cut := Decoded.read_cut read (List.take_prefix (front.flatMap Entry.bytes).length rest)
      constructor
      · rw [whole, List.take_length_add_append]
        refine (disassemble_from_of_read cut offset).trans ?_
        rw [← start] at before ⊢
        exact congrArg _ before
      · rw [whole, List.drop_length_add_append, ← Nat.add_assoc]
        exact behind
    · obtain ⟨rfl, rfl⟩ := List.append_eq_nil_iff.mp none
      have covered : entry.bytes = bytes := by
        rw [Entry.bytes, content]
        rfl
      rw [covered, List.flatMap_nil, List.length_nil, Nat.add_zero, List.take_length,
        List.drop_length]
      exact ⟨found, disassemble_from_nil _⟩

/-- An entry depends on its own bytes only, and there is one unless the binary ends within it. The
entries of a disassembly follow one another over the whole binary. Each is the first one of the bytes
from its offset on, but for a last one that is cut short, and the binary may be split between any
two. -/
theorem disassemble_local (bytes : List UInt8) :
    (∀ entry, Entry.first? bytes = some entry →
      0 < entry.size ∧ entry.size ≤ min 4 bytes.length ∧
        ∀ k, entry.size ≤ k → k ≤ bytes.length → Entry.first? (bytes.take k) = some entry) ∧
    (Entry.first? bytes = none → bytes.length ≤ 3 ∧
      ∀ longer, bytes <+: longer → 4 ≤ longer.length →
        ∃ entry, Entry.first? longer = some entry ∧ bytes.length < entry.size) ∧
    (disassemble bytes).flatMap Entry.bytes = bytes ∧
    (∀ front entry back, disassemble bytes = front ++ entry :: back →
      entry.offset = (front.flatMap Entry.bytes).length ∧
        (Entry.first? (bytes.drop entry.offset) = some ⟨0, entry.content⟩ ∨
          Entry.first? (bytes.drop entry.offset) = none ∧
            entry.content = .data (bytes.drop entry.offset) ∧ entry.size ≤ 3 ∧ back = [])) ∧
    ∀ front back, disassemble bytes = front ++ back →
      disassemble (bytes.take (front.flatMap Entry.bytes).length) = front ∧
        (disassemble (bytes.drop (front.flatMap Entry.bytes).length)).map
          (Entry.shift (front.flatMap Entry.bytes).length) = back := by
  refine ⟨fun entry found => ?_, fun short => ?_, flat_map_bytes_disassemble_from 0 bytes,
    fun front entry back found => ?_, fun front back found => ?_⟩
  · obtain ⟨-, rest, read⟩ := Entry.first?_eq_some found
    have inside : entry.size ≤ bytes.length := by
      rw [← (Decoded.bytes_of_read read).2, List.length_append]
      exact Nat.le_add_right _ _
    exact ⟨Decoded.length_bytes_pos read, Nat.le_min.mpr ⟨Decoded.length_bytes_le read, inside⟩,
      fun k covered _ => Entry.first?_take found covered⟩
  · have short := Option.map_eq_none_iff.mp short
    refine ⟨Decoded.length_le_of_short short, fun longer starts enough => ?_⟩
    obtain ⟨content, rest, read, exceeds⟩ := Decoded.read_longer short starts enough
    exact ⟨⟨0, content⟩, Entry.first?_of_read read, exceeds⟩
  · obtain ⟨-, behind⟩ := disassemble_from_split found
    obtain ⟨start, read⟩ := disassemble_from_eq_cons behind
    rw [Nat.zero_add] at start
    rw [start]
    refine ⟨rfl, ?_⟩
    rcases read with ⟨rest, read, -⟩ | ⟨short, content, last⟩
    · exact .inl (Entry.first?_of_read read)
    · refine .inr ⟨Option.map_eq_none_iff.mpr short, content, ?_, last⟩
      rw [Entry.size, Entry.bytes, content]
      exact Decoded.length_le_of_short short
  · obtain ⟨before, behind⟩ := disassemble_from_split found
    rw [disassemble_from_shift] at behind
    exact ⟨before, behind⟩

end Z80Toolchain
