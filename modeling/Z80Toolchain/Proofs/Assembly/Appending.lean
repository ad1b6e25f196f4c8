import Mathlib.Data.List.Forall2
import Z80Toolchain.Assembly.Draft
import Z80Toolchain.Proofs.Assembly.Encodings
import Z80Toolchain.Proofs.Machine.AddressWidth

/-!
What it means to append a statement to a draft: all its bytes, one patch for each label it waits for
and one line, and nothing else. A distance is not left zero but starts from its baseline, which is
what has to be added to the label. The baseline is kept in 32 bits; its byte does not show that.
-/
namespace Z80Toolchain

theorem fits_integer_iff {number : Int} :
    fitsInteger number = true ↔ -2147483648 ≤ number ∧ number ≤ 2147483647 := by
  simp [fitsInteger]

theorem Address.fits_wrapped (number : Int) : fitsInteger (wrapped number) = true :=
  fits_integer_iff.mpr (wrapped_bounds number)

theorem Address.wrapped_eq_iff (number : Int) :
    wrapped number = number ↔ fitsInteger number = true := by
  constructor
  · intro same
    rw [← same]
    exact fits_wrapped number
  · intro fits
    obtain ⟨low, high⟩ := fits_integer_iff.mp fits
    exact wrapped_of_fits low high

/-! ### Places in the code -/

namespace Reference

def moved (start : Nat) (reference : Reference) : Reference :=
  { reference with offset := start + reference.offset }

/-- What has to be added to a label to get the distance to it, in 32 bits. -/
def baseline (origin : UInt16) (fixup : Reference) : Int :=
  Address.wrapped (fixup.addend - (origin.toNat + fixup.offset + 1))

/-- What a place holds until its label is known: a word zero, a relative byte its baseline. -/
def placeholder (origin : UInt16) (fixup : Reference) : List UInt8 :=
  match fixup.width with
  | .absolute => [0, 0]
  | .relative => [UInt8.ofInt (fixup.addend - (origin.toNat + fixup.offset + 1))]

def patch (origin : UInt16) (fixup : Reference) : Patch :=
  .ofReference origin 0 fixup

theorem patch_moved (origin : UInt16) (start : Nat) (reference : Reference) :
    (reference.moved start).patch origin = .ofReference origin start reference := by
  simp [patch, moved, Patch.ofReference]

theorem length_placeholder (origin : UInt16) (fixup : Reference) :
    (fixup.placeholder origin).length = fixup.width.size := by
  cases width : fixup.width <;> simp [placeholder, width, Width.size]

end Reference

/-! ### Bytes with their baselines -/

def Reference.writeBaseline (origin : UInt16) (start : Nat) (bytes : List UInt8)
    (reference : Reference) : List UInt8 :=
  match reference.width with
  | .absolute => bytes
  | .relative => bytes.set reference.offset
      (UInt8.ofInt (reference.addend - (origin.toNat + (start + reference.offset) + 1)))

theorem Reference.addend_patch {origin : UInt16} {fixup : Reference}
    (narrow : fixup.width = .relative) :
    (fixup.patch origin).addend = fixup.baseline origin := by
  simp only [patch, Patch.ofReference, narrow, Nat.zero_add, baseline]
  rw [Address.wrapped_sub_wrapped, Address.of_offset_eq]
  have turns := Address.dvd_sub_wrapped (origin.toNat + fixup.offset)
  exact Address.wrapped_congr (by omega)

theorem Reference.baseline_of_fits {origin : UInt16} (fixup : Reference)
    (fits : fitsInteger (fixup.addend - (origin.toNat + fixup.offset + 1)) = true) :
    fixup.baseline origin = fixup.addend - (origin.toNat + fixup.offset + 1) :=
  (Address.wrapped_eq_iff _).mpr fits

theorem Reference.byte_of_reference {origin : UInt16} {start : Nat} {reference : Reference}
    (narrow : reference.width = .relative) :
    UInt8.ofInt (Patch.ofReference origin start reference).addend =
      UInt8.ofInt (reference.addend - (origin.toNat + (start + reference.offset) + 1)) := by
  have addend := @addend_patch origin (reference.moved start) narrow
  rw [patch_moved, baseline] at addend
  rw [addend, Address.of_int_wrapped]
  rfl

theorem Draft.placed_eq_foldl (origin : UInt16) (start : Nat) (encoding : Encoding) :
    placed encoding (encoding.references.map (Patch.ofReference origin start)) start =
      encoding.references.foldl (Reference.writeBaseline origin start) encoding.bytes := by
  unfold placed
  rw [List.foldl_map]
  congr 1
  funext bytes reference
  cases width : reference.width with
  | absolute => simp [Patch.ofReference, Reference.writeBaseline, width]
  | relative =>
    rw [Reference.byte_of_reference width]
    simp [Patch.ofReference, Reference.writeBaseline, width]

theorem Reference.replaces_zeros (origin : UInt16) (start : Nat) :
    Replaces (writeBaseline origin start) Reference.zeros
      fun reference => (reference.moved start).placeholder origin := by
  refine ⟨?_, ?_, ?_, ?_⟩
  · intro reference
    cases width : reference.width <;> simp [placeholder, moved, width, Width.size]
  · intro bytes reference
    cases width : reference.width <;> simp [writeBaseline, width]
  · intro bytes reference index outside
    cases width : reference.width with
    | absolute => simp only [writeBaseline, width]
    | relative =>
      have elsewhere : reference.offset ≠ index := by
        intro here
        exact outside ⟨Nat.le_of_eq here, by simp [here, width, Width.size]⟩
      simp only [writeBaseline, width, List.getElem?_set_ne elsewhere]
  · intro bytes reference stands
    cases width : reference.width with
    | absolute =>
      simpa [zeros, placeholder, moved, writeBaseline, width, Width.size, List.replicate] using stands
    | relative =>
      have inside := stands.inside (by simp [zeros, width, Width.size])
      simp only [zeros, width, Width.size, List.length_replicate] at inside
      intro index bound
      obtain rfl : index = 0 := by simpa [placeholder, moved, width] using bound
      simp only [writeBaseline, placeholder, moved, width, Nat.add_zero]
      rw [List.getElem?_set_self (by omega)]
      rfl

/-- Only distances are changed. -/
theorem Reference.foldl_write_baseline_elsewhere (origin : UInt16) (start : Nat)
    {references : List Reference} {index : Nat} (outside : ∀ reference ∈ references,
      reference.width = .relative → reference.offset ≠ index) (bytes : List UInt8) :
    (references.foldl (writeBaseline origin start) bytes)[index]? = bytes[index]? := by
  induction references generalizing bytes with
  | nil => rfl
  | cons reference rest induction =>
    obtain ⟨here, later⟩ := List.forall_mem_cons.mp outside
    rw [List.foldl_cons, induction later]
    cases width : reference.width with
    | absolute => simp only [writeBaseline, width]
    | relative => simp only [writeBaseline, width, List.getElem?_set_ne (here width)]

namespace Draft

theorem code_emit (draft : Draft) (head : Token) (encoding : Encoding) :
    (draft.emit head encoding).code.toList = draft.code.toList ++
      encoding.references.foldl (Reference.writeBaseline draft.origin draft.code.size)
        encoding.bytes := by
  simp [emit, placed_eq_foldl]

theorem size_emit (draft : Draft) (head : Token) (encoding : Encoding) :
    (draft.emit head encoding).code.size = draft.code.size + encoding.bytes.length := by
  rw [← Array.length_toList, code_emit, List.length_append,
    (Reference.replaces_zeros _ _).length_foldl, Array.length_toList]

end Draft

/-! ### The effect of a statement with code -/

/-- The patch that waits for the label of a reference, in bytes that start at an offset of the code. -/
structure Patch.Awaits (origin : UInt16) (start : Nat) (reference : Reference) (patch : Patch) :
    Prop where
  name : patch.name = reference.name
  offset : patch.offset = start + reference.offset
  width : patch.width = reference.width
  position : patch.position = reference.position
  absolute : reference.width = .absolute → patch.addend = reference.addend
  relative : reference.width = .relative → patch.addend =
    Address.wrapped (reference.addend - (origin.toNat + (start + reference.offset) + 1))

/-- The draft after an encoding has been appended for the statement that starts at `head`. -/
structure Draft.Appends (draft : Draft) (head : Token) (encoding : Encoding) (after : Draft) :
    Prop where
  origin : after.origin = draft.origin
  symbols : after.symbols = draft.symbols
  diagnostics : after.diagnostics = draft.diagnostics
  size : after.code.size = draft.code.size + encoding.bytes.length
  kept : ∀ index < draft.code.size, after.code[index]? = draft.code[index]?
  -- the bytes of the encoding, but for the places of distances
  bytes : ∀ index, (∀ reference ∈ encoding.references,
      reference.width = .relative → reference.offset ≠ index) →
    after.code[draft.code.size + index]? = encoding.bytes[index]?
  baselines : ∀ reference ∈ encoding.references, reference.width = .relative →
    after.code[draft.code.size + reference.offset]? = some (UInt8.ofInt
      (reference.addend - (draft.origin.toNat + (draft.code.size + reference.offset) + 1)))
  patches : ∃ added, List.Forall₂ (Patch.Awaits draft.origin draft.code.size)
    encoding.references added ∧ after.patches = draft.patches ++ added
  lines : after.lines = draft.lines.push ⟨head.position.line,
    UInt16.ofNat (draft.origin.toNat + draft.code.size), draft.code.size,
    draft.code.size + encoding.bytes.length⟩

namespace Patch

theorem awaits_of_reference (origin : UInt16) (start : Nat) (reference : Reference) :
    Awaits origin start reference (ofReference origin start reference) := by
  refine ⟨rfl, rfl, rfl, rfl, ?_, ?_⟩
  · intro wide
    simp only [ofReference, wide]
  · intro narrow
    have addend := @Reference.addend_patch origin (reference.moved start) narrow
    rwa [Reference.patch_moved] at addend

theorem Awaits.unique {origin : UInt16} {start : Nat} {reference : Reference} {patch other : Patch}
    (first : Awaits origin start reference patch) (second : Awaits origin start reference other) :
    patch = other := by
  have addend : patch.addend = other.addend := by
    cases width : reference.width with
    | absolute => rw [first.absolute width, second.absolute width]
    | relative => rw [first.relative width, second.relative width]
  have name := first.name.trans second.name.symm
  have offset := first.offset.trans second.offset.symm
  have width := first.width.trans second.width.symm
  have position := first.position.trans second.position.symm
  cases patch
  cases other
  cases name
  cases offset
  cases width
  cases position
  cases addend
  rfl

end Patch

namespace Draft

theorem appends_emit (draft : Draft) (head : Token) {encoding : Encoding}
    (zeros : Reserves Reference.zeros encoding.bytes encoding.references) :
    draft.Appends head encoding (draft.emit head encoding) := by
  have code := draft.code_emit head encoding
  have placed := (Reference.replaces_zeros draft.origin draft.code.size).foldl_reserves zeros
  have size : draft.code.size = draft.code.toList.length := Array.length_toList.symm
  refine ⟨rfl, rfl, rfl, draft.size_emit head encoding, ?_, ?_, ?_, ?_, rfl⟩
  · intro index bound
    rw [← Array.getElem?_toList, code, List.getElem?_append_left (by omega), Array.getElem?_toList]
  · intro index outside
    rw [← Array.getElem?_toList, code, List.getElem?_append_right (by omega), size,
      Nat.add_sub_cancel_left]
    exact Reference.foldl_write_baseline_elsewhere _ _ outside _
  · intro reference member narrow
    have held := placed.held reference member 0
      (by rw [Reference.length_placeholder]; exact reference.width.size_pos)
    rw [← Array.getElem?_toList, code, List.getElem?_append_right (by omega), size,
      Nat.add_sub_cancel_left]
    simpa [Reference.placeholder, Reference.moved, narrow] using held
  · refine ⟨encoding.references.map (Patch.ofReference draft.origin draft.code.size), ?_, rfl⟩
    rw [List.forall₂_map_right_iff, List.forall₂_same]
    exact fun reference _ => Patch.awaits_of_reference _ _ reference

theorem Appends.unique {draft after other : Draft} {head : Token} {encoding : Encoding}
    (first : draft.Appends head encoding after) (second : draft.Appends head encoding other) :
    after = other := by
  have code : after.code = other.code := by
    refine Array.ext_getElem? fun index => ?_
    by_cases old : index < draft.code.size
    · rw [first.kept index old, second.kept index old]
    · obtain ⟨place, rfl⟩ := Nat.exists_eq_add_of_le (Nat.le_of_not_lt old)
      by_cases covered : ∃ reference ∈ encoding.references,
          reference.width = .relative ∧ reference.offset = place
      · obtain ⟨reference, member, narrow, rfl⟩ := covered
        rw [first.baselines reference member narrow, second.baselines reference member narrow]
      · have outside : ∀ reference ∈ encoding.references,
            reference.width = .relative → reference.offset ≠ place :=
          fun reference member narrow here => covered ⟨reference, member, narrow, here⟩
        rw [first.bytes place outside, second.bytes place outside]
  have patches : after.patches = other.patches := by
    obtain ⟨added, awaited, here⟩ := first.patches
    obtain ⟨others, waiting, there⟩ := second.patches
    have unique : Relator.RightUnique (Patch.Awaits draft.origin draft.code.size) :=
      fun _ _ _ => Patch.Awaits.unique
    rw [here, there, List.right_unique_forall₂' unique awaited waiting]
  have origin := first.origin.trans second.origin.symm
  have symbols := first.symbols.trans second.symbols.symm
  have diagnostics := first.diagnostics.trans second.diagnostics.symm
  have lines := first.lines.trans second.lines.symm
  cases after
  cases other
  cases origin
  cases code
  cases patches
  cases symbols
  cases lines
  cases diagnostics
  rfl

/-- Appending an accepted statement is emitting it. -/
theorem appends_iff {draft after : Draft} {head token : Token} {symbols : Symbols}
    {cursor rest : Cursor} {statement : Statement}
    (read : Statement.parse symbols token cursor = (.ok statement, rest)) :
    draft.Appends head statement.encoding after ↔ after = draft.emit head statement.encoding := by
  have emitted := draft.appends_emit head (Statement.encoding_reserves read)
  constructor
  · intro appends
    exact appends.unique emitted
  · rintro rfl
    exact emitted

end Draft

end Z80Toolchain
