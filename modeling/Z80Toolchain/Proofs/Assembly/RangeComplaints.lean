import Mathlib.Data.List.Forall2
import Mathlib.Data.List.ReduceOption
import Z80Toolchain.Proofs.Assembly.Patching

/-!
The numbers in complaints about places that cannot hold their target. The target of a patch is an
exact sum, but a complaint keeps 32 bits of it. So a complaint names the target exactly if the target
fits, and two numbers of 32 bits can add up to one that does not: then the complaint is off by a whole
turn, and it can even name a number that the place could hold.
-/
namespace Z80Toolchain

namespace Width

/-- The numbers that a place of this width can hold. -/
def Holds : Width → Int → Prop
  | .absolute, number => -32768 ≤ number ∧ number ≤ 65535
  | .relative, number => -128 ≤ number ∧ number ≤ 127

def outOfRange : Width → Int → Cause
  | .absolute => .valueOutOfRange
  | .relative => .relativeOutOfRange

structure Shows (width : Width) (target shown : Int) : Prop where
  fits : fitsInteger shown = true
  congruent : 4294967296 ∣ target - shown
  exact : shown = target ↔ fitsInteger target = true
  outside : fitsInteger target = true → ¬ width.Holds shown
  -- the sums of two 32-bit numbers whose complaints name a number that would fit the place
  misleading : -4294967296 ≤ target → target ≤ 4294967294 →
    (width.Holds shown ↔ width.Holds (target - 4294967296) ∨ width.Holds (target + 4294967296))

end Width

namespace Patch

/-- The complaint about one patch, if there is one. -/
inductive Reports (symbols : Symbols) (patch : Patch) : Option Diagnostic → Prop
  | unresolved (absent : symbols.value? patch.name = none) :
      Reports symbols patch (some ⟨patch.position, .unresolvedSymbol patch.name, none⟩)
  | held {value : Int} (found : symbols.value? patch.name = some value)
      (inside : patch.width.Holds (value + patch.addend)) : Reports symbols patch none
  | refused {value shown : Int} (found : symbols.value? patch.name = some value)
      (outside : ¬ patch.width.Holds (value + patch.addend))
      (shows : patch.width.Shows (value + patch.addend) shown) :
      Reports symbols patch (some ⟨patch.position, patch.width.outOfRange shown, none⟩)

theorem shows_wrapped {width : Width} {target : Int} (outside : ¬ width.Holds target) :
    width.Shows target (Address.wrapped target) := by
  have fits := Address.fits_wrapped target
  have same := Address.wrapped_eq_iff target
  have congruent := Address.dvd_sub_wrapped target
  refine ⟨fits, congruent, same, ?_, ?_⟩
  · intro small
    rwa [same.mpr small]
  · intro low high
    obtain ⟨turns, apart⟩ := congruent
    rw [fits_integer_iff] at fits
    -- a sum of two numbers is at most one turn away from what is shown
    have few : turns = -1 ∨ turns = 0 ∨ turns = 1 := by omega
    cases width <;> simp only [Width.Holds] at outside ⊢ <;> omega

theorem reports_refusal? (symbols : Symbols) (patch : Patch) :
    Reports symbols patch (patch.refusal? symbols) := by
  unfold refusal? edit
  cases found : symbols.value? patch.name with
  | none => exact .unresolved found
  | some value =>
    by_cases inside : patch.width.Holds (value + patch.addend)
    · have edited : ∃ edit, patch.editFor value = .ok edit := by
        unfold editFor
        cases width : patch.width <;> rw [width] at inside <;> exact ⟨_, if_pos inside⟩
      obtain ⟨edit, edited⟩ := edited
      simp only [edited]
      exact .held found inside
    · have refused : patch.editFor value = .error
          ⟨patch.position, patch.width.outOfRange (Address.wrapped (value + patch.addend)), none⟩ := by
        unfold editFor
        cases width : patch.width <;> rw [width] at inside <;> exact if_neg inside
      simp only [refused]
      exact .refused found inside (shows_wrapped inside)

/-- Every patch is reported at most once, in order. -/
theorem resolve_reports (symbols : Symbols) (code : Array UInt8) (patches : List Patch) :
    ∃ reports, List.Forall₂ (Reports symbols) patches reports ∧
      (resolve symbols code patches).2 = reports.reduceOption := by
  refine ⟨patches.map (refusal? symbols), ?_, ?_⟩
  · rw [List.forall₂_map_right_iff, List.forall₂_same]
    exact fun patch _ => reports_refusal? symbols patch
  · rw [resolve_eq, List.reduceOption, List.filterMap_map]
    rfl

/-- Twice the largest number is reported as minus two, which the place could hold; a source of two
lines does it. -/
theorem resolve_reports_turned :
    let symbols : Symbols := ⟨[⟨"v", .constant, 2147483647, .start⟩]⟩
    let patch : Patch := ⟨"v", 0, .absolute, 2147483647, .start⟩
    (resolve symbols #[0, 0] [patch]).2 = [⟨.start, .valueOutOfRange (-2), none⟩] ∧
      symbols.value? patch.name = some 2147483647 ∧ 2147483647 + patch.addend = 4294967294 ∧
      Width.absolute.Holds (-2) ∧
      (assemble 0 "@v 2147483647\ndw v+2147483647".toList).diagnostics =
        [⟨⟨1, 3⟩, .valueOutOfRange (-2), none⟩] := by
  refine ⟨by decide, by decide, rfl, ?_, by decide +kernel⟩
  simp [Width.Holds]

end Patch

end Z80Toolchain
