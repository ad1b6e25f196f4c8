import Z80Toolchain.Machine.Address

/-!
Addresses in 32 bits. A number that does not fit is off by whole turns of the 32 bits, which its
lower bits do not show. Below the 2 GiB that fit, the address of an offset is the plain sum.
-/
namespace Z80Toolchain.Address

theorem wrapped_eq_bmod (number : Int) : wrapped number = number.bmod 4294967296 :=
  Int32.toInt_ofInt

theorem wrapped_bounds (number : Int) :
    -2147483648 ≤ wrapped number ∧ wrapped number ≤ 2147483647 := by
  have low := @Int.le_bmod number 4294967296 (by decide)
  have high := @Int.bmod_lt number 4294967296 (by decide)
  rw [wrapped_eq_bmod]
  omega

theorem wrapped_of_fits {number : Int} (low : -2147483648 ≤ number) (high : number ≤ 2147483647) :
    wrapped number = number := by
  rw [wrapped_eq_bmod]
  exact Int.bmod_eq_of_le (by omega) (by omega)

theorem dvd_sub_wrapped (number : Int) : 4294967296 ∣ number - wrapped number := by
  rw [wrapped_eq_bmod]
  exact Int.dvd_self_sub_bmod

/-- Whole turns make no difference. -/
theorem wrapped_congr {first second : Int} (turns : 4294967296 ∣ first - second) :
    wrapped first = wrapped second := by
  have bounds := wrapped_bounds first
  have others := wrapped_bounds second
  have here := dvd_sub_wrapped first
  have there := dvd_sub_wrapped second
  omega

theorem wrapped_add_wrapped (first second : Int) :
    wrapped (first + wrapped second) = wrapped (first + second) := by
  have turns := dvd_sub_wrapped second
  exact wrapped_congr (by omega)

theorem wrapped_sub_wrapped (first second : Int) :
    wrapped (first - wrapped second) = wrapped (first - second) := by
  have turns := dvd_sub_wrapped second
  exact wrapped_congr (by omega)

theorem of_int_wrapped (number : Int) : UInt8.ofInt (wrapped number) = UInt8.ofInt number := by
  have turns := dvd_sub_wrapped number
  have same : wrapped number % 2 ^ 8 = number % 2 ^ 8 := by omega
  rw [UInt8.ofInt, same, UInt8.ofInt]

theorem of_int_wrapped_word (number : Int) :
    UInt16.ofInt (wrapped number) = UInt16.ofInt number := by
  have turns := dvd_sub_wrapped number
  have same : wrapped number % 2 ^ 16 = number % 2 ^ 16 := by omega
  rw [UInt16.ofInt, same, UInt16.ofInt]

theorem of_offset_eq (origin : UInt16) (offset : Nat) :
    ofOffset origin offset = wrapped (origin.toNat + offset) :=
  wrapped_add_wrapped _ _

theorem of_offset_of_lt {origin : UInt16} {offset : Nat}
    (short : origin.toNat + offset < 2147483648) :
    ofOffset origin offset = origin.toNat + offset := by
  rw [of_offset_eq]
  exact wrapped_of_fits (by omega) (by omega)

end Z80Toolchain.Address
