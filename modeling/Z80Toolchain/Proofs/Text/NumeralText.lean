import Z80Toolchain.Text.Numeral

/-!
Written numbers read as themselves: the digits of a number denote it again, padded with zeros or not,
and the mark in front of them chooses the base they were written to. The bases are those up to
sixteen; nothing depends on how long a number is.
-/
namespace Z80Toolchain.Numeral

theorem digit_value?_digit_char {radix digit : Nat} (small : radix ≤ 16) (bounded : digit < radix) :
    digitValue? radix digit.digitChar = some digit := by
  have table : ∀ digit : Fin 16, digitValue? 16 digit.val.digitChar = some digit.val := by decide
  have value := table ⟨digit, by omega⟩
  simp only [digitValue?, Option.filter_eq_some_iff, decide_eq_true_eq] at value ⊢
  exact ⟨value.1, bounded⟩

theorem exists_digit_of_mem_to_digits {radix : Nat} (base : 1 < radix) {number : Nat} {c : Char}
    (member : c ∈ Nat.toDigits radix number) : ∃ digit < radix, c = digit.digitChar := by
  induction number using Nat.strongRecOn with
  | ind number induction =>
    rw [Nat.toDigits_eq_if base] at member
    split at member
    · rename_i single
      exact ⟨number, single, List.mem_singleton.mp member⟩
    · rename_i more
      have shorter : number / radix < number := Nat.div_lt_self (by omega) base
      rcases List.mem_append.mp member with earlier | last
      · exact induction (number / radix) shorter earlier
      · exact ⟨_, Nat.mod_lt _ (by omega), List.mem_singleton.mp last⟩

theorem is_digit_to_digits {radix : Nat} (base : 1 < radix) (small : radix ≤ 16) (number : Nat) :
    ∀ c ∈ Nat.toDigits radix number, isDigit radix c = true := by
  intro c member
  obtain ⟨digit, bounded, rfl⟩ := exists_digit_of_mem_to_digits base member
  rw [isDigit, digit_value?_digit_char small bounded]
  rfl

theorem value_append (radix : Nat) (digits : List Char) (c : Char) :
    value radix (digits ++ [c]) = value radix digits * radix + (digitValue? radix c).getD 0 := by
  simp [value]

theorem value_to_digits {radix : Nat} (base : 1 < radix) (small : radix ≤ 16) (number : Nat) :
    value radix (Nat.toDigits radix number) = number := by
  induction number using Nat.strongRecOn with
  | ind number induction =>
    rw [Nat.toDigits_eq_if base]
    split
    · rename_i single
      simp [value, digit_value?_digit_char small single]
    · rename_i more
      have shorter : number / radix < number := Nat.div_lt_self (by omega) base
      have digit : number % radix < radix := Nat.mod_lt _ (by omega)
      rw [value_append, induction _ shorter, digit_value?_digit_char small digit]
      exact Nat.div_add_mod' number radix

/-- Leading zeros do not change a number. -/
theorem value_leftpad (radix width : Nat) (digits : List Char) :
    value radix (digits.leftpad width '0') = value radix digits := by
  have zero : (digitValue? radix '0').getD 0 = 0 := by
    by_cases positive : 0 < radix <;> simp [digitValue?, Option.filter, positive]
  have zeros : ∀ count, value radix (List.replicate count '0' ++ digits) = value radix digits := by
    intro count
    induction count with
    | zero => rfl
    | succ count induction =>
      rw [← induction]
      simp [value, List.replicate_succ, zero]
  exact zeros (width - digits.length)

theorem is_digit_leftpad {radix : Nat} (base : 1 < radix) (width : Nat) {digits : List Char}
    (all : ∀ c ∈ digits, isDigit radix c = true) :
    ∀ c ∈ digits.leftpad width '0', isDigit radix c = true := by
  have zero : isDigit radix '0' = true := by
    have positive : 0 < radix := by omega
    simp [isDigit, digitValue?, Option.filter, positive]
  intro c member
  rcases List.mem_append.mp member with padding | own
  · rw [List.eq_of_mem_replicate padding, zero]
  · exact all c own

/-! ### Capital digits -/

theorem digit_value?_to_upper_digit_char {digit : Nat} (bounded : digit < 16) :
    digitValue? 16 digit.digitChar.toUpper = some digit := by
  have table : ∀ digit : Fin 16, digitValue? 16 digit.val.digitChar.toUpper = some digit.val := by
    decide
  exact table ⟨digit, bounded⟩

theorem value_map {radix : Nat} {change : Char → Char} {digits : List Char}
    (same : ∀ c ∈ digits, digitValue? radix (change c) = digitValue? radix c) :
    value radix (digits.map change) = value radix digits := by
  have read (digits : List Char) : value radix digits =
      (digits.map (digitValue? radix)).foldl (fun number digit => number * radix + digit.getD 0) 0 := by
    rw [List.foldl_map]
    rfl
  have mapped : digits.map (digitValue? radix ∘ change) = digits.map (digitValue? radix) :=
    List.map_congr_left same
  rw [read, read, List.map_map, mapped]

theorem value_hex_upper (width number : Nat) : value 16 (hexUpper width number).toList = number := by
  rw [hexUpper, String.toList_ofList, value_leftpad, value_map,
    value_to_digits (by decide) (by decide)]
  intro c member
  obtain ⟨digit, bounded, rfl⟩ := exists_digit_of_mem_to_digits (by decide) member
  rw [digit_value?_to_upper_digit_char bounded, digit_value?_digit_char (by decide) bounded]

theorem is_digit_hex_upper (width number : Nat) :
    ∀ c ∈ (hexUpper width number).toList, isDigit 16 c = true := by
  rw [hexUpper, String.toList_ofList]
  apply is_digit_leftpad (by decide)
  intro c member
  obtain ⟨lower, inside, rfl⟩ := List.mem_map.mp member
  obtain ⟨digit, bounded, rfl⟩ := exists_digit_of_mem_to_digits (by decide) inside
  rw [isDigit, digit_value?_to_upper_digit_char bounded]
  rfl

theorem length_hex_upper {width number : Nat} (short : (Nat.toDigits 16 number).length ≤ width) :
    (hexUpper width number).toList.length = width := by
  rw [hexUpper, String.toList_ofList, List.length_leftpad, List.length_map]
  exact Nat.max_eq_left short

/-! ### Digits as characters -/

/-- A digit of any base is a letter or a decimal digit. -/
theorem is_alphanum_of_is_digit {radix : Nat} {c : Char} (digit : isDigit radix c = true) :
    c.isAlphanum = true := by
  simp only [isDigit, digitValue?, Option.isSome_iff_exists, Option.filter_eq_some_iff] at digit
  obtain ⟨value, found, -⟩ := digit
  delta Char.isAlphanum Char.isAlpha Char.isUpper Char.isLower Char.isDigit
  simp only [Bool.or_eq_true, Bool.and_eq_true, decide_eq_true_eq]
  simp only [Char.le_def] at found
  split at found
  · exact .inr ‹_›
  · split at found
    · exact .inl (.inr ‹_›)
    · split at found
      · exact .inl (.inl ‹_›)
      · cases found

theorem radix_and_digits_of_decimal {digits : List Char}
    (all : ∀ c ∈ digits, isDigit 10 c = true) : radixAndDigits digits = (10, digits) := by
  unfold radixAndDigits
  split
  · exact absurd (all 'x' (by simp)) (by decide)
  · exact absurd (all 'X' (by simp)) (by decide)
  · exact absurd (all 'b' (by simp)) (by decide)
  · exact absurd (all 'B' (by simp)) (by decide)
  · rfl

end Z80Toolchain.Numeral
