import Mathlib.Data.List.Lex

/-!
Texts in the order of their bytes. A text is compared character by character, but a file system
compares names byte by byte, and the bytes of a character are one to four. The two orders agree,
since a character with a greater code has greater bytes, or a greater first byte if it has more of
them. Only texts in UTF-8 are considered.
-/
namespace Z80Toolchain.Text

def bytes (text : String) : List UInt8 :=
  text.toUTF8.data.toList

/-- Byte by byte, the left list comes before the right one. -/
def BytesBefore : List UInt8 → List UInt8 → Prop :=
  List.Lex fun low high => low.toNat < high.toNat

theorem bytes_eq_flat_map (text : String) : bytes text = text.toList.flatMap String.utf8EncodeChar := by
  rw [bytes, String.toUTF8, ← String.utf8Encode_toList, List.utf8Encode, List.data_toByteArray]

theorem BytesBefore.asymm {left right : List UInt8} (before : BytesBefore left right) :
    ¬ BytesBefore right left :=
  List.lex_asymm Nat.lt_asymm before

theorem bytes_before_cons {low high : Nat} (small : low < 256) (bound : high < 256)
    {rest others : List UInt8} :
    BytesBefore (.ofNat low :: rest) (.ofNat high :: others) ↔
      low < high ∨ low = high ∧ BytesBefore rest others := by
  rw [BytesBefore, List.cons_lex_cons_iff, ← UInt8.toNat_inj, UInt8.toNat_ofNat_of_lt' small,
    UInt8.toNat_ofNat_of_lt' bound]

/-- A character with a smaller code comes first, whatever follows. -/
theorem bytes_before_of_lt {c d : Char} (less : c.val.toNat < d.val.toNat) (rest others : List UInt8) :
    BytesBefore (String.utf8EncodeChar c ++ rest) (String.utf8EncodeChar d ++ others) := by
  have bound : d.val.toNat < 1114112 := by
    rcases d.valid with low | high
    · exact Nat.lt_trans low (by decide)
    · exact high.2
  unfold String.utf8EncodeChar
  generalize c.val.toNat = low at less
  generalize d.val.toNat = high at less bound
  have thousands : ∀ code : Nat, code / 4096 = code / 64 / 64 := fun code =>
    (Nat.div_div_eq_div_mul code 64 64).symm
  have highest : ∀ code : Nat, code / 262144 = code / 64 / 64 / 64 := fun code => by
    rw [Nat.div_div_eq_div_mul, Nat.div_div_eq_div_mul]
  dsimp only
  -- one to four bytes on either side: the first byte that differs is smaller
  split_ifs <;>
    simp (disch := omega) only [List.cons_append, List.nil_append, bytes_before_cons, thousands,
      highest] <;>
    omega

/-- The order of texts is the order of their bytes. -/
theorem bytes_before {left right : String} (less : left < right) :
    BytesBefore (bytes left) (bytes right) := by
  rw [bytes_eq_flat_map, bytes_eq_flat_map]
  have lex : List.Lex (· < ·) left.toList right.toList := less
  generalize left.toList = first at lex
  generalize right.toList = second at lex
  induction lex with
  | @nil d rest =>
    cases coded : String.utf8EncodeChar d with
    | nil => exact absurd coded String.utf8EncodeChar_ne_nil
    | cons byte bytes =>
      rw [List.flatMap_cons, coded]
      exact .nil
  | rel smaller => exact bytes_before_of_lt smaller _ _
  | @cons c first second later induction =>
    rw [List.flatMap_cons, List.flatMap_cons]
    exact List.Lex.append_left _ induction _

end Z80Toolchain.Text
