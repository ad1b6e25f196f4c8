import Mathlib.Data.List.Forall2
import Z80Toolchain.Project.Manifest
import Z80Toolchain.Proofs.Source.NumberReaders

/-!
The words of a manifest. They fall into groups: a word that names a source, and in front of it the
words that give addresses. An entry has the last address of its group, so an address is never used
twice, and one with no source behind it is not used at all. The first word that looks like an address
and is none refuses the whole manifest.
-/
namespace Z80Toolchain

/-! ### Words -/

namespace Text

/-- The text is made of these words, with white space between them and perhaps around them. -/
inductive Separated : List Char → List (List Char) → Prop
  | done {gap : List Char} (blank : ∀ c ∈ gap, isBlank c = true) : Separated gap []
  | word {gap word rest : List Char} {words : List (List Char)}
      (blank : ∀ c ∈ gap, isBlank c = true) (some : word ≠ [])
      (solid : ∀ c ∈ word, isBlank c = false) (ends : rest.head?.all isBlank = true)
      (later : Separated rest words) : Separated (gap ++ word ++ rest) (word :: words)

theorem Separated.cons_blank {c : Char} {text : List Char} {words : List (List Char)}
    (blank : isBlank c = true) (separated : Separated text words) : Separated (c :: text) words := by
  cases separated with
  | done blanks => exact .done (List.forall_mem_cons.mpr ⟨blank, blanks⟩)
  | word blanks some solid ends later =>
    exact .word (List.forall_mem_cons.mpr ⟨blank, blanks⟩) some solid ends later

/-- A character in front of a text that starts with a word belongs to that word. -/
theorem Separated.cons_solid {c : Char} {text word : List Char} {words : List (List Char)}
    (solid : isBlank c = false) (starts : ¬ text.head?.all isBlank = true)
    (separated : Separated text (word :: words)) : Separated (c :: text) ((c :: word) :: words) := by
  cases separated with
  | @word gap _ rest _ blanks some others ends later =>
    cases gap with
    | nil =>
      exact @Separated.word [] (c :: word) rest words (by simp) (by simp)
        (List.forall_mem_cons.mpr ⟨solid, others⟩) ends later
    | cons blank gap => exact absurd (blanks blank List.mem_cons_self) (by simpa using starts)

theorem separated_words (text : List Char) : Separated text (words text) := by
  induction text with
  | nil => exact .done (by simp)
  | cons c rest induction =>
    rw [words]
    split
    · next blank => exact induction.cons_blank blank
    · next solid =>
      have solid : isBlank c = false := by simpa using solid
      split
      · next ends =>
        exact @Separated.word [] [c] rest _ (by simp) (by simp) (by simpa using solid) ends induction
      · next starts =>
        split
        · next none =>
          rw [none] at induction
          cases induction with
          | done blanks =>
            refine absurd ?_ starts
            cases rest with
            | nil => rfl
            | cons d rest => exact blanks d List.mem_cons_self
        · next word more found =>
          rw [found] at induction
          exact induction.cons_solid solid starts

end Text

/-! ### Addresses -/

namespace Numeral

theorem read_digits_plus (radix limit number : Nat) (rest : List Char) :
    readDigits radix limit number ('+' :: rest) = .error .invalidDigit := by
  have none : digitValue? radix '+' = none := by simp [digitValue?]
  rw [readDigits, none]

/-- A plus sign may stand in front of the digits, but not alone. -/
theorem read_eq_ok_iff {radix limit number : Nat} {text : List Char} :
    read radix limit text = .ok number ↔
      ∃ sign digits, text = sign ++ digits ∧ (sign = [] ∨ sign = ['+']) ∧ digits ≠ [] ∧
        readDigits radix limit 0 digits = .ok number := by
  constructor
  · fun_cases read radix limit text with
    | case1 | case2 =>
      intro refused
      cases refused
    | case3 digits alone =>
      intro accepted
      refine ⟨['+'], digits, rfl, .inr rfl, ?_, accepted⟩
      rintro rfl
      exact alone rfl
    | case4 _ some =>
      intro accepted
      exact ⟨[], text, rfl, .inl rfl, some, accepted⟩
  · rintro ⟨sign, digits, rfl, rfl | rfl, some, accepted⟩
    · cases digits with
      | nil => exact absurd rfl some
      | cons c rest =>
        by_cases plus : c = '+'
        · subst plus
          rw [read_digits_plus] at accepted
          cases accepted
        · rw [List.nil_append, read]
          · exact accepted
          all_goals simp [plus]
    · cases digits with
      | nil => exact absurd rfl some
      | cons c rest => exact accepted

end Numeral

namespace Manifest

def MarksAddress (word : List Char) : Prop :=
  ['0', 'x'] <+: word ∨ ['0', 'X'] <+: word

instance : DecidablePred MarksAddress := fun _ => inferInstanceAs (Decidable (_ ∨ _))

/-- Behind its mark the word has hexadecimal digits, perhaps with a plus sign, that denote the
address. -/
inductive GivesAddress : List Char → UInt16 → Prop
  | intro {mark : Char} {sign digits : List Char} {address : UInt16}
      (marked : mark = 'x' ∨ mark = 'X') (signed : sign = [] ∨ sign = ['+']) (some : digits ≠ [])
      (denotes : Numeral.Denotes 16 digits address.toNat) :
      GivesAddress ('0' :: mark :: (sign ++ digits)) address

/-- The word looks like an address but is none. -/
def Malformed (word : List Char) : Prop :=
  MarksAddress word ∧ ∀ address, ¬ GivesAddress word address

theorem address_digits?_eq_some {word digits : List Char} :
    addressDigits? word = some digits ↔
      ∃ mark, (mark = 'x' ∨ mark = 'X') ∧ word = '0' :: mark :: digits := by
  constructor
  · fun_cases addressDigits? word with
    | case1 rest =>
      rintro ⟨⟩
      exact ⟨'x', .inl rfl, rfl⟩
    | case2 rest =>
      rintro ⟨⟩
      exact ⟨'X', .inr rfl, rfl⟩
    | case3 =>
      intro nothing
      cases nothing
  · rintro ⟨mark, rfl | rfl, rfl⟩ <;> rfl

theorem address_digits?_eq_none {word : List Char} :
    addressDigits? word = none ↔ ¬ MarksAddress word := by
  rw [← not_iff_not, not_not, ← ne_eq, Option.ne_none_iff_exists']
  simp only [address_digits?_eq_some]
  constructor
  · rintro ⟨digits, mark, rfl | rfl, rfl⟩
    · exact .inl ⟨digits, rfl⟩
    · exact .inr ⟨digits, rfl⟩
  · rintro (⟨digits, rfl⟩ | ⟨digits, rfl⟩)
    · exact ⟨digits, 'x', .inl rfl, rfl⟩
    · exact ⟨digits, 'X', .inr rfl, rfl⟩

theorem gives_address_iff {word digits : List Char} {address : UInt16}
    (marked : addressDigits? word = some digits) :
    GivesAddress word address ↔ Numeral.read 16 Address.last digits = .ok address.toNat := by
  have inside : address.toNat ≤ Address.last := Nat.le_of_lt_succ address.toNat_lt
  rw [Numeral.read_eq_ok_iff]
  simp only [Numeral.read_digits_eq_ok (by decide : 16 ≤ 16) (by decide : 0 < 16)]
  obtain ⟨mark, named, rfl⟩ := address_digits?_eq_some.mp marked
  constructor
  · rintro ⟨-, signed, some, denotes⟩
    exact ⟨_, _, rfl, signed, some, denotes, inside⟩
  · rintro ⟨sign, plain, rfl, signed, some, denotes, -⟩
    exact .intro named signed some denotes

theorem GivesAddress.exists_digits {word : List Char} {address : UInt16}
    (gives : GivesAddress word address) : ∃ digits, addressDigits? word = some digits := by
  obtain ⟨marked, -, -, -⟩ := gives
  exact ⟨_, address_digits?_eq_some.mpr ⟨_, marked, rfl⟩⟩

theorem GivesAddress.unique {word : List Char} {address other : UInt16}
    (first : GivesAddress word address) (second : GivesAddress word other) : address = other := by
  obtain ⟨digits, marked⟩ := first.exists_digits
  rw [gives_address_iff marked] at first second
  exact UInt16.toNat_inj.mp (Except.ok.inj (first.symm.trans second))

theorem gives_address_of_read {word digits : List Char} {value : Nat}
    (marked : addressDigits? word = some digits)
    (found : Numeral.read 16 Address.last digits = .ok value) :
    GivesAddress word (UInt16.ofNat value) := by
  obtain ⟨sign, plain, -, -, -, accepted⟩ := Numeral.read_eq_ok_iff.mp found
  obtain ⟨-, inside⟩ := (Numeral.read_digits_eq_ok (by decide) (by decide)).mp accepted
  have small : value < 65536 := Nat.lt_succ_of_le inside
  rw [gives_address_iff marked, found, UInt16.toNat_ofNat_of_lt' small]

theorem malformed_iff {word : List Char} :
    Malformed word ↔ ∃ digits fault, addressDigits? word = some digits ∧
      Numeral.read 16 Address.last digits = .error fault := by
  constructor
  · rintro ⟨marked, none⟩
    cases found : addressDigits? word with
    | none => exact absurd marked (address_digits?_eq_none.mp found)
    | some digits =>
      cases read : Numeral.read 16 Address.last digits with
      | ok value => exact absurd (gives_address_of_read found read) (none _)
      | error fault => exact ⟨digits, fault, rfl, read⟩
  · rintro ⟨digits, fault, found, refused⟩
    constructor
    · by_contra plain
      rw [address_digits?_eq_none.mpr plain] at found
      cases found
    · intro address gives
      rw [gives_address_iff found, refused] at gives
      cases gives

instance : DecidablePred Malformed := fun word =>
  decidable_of_iff ((addressDigits? word).any fun digits =>
      (Numeral.read 16 Address.last digits).toOption.isNone) (by
    rw [malformed_iff, Option.any_eq_true]
    apply exists_congr
    intro digits
    cases Numeral.read 16 Address.last digits <;> simp [Except.toOption])

theorem read_address_of_gives {word digits : List Char} {address : UInt16}
    (marked : addressDigits? word = some digits) (gives : GivesAddress word address) :
    readAddress word digits = .ok address := by
  rw [readAddress, (gives_address_iff marked).mp gives]
  simp

/-! ### One word after another -/

section
variable (waiting : Option UInt16) {word : List Char} (rest : List (List Char))

/-- An address takes the place of one that was waiting. -/
theorem entries_from_gives {address : UInt16} (gives : GivesAddress word address) :
    entriesFrom waiting (word :: rest) = entriesFrom (some address) rest := by
  obtain ⟨digits, marked⟩ := gives.exists_digits
  rw [entriesFrom, marked]
  dsimp only
  rw [read_address_of_gives marked gives]
  rfl

theorem entries_from_malformed (malformed : Malformed word) :
    entriesFrom waiting (word :: rest) = .error (.invalidAddress (String.ofList word)) := by
  obtain ⟨digits, fault, marked, refused⟩ := malformed_iff.mp malformed
  rw [entriesFrom, marked]
  dsimp only
  rw [readAddress, refused]
  rfl

/-- Any other word is an entry, which takes the address that was waiting. -/
theorem entries_from_plain (plain : ¬ MarksAddress word) :
    entriesFrom waiting (word :: rest) =
      (entriesFrom none rest).map (⟨String.ofList word, waiting⟩ :: ·) := by
  rw [entriesFrom, address_digits?_eq_none.mpr plain]
  cases entriesFrom none rest <;> rfl

theorem gives_or_plain (sound : ¬ Malformed word) :
    (∃ address, GivesAddress word address) ∨ ¬ MarksAddress word := by
  by_contra neither
  rw [not_or, not_not] at neither
  exact sound ⟨neither.2, not_exists.mp neither.1⟩

end

theorem entries_from_refused (waiting : Option UInt16) {before after : List (List Char)}
    {word : List Char} (sound : ∀ earlier ∈ before, ¬ Malformed earlier)
    (malformed : Malformed word) :
    entriesFrom waiting (before ++ word :: after) =
      .error (.invalidAddress (String.ofList word)) := by
  induction before generalizing waiting with
  | nil => exact entries_from_malformed waiting after malformed
  | cons first before induction =>
    obtain ⟨here, later⟩ := List.forall_mem_cons.mp sound
    rw [List.cons_append]
    rcases gives_or_plain here with ⟨address, gives⟩ | plain
    · rw [entries_from_gives _ _ gives, induction _ later]
    · rw [entries_from_plain _ _ plain, induction _ later]
      rfl

/-! ### Groups of words -/

/-- A word that names a source, with the words for addresses in front of it. -/
structure Group where
  addresses : List (List Char)
  word : List Char
deriving DecidableEq, Repr

def Group.words (group : Group) : List (List Char) :=
  group.addresses ++ [group.word]

structure Group.IsSound (group : Group) : Prop where
  given : ∀ word ∈ group.addresses, ∃ address, GivesAddress word address
  plain : ¬ MarksAddress group.word

/-- The address that is left after some words for addresses: the last one, or else the one that was
waiting in front of them. -/
inductive LastAddress (waiting : Option UInt16) : List (List Char) → Option UInt16 → Prop
  | nothing : LastAddress waiting [] waiting
  | given {addresses : List (List Char)} {word : List Char} {address : UInt16}
      (last : addresses.getLast? = some word) (gives : GivesAddress word address) :
      LastAddress waiting addresses (some address)

theorem LastAddress.unique {waiting address other : Option UInt16} {addresses : List (List Char)}
    (first : LastAddress waiting addresses address) (second : LastAddress waiting addresses other) :
    address = other := by
  cases first with
  | nothing =>
    cases second with
    | nothing => rfl
    | given last gives => cases last
  | given last gives =>
    cases second with
    | nothing => cases last
    | given same others =>
      obtain rfl := Option.some.inj (last.symm.trans same)
      rw [gives.unique others]

/-- Words without a malformed address fall into groups. What is left over are addresses. -/
theorem exists_groups {words : List (List Char)} (sound : ∀ word ∈ words, ¬ Malformed word) :
    ∃ (groups : List Group) (unused : List (List Char)),
      words = groups.flatMap Group.words ++ unused ∧ (∀ group ∈ groups, group.IsSound) ∧
        ∀ word ∈ unused, ∃ address, GivesAddress word address := by
  induction words with
  | nil => exact ⟨[], [], rfl, by simp, by simp⟩
  | cons word words induction =>
    obtain ⟨here, later⟩ := List.forall_mem_cons.mp sound
    obtain ⟨groups, unused, rfl, isSound, given⟩ := induction later
    rcases gives_or_plain here with gives | plain
    · cases groups with
      | nil => exact ⟨[], word :: unused, rfl, by simp, List.forall_mem_cons.mpr ⟨gives, given⟩⟩
      | cons group groups =>
        obtain ⟨first, others⟩ := List.forall_mem_cons.mp isSound
        refine ⟨⟨word :: group.addresses, group.word⟩ :: groups, unused, rfl, ?_, given⟩
        refine List.forall_mem_cons.mpr ⟨⟨?_, first.plain⟩, others⟩
        exact List.forall_mem_cons.mpr ⟨gives, first.given⟩
    · refine ⟨⟨[], word⟩ :: groups, unused, rfl, ?_, given⟩
      exact List.forall_mem_cons.mpr ⟨⟨by simp, plain⟩, isSound⟩

theorem entries_from_addresses (waiting : Option UInt16) {addresses : List (List Char)}
    (given : ∀ word ∈ addresses, ∃ address, GivesAddress word address) (rest : List (List Char)) :
    ∃ address, LastAddress waiting addresses address ∧
      entriesFrom waiting (addresses ++ rest) = entriesFrom address rest := by
  induction addresses using List.reverseRecOn generalizing rest with
  | nil => exact ⟨waiting, .nothing, rfl⟩
  | append_singleton earlier word induction =>
    obtain ⟨before, ⟨address, gives⟩⟩ : (∀ word ∈ earlier, ∃ address, GivesAddress word address) ∧
        ∃ address, GivesAddress word address := by
      simpa [or_imp, forall_and] using given
    obtain ⟨overridden, -, same⟩ := induction before (word :: rest)
    refine ⟨some address, .given List.getLast?_concat gives, ?_⟩
    rw [List.append_assoc, List.singleton_append, same, entries_from_gives _ _ gives]

structure Group.Names (group : Group) (entry : ManifestEntry) : Prop where
  word : entry.name = String.ofList group.word
  address : LastAddress none group.addresses entry.address

theorem entries_from_groups {groups : List Group} {unused : List (List Char)}
    (isSound : ∀ group ∈ groups, group.IsSound)
    (given : ∀ word ∈ unused, ∃ address, GivesAddress word address) :
    ∃ entries, entriesFrom none (groups.flatMap Group.words ++ unused) = .ok entries ∧
      List.Forall₂ Group.Names groups entries := by
  induction groups with
  | nil =>
    obtain ⟨address, -, same⟩ := entries_from_addresses none given []
    rw [List.append_nil] at same
    exact ⟨[], same, .nil⟩
  | cons group groups induction =>
    obtain ⟨here, later⟩ := List.forall_mem_cons.mp isSound
    obtain ⟨entries, read, named⟩ := induction later
    obtain ⟨address, last, same⟩ := entries_from_addresses none here.given
      (group.word :: (groups.flatMap Group.words ++ unused))
    refine ⟨⟨String.ofList group.word, address⟩ :: entries, ?_, .cons ⟨rfl, last⟩ named⟩
    rw [List.flatMap_cons, Group.words, List.append_assoc, List.append_assoc,
      List.singleton_append, same, entries_from_plain _ _ here.plain, read]
    rfl

end Manifest

end Z80Toolchain
