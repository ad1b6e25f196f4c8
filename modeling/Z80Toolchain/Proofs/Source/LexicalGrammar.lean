import Z80Toolchain.Proofs.Source.LexemeShape
import Z80Toolchain.Proofs.Source.Spelling

/-!
The lexemes of a line as a grammar. A lexeme that is no fault has one of a few forms, and each form
comes with the characters that would go on with it. A line without faults is a row of such lexemes,
none of which could be longer. So a lexeme stays what it is when the text behind it is exchanged, as
long as the new text does not go on with it.
-/
namespace Z80Toolchain

/-! ### Forms of lexemes -/

namespace Lexeme

/-- The ways to write one character of a quoted literal. -/
inductive Quotes : List Char → Char → Prop
  | plain {c : Char} (noEscape : c ≠ '\\') (flat : c ≠ '\n') : Quotes [c] c
  | escape {letter c : Char} (known : Text.unescape? letter = some c) : Quotes ['\\', letter] c

inductive QuotesAll : List Char → List Char → Prop
  | close : QuotesAll ['"'] []
  | cons {source text value : List Char} {c : Char} (quoted : Quotes source c)
      (goesOn : source ≠ ['"']) (others : QuotesAll text value) :
      QuotesAll (source ++ text) (c :: value)

inductive Mark : Char → Token.Kind → Prop
  | comma : Mark ',' .comma
  | leftParen : Mark '(' .leftParen
  | rightParen : Mark ')' .rightParen
  | plus : Mark '+' .plus
  | minus : Mark '-' .minus

/-- The lexemes of a line that are no faults, each with the characters that would go on with it. -/
inductive Written : Lexeme → (Char → Bool) → Prop
  | blank {c : Char} (space : c = ' ' ∨ c = '\t') : Written ⟨[c], .gap⟩ fun _ => false
  | comment {text : List Char} (flat : '\n' ∉ text) : Written ⟨';' :: text, .gap⟩ fun _ => true
  | mark {c : Char} {kind : Token.Kind} (mark : Mark c kind) :
      Written (ofToken [c] kind) fun _ => false
  | word {text : List Char} (word : isWord text = true) :
      Written (ofToken text (.text (String.ofList text))) fun c => isNameChar c || c == ':'
  | label {text : List Char} (word : isWord text = true) :
      Written (ofToken (text ++ [':']) (.label (String.ofList text))) fun _ => false
  | atName {name : List Char} (some : name ≠ []) (inside : ∀ c ∈ name, isVariableChar c = true)
      (short : name.length ≤ scanCapacity) :
      Written (ofToken ('@' :: name) (.atName (String.ofList name))) isVariableChar
  | number {c : Char} {text : List Char} {value : Int} (digit : c.isDigit = true)
      (inside : ∀ c ∈ text, isNumeralChar c = true)
      (read : number (c :: text) = ofToken (c :: text) (.integer value)) :
      Written (ofToken (c :: text) (.integer value)) isNumeralChar
  | character {source : List Char} {c : Char} (quoted : Quotes source c) :
      Written (ofToken ('\'' :: (source ++ ['\''])) (.integer c.toNat)) fun _ => false
  | string {text value : List Char} (quoted : QuotesAll text value)
      (short : (String.ofList value).utf8ByteSize ≤ scanCapacity) :
      Written (ofToken ('"' :: text) (.string (String.ofList value))) fun _ => false

/-! ### Written lexemes are found -/

theorem stops_word {rest : List Char} :
    Stops (fun c => isNameChar c || c == ':') rest ↔ Delimited rest := by
  simp [Stops, Delimited]

theorem quoted_char_append {source : List Char} {c : Char} (quoted : Quotes source c)
    (rest : List Char) : quotedChar (source ++ rest) = (some c, source) := by
  cases quoted with
  | plain noEscape flat =>
    simp only [List.cons_append, List.nil_append]
    rw [quotedChar]
    all_goals simp_all
  | @escape letter _ known =>
    have flat : letter ≠ '\n' := by
      rintro rfl
      cases known
    simp only [List.cons_append, List.nil_append]
    rw [quotedChar, known]
    simpa using flat

theorem string_body_append {text value : List Char} (quoted : QuotesAll text value)
    (rest : List Char) : stringBody (text ++ rest) = (some value, text) := by
  induction quoted with
  | close => rfl
  | @cons source text value c quoted goesOn others induction =>
    cases quoted with
    | plain noEscape flat =>
      have noQuote : c ≠ '"' := by simpa using goesOn
      rw [List.append_assoc, List.singleton_append, stringBody, induction]
      · rfl
      all_goals simp_all
    | @escape letter _ known =>
      have flat : letter ≠ '\n' := by
        rintro rfl
        cases known
      simp only [List.cons_append, List.nil_append]
      rw [stringBody, known]
      · simp only [induction]
        rfl
      · simpa using flat

theorem take_while_line {text : List Char} (flat : '\n' ∉ text) :
    text.takeWhile (· != '\n') = text := by
  have inside : ∀ c ∈ text, (c != '\n') = true := by
    intro c member
    simpa using fun feed : c = '\n' => flat (feed ▸ member)
  have taken := take_while_of_stops inside (show Stops _ [] by simp [Stops])
  rwa [List.append_nil] at taken

/-- A lexeme of one of the forms is cut off in front of whatever does not go on with it. -/
theorem Written.lexemes_append {lexeme : Lexeme} {grows : Char → Bool}
    (written : lexeme.Written grows) {rest : List Char} (stops : Stops grows rest) :
    lexemes (lexeme.text ++ rest) = lexeme :: lexemes rest := by
  cases written with
  | blank space =>
    apply Z80Toolchain.lexemes_append _ rfl
    rcases space with rfl | rfl <;> rfl
  | @comment text flat =>
    apply Z80Toolchain.lexemes_append _ rfl
    have nothing : rest = [] := by
      cases rest with
      | nil => rfl
      | cons c rest => cases stops c rfl
    rw [nothing, List.append_nil]
    simp only [first, take_while_line flat]
  | mark mark =>
    apply Z80Toolchain.lexemes_append _ rfl
    cases mark <;> rfl
  | @word text word =>
    cases text with
    | nil => cases word
    | cons c text =>
      apply Z80Toolchain.lexemes_append _ rfl
      exact first_word word (stops_word.mp stops)
  | @label text word =>
    cases text with
    | nil => cases word
    | cons c text =>
      obtain ⟨start, inside, short⟩ := is_word_cons.mp word
      have colon : Stops isNameChar (':' :: rest) := by simp [Stops]; decide
      have found : first c ((text ++ [':']) ++ rest) =
          ofToken (c :: (text ++ [':'])) (.label (String.ofList (c :: text))) := by
        rw [first_of_is_name_start start, List.append_assoc, List.singleton_append,
          take_while_of_stops inside colon, drop_while_of_stops inside colon, name,
          if_neg (by omega)]
        rfl
      exact Z80Toolchain.lexemes_append found rfl
  | atName some inside short =>
    apply Z80Toolchain.lexemes_append _ rfl
    simp only [first, take_while_of_stops inside stops]
    rw [Lexeme.atName, if_neg some, if_neg (by omega)]
  | number digit inside read =>
    apply Z80Toolchain.lexemes_append _ rfl
    rw [first_of_is_digit digit, take_while_of_stops inside stops, read]
  | @character source c quoted =>
    apply Z80Toolchain.lexemes_append _ rfl
    have read := quoted_char_append quoted ('\'' :: rest)
    simp [first, Lexeme.character, read]
  | string quoted short =>
    apply Z80Toolchain.lexemes_append _ rfl
    have read := string_body_append quoted rest
    simp only [first, Lexeme.string, read]
    rw [if_neg (by omega)]

/-! ### Found lexemes are written -/

def IsFault (lexeme : Lexeme) : Prop :=
  ∃ cause, lexeme.content = .fault cause

theorem not_is_fault_of_faults_from {found : List Lexeme} {position : Position}
    (clean : faultsFrom position found = []) : ∀ lexeme ∈ found, ¬ lexeme.IsFault := by
  induction found generalizing position with
  | nil => simp
  | cons lexeme found induction =>
    unfold faultsFrom at clean
    dsimp only at clean
    split at clean
    · cases clean
    · next sound =>
      rw [List.forall_mem_cons]
      constructor
      · rintro ⟨cause, fault⟩
        exact sound cause fault
      · exact induction clean

/-- The lexeme has one of the forms, and the text starts with it and does not go on with it. -/
def Leads (lexeme : Lexeme) (text : List Char) : Prop :=
  ∃ grows rest, lexeme.Written grows ∧ text = lexeme.text ++ rest ∧ Stops grows rest

theorem Written.leads {lexeme : Lexeme} (written : lexeme.Written fun _ => false)
    {text : List Char} (starts : lexeme.text <+: text) : lexeme.Leads text := by
  obtain ⟨rest, rfl⟩ := starts
  exact ⟨_, rest, written, rfl, fun _ _ => rfl⟩

theorem leads_name {c : Char} {rest : List Char} (start : isNameStart c = true)
    (sound : ¬ (name (c :: rest.takeWhile isNameChar) (rest.dropWhile isNameChar)).IsFault) :
    (name (c :: rest.takeWhile isNameChar) (rest.dropWhile isNameChar)).Leads (c :: rest) := by
  have whole := List.takeWhile_append_dropWhile (p := isNameChar) (l := rest)
  have stops := stops_drop_while isNameChar rest
  have inside : ∀ d ∈ rest.takeWhile isNameChar, isNameChar d = true := fun d => mem_take_while
  generalize rest.takeWhile isNameChar = text, rest.dropWhile isNameChar = more at *
  unfold name at sound ⊢
  split_ifs at sound ⊢ with long colon
  · exact absurd ⟨_, rfl⟩ sound
  · apply Written.leads (.label (is_word_cons.mpr ⟨start, inside, by omega⟩))
    cases more with
    | nil => cases colon
    | cons d more =>
      obtain rfl : d = ':' := by simpa using colon
      exact ⟨more, by simp [← whole, ofToken]⟩
  · refine ⟨_, more, .word (is_word_cons.mpr ⟨start, inside, by omega⟩), by simp [← whole, ofToken], ?_⟩
    intro d next
    have other : d ≠ ':' := by
      rintro rfl
      exact colon next
    simp [stops d next, other]

theorem leads_at_name {rest : List Char}
    (sound : ¬ (atName (rest.takeWhile isVariableChar)).IsFault) :
    (atName (rest.takeWhile isVariableChar)).Leads ('@' :: rest) := by
  have whole := List.takeWhile_append_dropWhile (p := isVariableChar) (l := rest)
  have stops := stops_drop_while isVariableChar rest
  have inside : ∀ d ∈ rest.takeWhile isVariableChar, isVariableChar d = true :=
    fun d => mem_take_while
  generalize rest.takeWhile isVariableChar = text, rest.dropWhile isVariableChar = more at *
  unfold atName at sound ⊢
  split_ifs at sound ⊢ with empty long
  · exact absurd ⟨_, rfl⟩ sound
  · exact absurd ⟨_, rfl⟩ sound
  · exact ⟨_, more, .atName empty inside (by omega), by simp [← whole, ofToken], stops⟩

theorem number_eq_of_not_is_fault {text : List Char} (sound : ¬ (number text).IsFault) :
    ∃ value, number text = ofToken text (.integer value) := by
  unfold number numberOf at sound ⊢
  split_ifs at sound ⊢
  · exact absurd ⟨_, rfl⟩ sound
  · exact absurd ⟨_, rfl⟩ sound
  · exact ⟨_, rfl⟩
  · exact absurd ⟨_, rfl⟩ sound

theorem leads_number {c : Char} {rest : List Char} (digit : c.isDigit = true)
    (sound : ¬ (number (c :: rest.takeWhile isNumeralChar)).IsFault) :
    (number (c :: rest.takeWhile isNumeralChar)).Leads (c :: rest) := by
  have whole := List.takeWhile_append_dropWhile (p := isNumeralChar) (l := rest)
  obtain ⟨value, read⟩ := number_eq_of_not_is_fault sound
  have written := Written.number digit (fun d => mem_take_while) read
  rw [read]
  exact ⟨_, rest.dropWhile isNumeralChar, written, by simp [ofToken],
    stops_drop_while isNumeralChar rest⟩

/-- A character that starts no escape, be it cut short or whole, is no backslash. -/
theorem ne_backslash {c : Char} {rest : List Char} (noEnd : c = '\\' → rest = [] → False)
    (noLetter : ∀ letter behind, c = '\\' → rest = letter :: behind → False) : c ≠ '\\' := by
  rintro rfl
  cases rest with
  | nil => exact noEnd rfl rfl
  | cons letter rest => exact noLetter letter rest rfl rfl

theorem quotes_quoted_char {rest source : List Char} {c : Char}
    (read : quotedChar rest = (some c, source)) : Quotes source c := by
  unfold quotedChar at read
  split at read
  case h_5 letter rest flat =>
    obtain ⟨known, rfl⟩ := Prod.mk.inj read
    exact .escape known
  case h_6 d rest flat noEnd _ noLetter =>
    cases read
    exact .plain (ne_backslash noEnd noLetter) flat
  all_goals cases read

theorem leads_character {rest : List Char} (sound : ¬ (character rest).IsFault) :
    (character rest).Leads ('\'' :: rest) := by
  have cut := (piece_quoted_char rest).1
  unfold character at sound ⊢
  cases read : quotedChar rest with
  | mk value source =>
    simp only [read] at sound cut ⊢
    split at sound
    · next c behind found =>
      apply Written.leads (.character (quotes_quoted_char read))
      obtain ⟨more, rfl⟩ := cut
      rw [List.drop_left] at found
      exact ⟨behind, by simp [ofToken, found]⟩
    · exact absurd ⟨_, rfl⟩ sound

theorem before_eq_some {c : Char} {source text value : List Char}
    {body : Option (List Char) × List Char} (read : before c source body = (some value, text)) :
    ∃ others more, body = (some others, more) ∧ value = c :: others ∧ text = source ++ more := by
  obtain ⟨others, more⟩ := body
  cases others with
  | none => cases read
  | some others =>
    cases read
    exact ⟨others, more, rfl, rfl, rfl⟩

theorem quotes_all_string_body {rest text value : List Char}
    (read : stringBody rest = (some value, text)) : QuotesAll text value := by
  fun_induction stringBody rest generalizing text value with
  | case2 rest =>
    cases read
    exact .close
  | case6 letter rest flat c known induction =>
    obtain ⟨others, more, behind, rfl, rfl⟩ := before_eq_some read
    exact .cons (.escape known) (by simp) (induction behind)
  | case8 c rest noQuote flat noEnd _ noLetter induction =>
    obtain ⟨others, more, behind, rfl, rfl⟩ := before_eq_some read
    exact .cons (.plain (ne_backslash noEnd noLetter) flat) (by simpa using noQuote)
      (induction behind)
  | case1 | case3 | case4 | case5 | case7 => cases read

theorem leads_string {rest : List Char} (sound : ¬ (string rest).IsFault) :
    (string rest).Leads ('"' :: rest) := by
  have cut := (piece_string_body rest).1
  unfold string at sound ⊢
  split at sound
  · exact absurd ⟨_, rfl⟩ sound
  · next value text read =>
    rw [read] at cut
    split_ifs at sound with long
    · exact absurd ⟨_, rfl⟩ sound
    · simp only [if_neg long]
      apply Written.leads (.string (quotes_all_string_body read) (by omega))
      exact List.cons_prefix_cons.mpr ⟨rfl, cut⟩

/-- What a line starts with has one of the forms, unless it is a fault. -/
theorem leads_first {c : Char} {rest : List Char} (flat : '\n' ∉ c :: rest)
    (sound : ¬ (first c rest).IsFault) : (first c rest).Leads (c :: rest) := by
  unfold first at sound ⊢
  split at sound
  case h_1 => exact Written.leads (.blank (.inl rfl)) (by simp)
  case h_2 => exact Written.leads (.blank (.inr rfl)) (by simp)
  case h_3 =>
    have flat : '\n' ∉ rest := fun feed => flat (by simp [feed])
    rw [take_while_line flat]
    exact ⟨_, [], .comment flat, by simp, by simp [Stops]⟩
  case h_4 => simp at flat
  case h_10 => exact leads_at_name sound
  case h_11 => exact leads_character sound
  case h_12 => exact leads_string sound
  case h_13 =>
    split_ifs at sound ⊢ with digit start
    · exact leads_number digit sound
    · exact leads_name start sound
    · exact absurd ⟨_, rfl⟩ sound
  all_goals exact Written.leads (.mark (by constructor)) (by simp [ofToken])

end Lexeme

/-! ### Lines without faults -/

/-- The text is a row of lexemes none of which is a fault or could be longer. -/
inductive Lexed : List Char → List Lexeme → Prop
  | nil : Lexed [] []
  | cons {lexeme : Lexeme} {grows : Char → Bool} {rest : List Char} {found : List Lexeme}
      (written : lexeme.Written grows) (stops : Stops grows rest) (others : Lexed rest found) :
      Lexed (lexeme.text ++ rest) (lexeme :: found)

theorem Lexed.lexemes_eq {text : List Char} {found : List Lexeme} (lexed : Lexed text found) :
    lexemes text = found := by
  induction lexed with
  | nil => rw [lexemes]
  | cons written stops _ induction => rw [written.lexemes_append stops, induction]

/-- A line without faults is such a row. -/
theorem lexed_lexemes {line : List Char} (flat : '\n' ∉ line)
    (sound : ∀ lexeme ∈ lexemes line, ¬ lexeme.IsFault) : Lexed line (lexemes line) := by
  fun_induction lexemes line with
  | case1 => exact .nil
  | case2 c rest induction =>
    obtain ⟨grows, more, written, whole, stops⟩ :=
      Lexeme.leads_first flat (sound _ List.mem_cons_self)
    obtain ⟨taken, text, -⟩ := Lexeme.cut_from_first c rest
    obtain rfl : rest = taken ++ more := by
      rw [text, List.cons_append] at whole
      exact List.tail_eq_of_cons_eq whole
    have left : (taken ++ more).drop ((Lexeme.first c (taken ++ more)).text.length - 1) = more := by
      simp [text]
    rw [left] at induction sound ⊢
    rw [whole]
    apply Lexed.cons written stops
    apply induction
    · exact fun feed => flat (by simp [feed])
    · exact fun lexeme member => sound lexeme (List.mem_cons_of_mem _ member)

theorem Lexed.flat_map_text {text : List Char} {found : List Lexeme} (lexed : Lexed text found) :
    found.flatMap Lexeme.text = text := by
  induction lexed with
  | nil => rfl
  | cons _ _ _ induction => rw [List.flatMap_cons, induction]

theorem is_name_char_of_is_variable_char {c : Char} (inside : isVariableChar c = true) :
    isNameChar c = true := by
  simp only [isVariableChar, isNameChar, Bool.or_eq_true] at inside ⊢
  exact .inl inside

/-- Only a comment can take in a delimiter. -/
theorem Lexeme.Written.stops_of_delimited {lexeme : Lexeme} {grows : Char → Bool}
    (written : lexeme.Written grows) (noComment : ';' ∉ lexeme.text) {rest : List Char}
    (delimited : Delimited rest) : Stops grows rest := by
  cases written with
  | comment => simp at noComment
  | word => exact stops_word.mpr delimited
  | atName => exact delimited.stops fun _ => is_name_char_of_is_variable_char
  | number => exact delimited.stops fun _ => is_name_char_of_is_numeral_char
  | _ => exact fun _ _ => rfl

/-- Behind a text without comments, delimited text keeps its lexemes apart. -/
theorem Lexed.append {text rest : List Char} {found others : List Lexeme}
    (lexed : Lexed text found) (noComment : ';' ∉ text) (behind : Lexed rest others)
    (delimited : Delimited rest) : Lexed (text ++ rest) (found ++ others) := by
  induction lexed with
  | nil => exact behind
  | @cons lexeme grows more found written stops _ induction =>
    simp only [List.mem_append, not_or] at noComment
    rw [List.append_assoc]
    refine .cons written ?_ (induction noComment.2)
    cases more with
    | nil => exact written.stops_of_delimited noComment.1 delimited
    | cons c more => exact stops

def Lexeme.kind? (lexeme : Lexeme) : Option Token.Kind :=
  match lexeme.content with
  | .token kind => some kind
  | _ => none

theorem Lexed.carry {text : List Char} {found : List Lexeme} (lexed : Lexed text found) :
    Lexeme.Carry found (found.filterMap Lexeme.kind?) := by
  induction lexed with
  | nil => exact .nil
  | cons written _ _ induction =>
    cases written with
    | blank | comment => exact .gap _ induction
    | _ => exact .token _ _ induction

end Z80Toolchain
