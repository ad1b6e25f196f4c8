import Z80Toolchain.Proofs.Source.DefineTables
import Z80Toolchain.Proofs.Source.LexicalGrammar
import Z80Toolchain.Proofs.Source.LineTokens

/-!
Names replaced in a text are names replaced among its tokens. The scanner that looks for defined
names cuts a line where the tokenizer cuts it, provided that numbers, character literals and
variables are not followed by characters of names. What replaces a name has lexemes of its own, and
as a delimiter stands behind every name, they are not joined with anything.
-/
namespace Z80Toolchain

/-! ### Fragments of written lexemes -/

namespace Fragment

theorem first_word {c : Char} (start : isNameStart c = true) (rest : List Char) :
    first c rest = word (c :: rest.takeWhile isNameChar) := by
  have plain : c ≠ ';' ∧ c ≠ '"' ∧ c ≠ '\'' := by
    refine ⟨?_, ?_, ?_⟩ <;> rintro rfl <;> exact absurd start (by decide)
  simp [first, plain, start]

theorem first_copied {c : Char} (copies : c = '@' ∨ c.isDigit = true) (rest : List Char) :
    first c rest = copied (c :: rest.takeWhile isNameChar) := by
  have noStart : isNameStart c = false := by
    rcases copies with rfl | digit
    · decide
    · cases start : isNameStart c with
      | false => rfl
      | true => rw [is_digit_eq_false_of_is_name_start start] at digit; cases digit
  have plain : c ≠ ';' ∧ c ≠ '"' ∧ c ≠ '\'' ∧ c ≠ '_' := by
    refine ⟨?_, ?_, ?_, ?_⟩ <;> rintro rfl <;> exact absurd copies (by decide)
  simp [first, plain, noStart, copies]

/-- A character outside names starts no word. -/
theorem exists_copied {c : Char} (outside : isNameChar c = false) (rest : List Char) :
    ∃ taken, first c rest = copied (c :: taken) := by
  have noStart : isNameStart c = false := by
    cases start : isNameStart c with
    | false => rfl
    | true => simp [is_name_char_of_is_name_start start] at outside
  have noLine : c ≠ '_' := by
    rintro rfl
    exact absurd outside (by decide)
  unfold first
  simp only [noStart, noLine, Bool.false_eq_true, or_self, if_false]
  split
  · exact ⟨_, rfl⟩
  · split
    · exact ⟨_, rfl⟩
    · split <;> exact ⟨_, rfl⟩

theorem literal_rest_string {text value : List Char} (quoted : Lexeme.QuotesAll text value)
    (rest : List Char) : literalRest '"' (text ++ rest) = text := by
  induction quoted with
  | close => rfl
  | @cons source text value c quoted goesOn _ induction =>
    cases quoted with
    | plain noEscape _ =>
      have noQuote : c ≠ '"' := by simpa using goesOn
      rw [List.append_assoc, List.singleton_append, literalRest, if_neg noQuote, induction]
      · rfl
      all_goals simp_all
    | escape _ =>
      simp only [List.cons_append, List.nil_append]
      rw [literalRest, induction]

theorem literal_rest_character {source : List Char} {c : Char} (quoted : Lexeme.Quotes source c)
    {rest : List Char} (apart : Stops isNameChar rest) :
    literalRest '\'' ((source ++ ['\'']) ++ rest) = source ++ ['\''] := by
  have noMark : rest.takeWhile (· == '\'') = [] := by
    cases rest with
    | nil => rfl
    | cons d rest =>
      have other : d ≠ '\'' := by
        rintro rfl
        exact absurd (apart '\'' rfl) (by decide)
      simp [other]
  cases quoted with
  | plain noEscape _ =>
    -- A quoted apostrophe closes the literal for this scanner; the mark behind it stays with it.
    by_cases closes : c = '\''
    · simp [closes, literalRest, marksBehind, noMark]
    · simp only [List.cons_append, List.nil_append]
      rw [literalRest, if_neg closes]
      · simp [literalRest, marksBehind, noMark]
      all_goals simp_all
  | escape _ => simp [literalRest, marksBehind, noMark]

end Fragment

/-! ### Expanded text -/

namespace Defines

def expand (defines : Defines) (line : List Char) : List Char :=
  (defines.substitute line).map Prod.fst

theorem expand_eq (defines : Defines) (line : List Char) :
    defines.expand line = (fragments line).flatMap defines.expandFragment :=
  map_fst_substitute_from defines 0 (fragments line)

theorem expand_nil (defines : Defines) : defines.expand [] = [] := by
  rw [expand_eq, fragments, List.flatMap_nil]

theorem expand_append (defines : Defines) {c : Char} {taken rest : List Char} {fragment : Fragment}
    (found : Fragment.first c (taken ++ rest) = fragment) (text : fragment.text = c :: taken) :
    defines.expand (c :: (taken ++ rest)) =
      defines.expandFragment fragment ++ defines.expand rest := by
  rw [expand_eq, expand_eq, fragments, found, text, List.flatMap_cons]
  simp

theorem expand_copied (defines : Defines) {c : Char} {taken rest : List Char}
    (found : Fragment.first c (taken ++ rest) = .copied (c :: taken)) :
    defines.expand (c :: (taken ++ rest)) = c :: taken ++ defines.expand rest :=
  expand_append defines found rfl

theorem expand_word (defines : Defines) {c : Char} {taken rest : List Char}
    (start : isNameStart c = true) (inside : ∀ d ∈ taken, isNameChar d = true)
    (stops : Stops isNameChar rest) :
    defines.expand (c :: (taken ++ rest)) =
      (defines.find? (c :: taken)).getD (c :: taken) ++ defines.expand rest := by
  have found : Fragment.first c (taken ++ rest) = .word (c :: taken) := by
    rw [Fragment.first_word start, take_while_of_stops inside stops]
  exact expand_append defines found rfl

/-- Text that starts with no word keeps its first character. -/
theorem head?_expand (defines : Defines) {text : List Char} (apart : Stops isNameChar text) :
    (defines.expand text).head? = text.head? := by
  cases text with
  | nil => rw [expand_nil]
  | cons c rest =>
    obtain ⟨taken, found⟩ := Fragment.exists_copied (apart c rfl) rest
    rw [expand_eq, fragments, found, List.flatMap_cons]
    rfl

def body? (defines : Defines) : Token.Kind → Option (List Char)
  | .text name => defines.find? name.toList
  | _ => none

def expandLexeme (defines : Defines) (lexeme : Lexeme) : List Char :=
  (lexeme.kind?.bind defines.body?).getD lexeme.text

end Defines

def Token.Kind.isValue : Token.Kind → Bool
  | .integer _ => true
  | .atName _ => true
  | _ => false

/-- Both scanners cut off the same text. -/
theorem Lexeme.Written.expand_append {lexeme : Lexeme} {grows : Char → Bool}
    (written : lexeme.Written grows) {rest : List Char} (stops : Stops grows rest)
    (spaced : lexeme.kind?.any Token.Kind.isValue = true → Stops isNameChar rest)
    {defines : Defines}
    (fresh : ∀ name, lexeme.kind? = some (.label name) → defines.find? name.toList = none) :
    defines.expand (lexeme.text ++ rest) = defines.expandLexeme lexeme ++ defines.expand rest := by
  cases written with
  | blank space =>
    apply defines.expand_copied
    rcases space with rfl | rfl <;> rfl
  | @comment text flat =>
    have nothing : rest = [] := by
      cases rest with
      | nil => rfl
      | cons c rest => cases stops c rfl
    apply defines.expand_copied
    rw [nothing, List.append_nil]
    rfl
  | mark mark =>
    cases mark <;> exact defines.expand_copied rfl
  | @word text word =>
    cases text with
    | nil => cases word
    | cons c text =>
      obtain ⟨start, inside, -⟩ := is_word_cons.mp word
      have apart : Stops isNameChar rest := (stops_word.mp stops).stops fun _ => id
      have same : (String.ofList (c :: text)).toList = c :: text := String.toList_ofList
      simp only [Defines.expandLexeme, kind?, ofToken, Option.bind_some, Defines.body?, same]
      exact defines.expand_word start inside apart
  | @label text word =>
    cases text with
    | nil => cases word
    | cons c text =>
      obtain ⟨start, inside, -⟩ := is_word_cons.mp word
      have colon : Stops isNameChar (':' :: rest) := by simp [Stops]; decide
      have kept : defines.find? (c :: text) = none := by simpa using fresh _ rfl
      have front := defines.expand_word start inside colon
      have behind : defines.expand (':' :: rest) = ':' :: defines.expand rest :=
        @Defines.expand_copied defines ':' [] rest rfl
      rw [kept, behind] at front
      simpa [Defines.expandLexeme, Defines.body?, kind?, ofToken] using front
  | @atName name some inside short =>
    have names : ∀ d ∈ name, isNameChar d = true := fun d member =>
      is_name_char_of_is_variable_char (inside d member)
    apply defines.expand_copied
    rw [Fragment.first_copied (.inl rfl), take_while_of_stops names (spaced rfl)]
  | @number c text value digit inside read =>
    have names : ∀ d ∈ text, isNameChar d = true := fun d member =>
      is_name_char_of_is_numeral_char (inside d member)
    apply defines.expand_copied
    rw [Fragment.first_copied (.inr digit), take_while_of_stops names (spaced rfl)]
  | @character source c quoted =>
    apply defines.expand_copied
    rw [Fragment.first, if_neg (by decide), if_pos (by decide),
      Fragment.literal_rest_character quoted (spaced rfl)]
  | @string text value quoted short =>
    apply defines.expand_copied
    rw [Fragment.first, if_neg (by decide), if_pos (by decide), Fragment.literal_rest_string quoted]

/-- Nothing new goes on with a lexeme when the text behind it is expanded. -/
theorem Lexeme.Written.stops_expand {lexeme : Lexeme} {grows : Char → Bool}
    (written : lexeme.Written grows) {rest : List Char} (stops : Stops grows rest)
    (spaced : lexeme.kind?.any Token.Kind.isValue = true → Stops isNameChar rest)
    (defines : Defines) : Stops grows (defines.expand rest) := by
  cases written with
  | comment =>
    cases rest with
    | nil => rwa [Defines.expand_nil]
    | cons c rest => cases stops c rfl
  | word =>
    have apart : Stops isNameChar rest := (stops_word.mp stops).stops fun _ => id
    rwa [Stops, defines.head?_expand apart]
  | atName => rwa [Stops, defines.head?_expand (spaced rfl)]
  | number => rwa [Stops, defines.head?_expand (spaced rfl)]
  | _ => exact fun _ _ => rfl

/-! ### Expanded lines -/

namespace Lexeme

/-- Behind every number, character literal and variable stands the end of the text or a character
that is in no name. -/
def Spaced : List Lexeme → Prop
  | [] => True
  | lexeme :: rest =>
    (lexeme.kind?.any Token.Kind.isValue = true → Stops isNameChar (rest.flatMap text)) ∧
      Spaced rest

instance decidableSpaced : (found : List Lexeme) → Decidable (Spaced found)
  | [] => isTrue trivial
  | _ :: rest =>
    have := decidableSpaced rest
    inferInstanceAs (Decidable (_ ∧ _))

end Lexeme

namespace Defines

def replaceLexeme (defines : Defines) (lexeme : Lexeme) : List Lexeme :=
  match lexeme.kind?.bind defines.body? with
  | some body => lexemes body
  | none => [lexeme]

/-- A body that can stand in a line: it has neither faults nor line ends nor comments. -/
structure Usable (body : List Char) : Prop where
  lexed : Lexed body (lexemes body)
  flat : IsFlat body
  noComment : ';' ∉ body

end Defines

/-- Behind a name that is replaced stands a delimiter. -/
theorem Lexeme.Written.delimited {lexeme : Lexeme} {grows : Char → Bool}
    (written : lexeme.Written grows) {defines : Defines} {body : List Char}
    (replaced : lexeme.kind?.bind defines.body? = some body) {rest : List Char}
    (stops : Stops grows rest) : Delimited rest := by
  cases written with
  | word => exact stops_word.mp stops
  | mark mark => cases mark <;> cases replaced
  | _ => cases replaced

/-- The lexemes of the expanded line are those of the line, with those of its body for each defined
name. -/
theorem Lexed.expand {defines : Defines} {line : List Char} {found : List Lexeme}
    (lexed : Lexed line found) (spaced : Lexeme.Spaced found)
    (fresh : ∀ lexeme ∈ found, ∀ name, lexeme.kind? = some (.label name) →
      defines.find? name.toList = none)
    (bodies : ∀ lexeme ∈ found, ∀ body, lexeme.kind?.bind defines.body? = some body →
      Defines.Usable body) :
    Lexed (defines.expand line) (found.flatMap defines.replaceLexeme) := by
  induction lexed with
  | nil =>
    rw [defines.expand_nil]
    exact .nil
  | @cons lexeme grows rest found written stops others induction =>
    have later := induction spaced.2 (fun lexeme member => fresh lexeme (.tail _ member))
      (fun lexeme member => bodies lexeme (.tail _ member))
    have apart := spaced.1
    rw [others.flat_map_text] at apart
    have behind := written.stops_expand stops apart defines
    rw [written.expand_append stops apart (fresh lexeme List.mem_cons_self), List.flatMap_cons,
      Defines.expandLexeme, Defines.replaceLexeme]
    cases replaced : lexeme.kind?.bind defines.body? with
    | none => exact .cons written behind later
    | some body =>
      have usable := bodies lexeme List.mem_cons_self body replaced
      exact usable.lexed.append usable.noComment later (written.delimited replaced behind)

/-! ### Tokens of one line -/

theorem lexed_of_clean {line : List Char} (flat : IsFlat line) (clean : lexicalFaults line = []) :
    Lexed line (lexemes line) := by
  rw [lexicalFaults, flat.normalize] at clean
  exact lexed_lexemes flat.no_feed (Lexeme.not_is_fault_of_faults_from clean)

namespace Lexed

variable {line : List Char} {found : List Lexeme}

theorem lexical_faults_eq (lexed : Lexed line found) (flat : IsFlat line) :
    lexicalFaults line = [] := by
  have none := Lexeme.faults_from_carry lexed.carry .start []
  rw [List.append_nil] at none
  rw [lexicalFaults, flat.normalize, lexed.lexemes_eq, none]
  rfl

theorem kinds_tokenize (lexed : Lexed line found) (flat : IsFlat line) :
    (tokenize line).map Token.kind = found.filterMap Lexeme.kind? ++ [.newLine] := by
  have text : '\n' ∉ found.flatMap Lexeme.text := by
    rw [lexed.flat_map_text]
    exact flat.no_feed
  obtain ⟨tokens, kinds, -, cut⟩ := Lexeme.tokens_from_carry lexed.carry text .start false []
  rw [List.append_nil] at cut
  rw [tokenize, flat.normalize, lexed.lexemes_eq, cut, List.map_append, kinds]
  rfl

end Lexed

/-! ### Names replaced among tokens -/

namespace Defines

/-- The tokens that stand for a token when names are replaced among tokens. -/
def replace (defines : Defines) (kind : Token.Kind) : List Token.Kind :=
  match defines.body? kind with
  | some body => ((tokenize body).map Token.kind).dropLast
  | none => [kind]

theorem Plain.is_flat_expand {defines : Defines} (plain : defines.Plain) {line : List Char}
    (flat : IsFlat line) : IsFlat (defines.expand line) := by
  intro c member
  rw [expand_eq] at member
  obtain ⟨fragment, found, inside⟩ := List.mem_flatMap.mp member
  have copied : c ∈ fragment.text → c ≠ '\n' ∧ c ≠ '\r' := by
    intro inside
    apply flat c
    rw [← flat_map_text_fragments line]
    exact List.mem_flatMap_of_mem found inside
  cases fragment with
  | copied text => exact copied inside
  | word text =>
    rw [expandFragment] at inside
    cases defined : defines.find? text with
    | none =>
      rw [defined] at inside
      exact copied inside
    | some body =>
      rw [defined] at inside
      exact (plain.of_find? defined).1 c inside

theorem body?_eq_some {defines : Defines} {kind : Token.Kind} {body : List Char}
    (replaced : defines.body? kind = some body) :
    ∃ name, kind = .text name ∧ defines.find? name.toList = some body := by
  cases kind with
  | text name => exact ⟨name, rfl, replaced⟩
  | _ => cases replaced

/-- The tokens of exchanged lexemes are exchanged tokens. -/
theorem filter_map_replace_lexeme {defines : Defines} {found : List Lexeme}
    (bodies : ∀ lexeme ∈ found, ∀ body, lexeme.kind?.bind defines.body? = some body →
      Usable body) :
    (found.flatMap defines.replaceLexeme).filterMap Lexeme.kind? =
      (found.filterMap Lexeme.kind?).flatMap defines.replace := by
  induction found with
  | nil => rfl
  | cons lexeme found induction =>
    rw [List.forall_mem_cons] at bodies
    rw [List.flatMap_cons, List.filterMap_append, induction bodies.2, replaceLexeme]
    cases carried : lexeme.kind? with
    | none => simp [carried]
    | some kind =>
      rw [List.filterMap_cons_some carried, List.flatMap_cons, Option.bind_some, replace]
      congr 1
      cases replaced : defines.body? kind with
      | none => simp [carried]
      | some body =>
        have usable := bodies.1 body (by rw [carried, Option.bind_some, replaced])
        simp [usable.lexed.kinds_tokenize usable.flat]

end Defines

/-- A line with defined names replaced in its text has the tokens of the line with those names
replaced by the tokens of their bodies. -/
theorem tokenize_substitute {defines : Defines} {line : List Char} (built : defines.IsBuilt)
    (flat : IsFlat line) (clean : lexicalFaults line = [])
    (bodies : ∀ name body, .text name ∈ (tokenize line).map Token.kind →
      defines.find? name.toList = some body → lexicalFaults body = [])
    (spaced : Lexeme.Spaced (lexemes line))
    (labels : ∀ name, .label name ∈ (tokenize line).map Token.kind →
      defines.find? name.toList = none) :
    lexicalFaults ((defines.substitute line).map Prod.fst) = [] ∧
      (tokenize ((defines.substitute line).map Prod.fst)).map Token.kind =
        ((tokenize line).map Token.kind).flatMap defines.replace := by
  have plain := built.plain
  have lexed := lexed_of_clean flat clean
  have kinds := lexed.kinds_tokenize flat
  have among : ∀ lexeme ∈ lexemes line, ∀ kind, lexeme.kind? = some kind →
      kind ∈ (tokenize line).map Token.kind := by
    intro lexeme member kind carried
    rw [kinds]
    exact List.mem_append_left _ (List.mem_filterMap.mpr ⟨lexeme, member, carried⟩)
  have usable : ∀ lexeme ∈ lexemes line, ∀ body,
      lexeme.kind?.bind defines.body? = some body → Defines.Usable body := by
    intro lexeme member body replaced
    obtain ⟨kind, carried, found⟩ := Option.bind_eq_some_iff.mp replaced
    obtain ⟨name, rfl, found⟩ := Defines.body?_eq_some found
    obtain ⟨flatBody, noComment⟩ := plain.of_find? found
    have sound := bodies name body (among lexeme member _ carried) found
    exact ⟨lexed_of_clean flatBody sound, flatBody, noComment⟩
  have fresh : ∀ lexeme ∈ lexemes line, ∀ name, lexeme.kind? = some (.label name) →
      defines.find? name.toList = none :=
    fun lexeme member name carried => labels name (among lexeme member _ carried)
  have expanded := lexed.expand spaced fresh usable
  have flatExpanded := plain.is_flat_expand flat
  constructor
  · exact expanded.lexical_faults_eq flatExpanded
  · have tokens := expanded.kinds_tokenize flatExpanded
    rw [Defines.filter_map_replace_lexeme usable] at tokens
    rw [kinds, List.flatMap_append]
    exact tokens

theorem tokenize_substitute_operand :
    let defines : Defines := ⟨[("r".toList, "(ix+5)".toList)]⟩
    let line := "go: ld r, 'r' ; r".toList
    defines.IsBuilt ∧ IsFlat line ∧ lexicalFaults line = [] ∧ Lexeme.Spaced (lexemes line) ∧
      (tokenize ((defines.substitute line).map Prod.fst)).map Token.kind =
        [.label "go", .text "ld", .leftParen, .text "ix", .plus, .integer 5, .rightParen, .comma,
          .integer 114, .newLine] := by
  intro defines line
  have built : defines.IsBuilt := ⟨"%define r (ix+5) ; frame".toList, by decide +kernel⟩
  have flat : IsFlat line := by decide +kernel
  have clean : lexicalFaults line = [] := by decide +kernel
  have spaced : Lexeme.Spaced (lexemes line) := by decide +kernel
  have kinds : (tokenize line).map Token.kind =
      [.label "go", .text "ld", .text "r", .comma, .integer 114, .newLine] := by decide +kernel
  have bodies : ∀ name body, .text name ∈ (tokenize line).map Token.kind →
      defines.find? name.toList = some body → lexicalFaults body = [] := by
    intro name body member found
    rw [kinds] at member
    obtain rfl | rfl : name = "ld" ∨ name = "r" := by simpa using member
    · exact absurd found (by simp [defines, Defines.find?])
    · obtain rfl : "(ix+5)".toList = body := by simpa [defines, Defines.find?] using found
      decide +kernel
  have labels : ∀ name, .label name ∈ (tokenize line).map Token.kind →
      defines.find? name.toList = none := by
    intro name member
    rw [kinds] at member
    obtain rfl : name = "go" := by simpa using member
    decide +kernel
  have same := (tokenize_substitute built flat clean bodies spaced labels).2
  exact ⟨built, flat, clean, spaced, same.trans (by decide +kernel)⟩

end Z80Toolchain
