import Mathlib.Data.List.Chain
import Z80Toolchain.Proofs.Source.DefineTables
import Z80Toolchain.Proofs.Source.LexicalGrammar
import Z80Toolchain.Proofs.Source.SourceLines

/-!
The language of tokens. A sentence is a row of tokens each of which can be written, with a line end
behind the last line and never two line ends in a row. A sentence written with one space between each
two tokens is read as itself, and whatever is read without faults is a sentence. Nothing is said
about the places of the tokens.
-/
namespace Z80Toolchain

namespace Token

def Kind.isWritable : Kind → Bool
  | comma | leftParen | rightParen | plus | minus => true
  | integer value => 0 ≤ value && value ≤ integerLimit
  | string value => value.utf8ByteSize ≤ scanCapacity
  | text name | label name => isWord name.toList
  | atName name =>
    name.toList ≠ [] && name.toList.all isVariableChar && name.toList.length ≤ scanCapacity
  | newLine | endOfInput | bad _ => false

/-- The last line has its line end, and no two line ends stand next to each other. -/
structure Lined (kinds : List Kind) : Prop where
  closed : kinds.getLast? = some .newLine
  apart : kinds.IsChain fun left right => left = .newLine → right ≠ .newLine

/-- The tokens that a text without faults can have. -/
structure Sentence (kinds : List Kind) : Prop extends Lined kinds where
  written : ∀ kind ∈ kinds, kind = .newLine ∨ kind.isWritable = true

/-- The text is read as tokens of these kinds and has no faults. -/
structure Reads (source : List Char) (kinds : List Kind) : Prop where
  clean : lexicalFaults source = []
  kinds : (tokenize source).map Token.kind = kinds

/-! ### Line ends -/

/-- The tokens behind a token that is a line end or not, up to the line end of the last line. -/
def LinedFrom : Bool → List Kind → Prop
  | closed, [] => closed = true
  | closed, kind :: rest =>
    if kind = .newLine then closed = false ∧ LinedFrom true rest else LinedFrom false rest

theorem lined_from_iff {closed : Bool} {kinds : List Kind} :
    LinedFrom closed kinds ↔ Lined ((if closed then [.newLine] else []) ++ kinds) := by
  induction kinds generalizing closed with
  | nil =>
    cases closed with
    | true => exact ⟨fun _ => ⟨rfl, .singleton _⟩, fun _ => rfl⟩
    | false =>
      constructor
      · intro missing
        cases missing
      · intro lined
        cases lined.closed
  | cons kind rest induction =>
    rw [LinedFrom]
    split
    · next feed =>
      subst feed
      rw [induction]
      cases closed with
      | true =>
        constructor
        · rintro ⟨opened, -⟩
          cases opened
        · intro lined
          exact absurd rfl ((List.isChain_cons_cons.mp lined.apart).1 rfl)
      | false => exact ⟨fun found => found.2, fun lined => ⟨rfl, lined⟩⟩
    · next other =>
      rw [induction]
      have last : ∀ front : List Kind, (front ++ kind :: rest).getLast? = some .newLine ↔
          rest.getLast? = some .newLine := by
        intro front
        cases rest with
        | nil => simp [other]
        | cons next rest => simp
      have chain : ((if closed then [Kind.newLine] else []) ++ kind :: rest).IsChain
          (fun left right => left = .newLine → right ≠ .newLine) ↔
          rest.IsChain fun left right => left = .newLine → right ≠ .newLine := by
        cases closed <;> simp [List.isChain_cons, other]
      constructor
      · intro lined
        exact ⟨(last _).mpr lined.closed, chain.mpr lined.apart⟩
      · intro lined
        exact ⟨(last _).mp lined.closed, chain.mp lined.apart⟩

end Token

namespace Lexeme

/-- Whatever the lexemes are, the tokenizer closes the last line and skips empty lines. -/
theorem lined_from_tokens_from {pieces : List Lexeme} (sound : ∀ lexeme ∈ pieces, lexeme.Sound)
    (position : Position) (closed : Bool) :
    Token.LinedFrom closed ((tokensFrom position closed pieces).map Token.kind) := by
  induction pieces generalizing position closed with
  | nil => cases closed <;> simp [tokensFrom, Token.LinedFrom]
  | cons lexeme rest induction =>
    obtain ⟨here, later⟩ := List.forall_mem_cons.mp sound
    have behind := induction later (position.advance lexeme.text)
    unfold tokensFrom
    dsimp only
    split
    · exact behind closed
    · cases closed with
      | true => exact behind true
      | false => simpa [Token.LinedFrom] using behind true
    · next kind content =>
      have plain : kind ≠ .newLine := (here.is_written content).1
      simpa [Token.LinedFrom, plain] using behind false
    · simpa [Token.LinedFrom] using behind false

end Lexeme

theorem lined_tokenize (source : List Char) : Token.Lined ((tokenize source).map Token.kind) :=
  Token.lined_from_iff.mp
    (Lexeme.lined_from_tokens_from (Lexeme.sound_lexemes (Text.normalize source)) .start false)

/-! ### Written tokens are read -/

namespace Lexeme

theorem Written.spells {text : List Char} {kind : Token.Kind} {grows : Char → Bool}
    (written : (ofToken text kind).Written grows)
    (stops : ∀ rest, Delimited rest → Stops grows rest) : Spells text [kind] := by
  intro rest delimited
  have cut := written.lexemes_append (stops rest delimited)
  exact ⟨[ofToken text kind], cut, by simp [ofToken], .token text kind .nil⟩

/-- An escaped character is read as itself, and it does not close its literal. -/
theorem quotes_escape (c : Char) : Quotes (Text.escape c) c ∧ Text.escape c ≠ ['"'] := by
  unfold Text.escape
  cases escaped : Text.escapeLetter? c with
  | some letter => exact ⟨.escape (Text.unescape?_of_escape_letter? escaped), by simp⟩
  | none =>
    have plain : ∀ special, (Text.escapeLetter? special).isSome = true → c ≠ special := by
      rintro special known rfl
      simp [escaped] at known
    exact ⟨.plain (plain _ rfl) (plain _ rfl), by simpa using plain '"' rfl⟩

theorem quotes_all_escape (value : List Char) :
    QuotesAll (value.flatMap Text.escape ++ ['"']) value := by
  induction value with
  | nil => exact .close
  | cons c value induction =>
    obtain ⟨quoted, goesOn⟩ := quotes_escape c
    rw [List.flatMap_cons, List.append_assoc]
    exact .cons quoted goesOn induction

theorem is_flat_escape (c : Char) : IsFlat (Text.escape c) := by
  unfold Text.escape
  cases escaped : Text.escapeLetter? c with
  | some letter =>
    have known := Text.unescape?_of_escape_letter? escaped
    have flat : letter ≠ '\n' ∧ letter ≠ '\r' := by
      constructor <;> rintro rfl <;> cases known
    simpa [IsFlat] using flat
  | none =>
    have flat : c ≠ '\n' ∧ c ≠ '\r' := by
      constructor <;> rintro rfl <;> cases escaped
    simpa [IsFlat] using flat

end Lexeme

theorem is_flat_of_is_name_char {text : List Char} (inside : ∀ c ∈ text, isNameChar c = true) :
    IsFlat text := by
  intro c member
  have name := inside c member
  constructor <;> rintro rfl <;> exact absurd name (by decide)

theorem IsFlat.append {left right : List Char} (first : IsFlat left) (second : IsFlat right) :
    IsFlat (left ++ right) :=
  List.forall_mem_append.mpr ⟨first, second⟩

namespace Token.Kind

theorem is_writable_integer {value : Int} :
    (integer value).isWritable = true ↔ ∃ number : Nat, value = number ∧ number ≤ integerLimit := by
  simp only [isWritable, Bool.and_eq_true, decide_eq_true_eq]
  constructor
  · rintro ⟨positive, limited⟩
    obtain ⟨number, rfl⟩ := Int.eq_ofNat_of_zero_le positive
    exact ⟨number, rfl, Int.ofNat_le.mp limited⟩
  · rintro ⟨number, rfl, limited⟩
    exact ⟨Int.natCast_nonneg number, Int.ofNat_le.mpr limited⟩

theorem is_writable_at_name {name : String} :
    (atName name).isWritable = true ↔ name.toList ≠ [] ∧
      (∀ c ∈ name.toList, isVariableChar c = true) ∧ name.toList.length ≤ scanCapacity := by
  simp only [isWritable, Bool.and_eq_true, decide_eq_true_eq, List.all_eq_true, and_assoc]

/-- The text of a token is read as the token, whatever delimited text follows it. -/
theorem spells_render {kind : Kind} (writable : kind.isWritable = true) :
    Spells kind.render.toList [kind] := by
  cases kind with
  | comma => exact Spells.mark (fun _ => rfl) .nil
  | leftParen => exact Spells.mark (fun _ => rfl) .nil
  | rightParen => exact Spells.mark (fun _ => rfl) .nil
  | plus => exact Spells.mark (fun _ => rfl) .nil
  | minus => exact Spells.mark (fun _ => rfl) .nil
  | integer value =>
    obtain ⟨number, rfl, limited⟩ := is_writable_integer.mp writable
    exact Spells.decimal limited
  | string value =>
    have short : value.utf8ByteSize ≤ scanCapacity := by simpa [isWritable] using writable
    have written := Lexeme.Written.string (Lexeme.quotes_all_escape value.toList) (by simpa)
    rw [String.ofList_toList] at written
    have spelled := written.spells fun _ _ _ _ => rfl
    simpa [render, Text.quote] using spelled
  | text name =>
    have spelled := Spells.word (show isWord name.toList = true from writable)
    rwa [String.ofList_toList] at spelled
  | label name =>
    have written := Lexeme.Written.label (show isWord name.toList = true from writable)
    rw [String.ofList_toList] at written
    have spelled := written.spells fun _ _ _ _ => rfl
    simpa [render] using spelled
  | atName name =>
    obtain ⟨some, inside, short⟩ := is_writable_at_name.mp writable
    have written := Lexeme.Written.atName some inside short
    rw [String.ofList_toList] at written
    have spelled := written.spells fun _ delimited =>
      delimited.stops fun _ => is_name_char_of_is_variable_char
    simpa [render] using spelled
  | newLine | endOfInput | bad => cases writable

theorem is_flat_render {kind : Kind} (writable : kind.isWritable = true) :
    IsFlat kind.render.toList := by
  cases kind with
  | comma | leftParen | rightParen | plus | minus => decide
  | integer value =>
    obtain ⟨number, rfl, -⟩ := is_writable_integer.mp writable
    have digits : (render (.integer number)).toList = Nat.toDigits 10 number := by
      show (Numeral.decimal number).toList = _
      simp [Numeral.decimal]
    have all := @Numeral.is_digit_to_digits 10 (by decide) (by decide) number
    rw [digits]
    apply is_flat_of_is_name_char
    exact fun c member => is_name_char_of_is_numeral_char (is_numeral_char_of_is_digit (all c member))
  | string value =>
    have quoted : IsFlat (value.toList.flatMap Text.escape) := by
      intro c member
      obtain ⟨original, -, inside⟩ := List.mem_flatMap.mp member
      exact Lexeme.is_flat_escape original c inside
    have whole := (show IsFlat ['"'] by decide).append (quoted.append (show IsFlat ['"'] by decide))
    simpa [render, Text.quote] using whole
  | text name => exact is_flat_of_is_name_char (is_name_char_of_is_word writable)
  | label name =>
    have word := is_flat_of_is_name_char (@is_name_char_of_is_word name.toList writable)
    simpa [render] using word.append (show IsFlat [':'] by decide)
  | atName name =>
    obtain ⟨-, inside, -⟩ := is_writable_at_name.mp writable
    have names := is_flat_of_is_name_char fun c member => is_name_char_of_is_variable_char (inside c member)
    simpa [render] using (show IsFlat ['@'] by decide).append names
  | newLine | endOfInput | bad => cases writable

end Token.Kind

/-! ### Written sentences are read -/

namespace Token

def textBehind : List Kind → List Char
  | [] => []
  | kind :: rest => ' ' :: (renderAll (kind :: rest)).toList

theorem to_list_render_all_cons (kind : Kind) (rest : List Kind) :
    (renderAll (kind :: rest)).toList = kind.render.toList ++ textBehind rest := by
  cases rest with
  | nil => simp [renderAll, textBehind]
  | cons next rest =>
    simp [renderAll, textBehind, String.intercalate_cons_cons]

theorem delimited_text_behind (kinds : List Kind) : Delimited (textBehind kinds) := by
  cases kinds with
  | nil => exact delimited_nil
  | cons kind rest => exact delimited_cons _ (by decide) (by decide)

/-- Between two tokens stands one blank, and none behind the last one. -/
theorem lexemes_text_behind (kinds : List Kind) :
    ∃ between, lexemes (textBehind kinds) = between ++ lexemes (renderAll kinds).toList ∧
      '\n' ∉ between.flatMap Lexeme.text ∧ Lexeme.Carry between [] := by
  cases kinds with
  | nil => exact ⟨[], rfl, by simp, .nil⟩
  | cons kind rest =>
    refine ⟨[⟨[' '], .gap⟩], ?_, by simp, .gap _ .nil⟩
    rw [textBehind, lexemes_cons]
    simp [Lexeme.first]

/-- By induction on the tokens, a sentence is read behind a token that is a line end or not. -/
theorem read_render_all {kinds : List Kind}
    (written : ∀ kind ∈ kinds, kind = .newLine ∨ kind.isWritable = true) {closed : Bool}
    (lined : LinedFrom closed kinds) (position : Position) :
    Lexeme.faultsFrom position (lexemes (renderAll kinds).toList) = [] ∧
      (Lexeme.tokensFrom position closed (lexemes (renderAll kinds).toList)).map Token.kind =
        kinds := by
  induction kinds generalizing closed position with
  | nil =>
    obtain rfl : closed = true := lined
    have nothing : lexemes (renderAll []).toList = [] := lexemes_nil
    rw [nothing]
    exact ⟨rfl, rfl⟩
  | cons kind rest induction =>
    obtain ⟨here, later⟩ := List.forall_mem_cons.mp written
    obtain ⟨between, blanks, flatBlanks, carriedBlanks⟩ := lexemes_text_behind rest
    rw [to_list_render_all_cons]
    rw [LinedFrom] at lined
    by_cases feed : kind = .newLine
    · subst feed
      obtain ⟨rfl, lined⟩ := lined
      have cut : lexemes (Kind.newLine.render.toList ++ textBehind rest) =
          ⟨['\n'], .lineEnd⟩ :: (between ++ lexemes (renderAll rest).toList) := by
        rw [← blanks]
        exact lexemes_feed _
      rw [cut]
      simp only [Lexeme.faultsFrom, Lexeme.tokensFrom, Bool.false_eq_true, if_false]
      obtain ⟨tokens, kinds, -, taken⟩ := Lexeme.tokens_from_carry carriedBlanks flatBlanks
        (position.advance ['\n']) true (lexemes (renderAll rest).toList)
      obtain ⟨clean, read⟩ := induction later lined
        ((position.advance ['\n']).advance (between.flatMap Lexeme.text))
      rw [Lexeme.faults_from_carry carriedBlanks, taken, List.map_cons, List.map_append, kinds]
      exact ⟨clean, by simpa using read⟩
    · rw [if_neg feed] at lined
      have writable := here.resolve_left feed
      obtain ⟨pieces, cut, covered, carried⟩ :=
        Kind.spells_render writable _ (delimited_text_behind rest)
      have flat : '\n' ∉ pieces.flatMap Lexeme.text := by
        rw [covered]
        exact (Kind.is_flat_render writable).no_feed
      have carriedAll := carried.append carriedBlanks
      obtain ⟨tokens, kinds, -, taken⟩ := Lexeme.tokens_from_carry carriedAll
        (by simpa using ⟨by simpa using flat, by simpa using flatBlanks⟩) position closed
        (lexemes (renderAll rest).toList)
      obtain ⟨clean, read⟩ := induction later lined
        (position.advance ((pieces ++ between).flatMap Lexeme.text))
      rw [cut, blanks, ← List.append_assoc, Lexeme.faults_from_carry carriedAll, taken,
        List.map_append, kinds]
      exact ⟨clean, by simpa using read⟩

theorem no_return_render_all {kinds : List Kind}
    (written : ∀ kind ∈ kinds, kind = .newLine ∨ kind.isWritable = true) :
    ∀ c ∈ (renderAll kinds).toList, c ≠ '\r' := by
  induction kinds with
  | nil => simp [renderAll]
  | cons kind rest induction =>
    obtain ⟨here, later⟩ := List.forall_mem_cons.mp written
    rw [to_list_render_all_cons]
    rw [List.forall_mem_append]
    constructor
    · rcases here with rfl | writable
      · simp [Kind.render]
      · exact fun c member => (Kind.is_flat_render writable c member).2
    · cases rest with
      | nil => simp [textBehind]
      | cons next rest => exact List.forall_mem_cons.mpr ⟨by decide, induction later⟩

theorem Sentence.reads {kinds : List Kind} (sentence : Sentence kinds) :
    Reads (renderAll kinds).toList kinds := by
  have normal := Text.normalize_of_no_return (no_return_render_all sentence.written)
  have lined : LinedFrom false kinds := lined_from_iff.mpr sentence.toLined
  obtain ⟨clean, read⟩ := read_render_all sentence.written lined .start
  constructor
  · rw [lexicalFaults, normal, clean]
  · rw [tokenize, normal, read]

end Token

/-! ### What is read is a sentence -/

namespace Lexeme

theorem is_writable_number {text : List Char} {kind : Token.Kind}
    (content : (number text).content = .token kind) : kind.isWritable = true := by
  unfold number numberOf at content
  split at content
  · cases content
  · split at content
    · cases content
    · split at content
      · next limited =>
        cases content
        exact Token.Kind.is_writable_integer.mpr ⟨_, rfl, limited⟩
      · cases content

theorem to_nat_le_integer_limit (c : Char) : c.toNat ≤ integerLimit := by
  have valid : c.toNat < 0xD800 ∨ 0xDFFF < c.toNat ∧ c.toNat < 0x110000 := c.valid
  rw [integerLimit]
  omega

theorem Written.is_writable {lexeme : Lexeme} {grows : Char → Bool} (written : lexeme.Written grows)
    {kind : Token.Kind} (content : lexeme.content = .token kind) : kind.isWritable = true := by
  cases written with
  | blank | comment => cases content
  | mark mark =>
    cases content
    cases mark <;> rfl
  | word word =>
    cases content
    simpa [Token.Kind.isWritable] using word
  | label word =>
    cases content
    simpa [Token.Kind.isWritable] using word
  | atName some inside short =>
    cases content
    rw [Token.Kind.is_writable_at_name, String.toList_ofList]
    exact ⟨some, inside, short⟩
  | number digit inside read =>
    rw [← read] at content
    exact is_writable_number content
  | @character source c quoted =>
    cases content
    exact Token.Kind.is_writable_integer.mpr ⟨c.toNat, rfl, to_nat_le_integer_limit c⟩
  | string quoted short =>
    cases content
    simpa [Token.Kind.isWritable] using short

theorem is_writable_of_leads {lexeme : Lexeme} {text : List Char}
    (leads : ¬ lexeme.IsFault → lexeme.Leads text) {kind : Token.Kind}
    (content : lexeme.content = .token kind) : kind.isWritable = true := by
  have sound : ¬ lexeme.IsFault := by
    rintro ⟨cause, fault⟩
    rw [content] at fault
    cases fault
  obtain ⟨grows, -, written, -, -⟩ := leads sound
  exact written.is_writable content

/-- A token that was found can be written. -/
theorem is_writable_first {c : Char} {rest : List Char} {kind : Token.Kind}
    (content : (first c rest).content = .token kind) : kind.isWritable = true := by
  unfold first at content
  split at content
  case h_10 => exact is_writable_of_leads leads_at_name content
  case h_11 => exact is_writable_of_leads leads_character content
  case h_12 => exact is_writable_of_leads leads_string content
  case h_13 =>
    split_ifs at content with digit start
    · exact is_writable_of_leads (leads_number digit) content
    · exact is_writable_of_leads (leads_name start) content
  all_goals
    cases content <;> rfl

theorem is_writable_lexemes (text : List Char) :
    ∀ lexeme ∈ lexemes text, ∀ kind, lexeme.content = .token kind → kind.isWritable = true := by
  fun_induction lexemes text with
  | case1 => simp
  | case2 c rest induction =>
    exact List.forall_mem_cons.mpr ⟨fun kind => is_writable_first, induction⟩

theorem written_tokens_from {pieces : List Lexeme} (sound : ∀ lexeme ∈ pieces, ¬ lexeme.IsFault)
    (writable : ∀ lexeme ∈ pieces, ∀ kind, lexeme.content = .token kind → kind.isWritable = true)
    (position : Position) (closed : Bool) :
    ∀ kind ∈ (tokensFrom position closed pieces).map Token.kind,
      kind = .newLine ∨ kind.isWritable = true := by
  induction pieces generalizing position closed with
  | nil => cases closed <;> simp [tokensFrom]
  | cons lexeme rest induction =>
    rw [List.forall_mem_cons] at sound writable
    have behind := induction sound.2 writable.2 (position.advance lexeme.text)
    unfold tokensFrom
    dsimp only
    split
    · exact behind closed
    · split
      · exact behind true
      · exact List.forall_mem_cons.mpr ⟨.inl rfl, behind true⟩
    · next kind content =>
      exact List.forall_mem_cons.mpr ⟨.inr (writable.1 kind content), behind false⟩
    · next cause content => exact absurd ⟨cause, content⟩ sound.1

end Lexeme

theorem sentence_tokenize {source : List Char} (clean : lexicalFaults source = []) :
    Token.Sentence ((tokenize source).map Token.kind) :=
  ⟨lined_tokenize source,
    Lexeme.written_tokens_from (Lexeme.not_is_fault_of_faults_from clean)
      (Lexeme.is_writable_lexemes (Text.normalize source)) .start false⟩

/-- Reading undoes writing on all sentences, and the tokens of every text without faults are a
sentence, so that they can be written and read again. -/
theorem tokenize_render_all :
    (∀ kinds, Token.Sentence kinds → Token.Reads (Token.renderAll kinds).toList kinds) ∧
      ∀ source, lexicalFaults source = [] →
        Token.Sentence ((tokenize source).map Token.kind) ∧
          Token.Reads (Token.renderAll ((tokenize source).map Token.kind)).toList
            ((tokenize source).map Token.kind) := by
  constructor
  · intro kinds sentence
    exact sentence.reads
  · intro source clean
    have sentence := sentence_tokenize clean
    exact ⟨sentence, sentence.reads⟩

/-- An empty first line, escapes of every kind, the largest number, and apostrophes in a name. -/
theorem tokenize_render_all_escapes :
    let kinds : List Token.Kind :=
      [.newLine, .label "a.'", .string "\"\\\n\r\t\x00';", .comma, .integer 2147483647, .text "af'",
        .atName "0.x", .newLine]
    Token.Sentence kinds ∧
      Token.renderAll kinds = "\n a.': \"\\\"\\\\\\n\\r\\t\\0';\" , 2147483647 af' @0.x \n" ∧
      Token.Reads (Token.renderAll kinds).toList kinds := by
  intro kinds
  have sentence : Token.Sentence kinds := by
    constructor
    · constructor
      · decide
      · decide
    · decide
  exact ⟨sentence, by decide +kernel, tokenize_render_all.1 kinds sentence⟩

end Z80Toolchain
