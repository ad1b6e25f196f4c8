import Mathlib.Tactic.SplitIfs
import Z80Toolchain.Source.Lexeme

/-!
What a lexeme can be. It takes a piece of the text from its first character on; a line feed is a
lexeme by itself and stands in no other one; and a token that it carries is one that can be written:
neither a line end nor the end of the input, and not bad. The meaning of the pieces is left open.
-/
namespace Z80Toolchain

theorem mem_take_while {p : Char → Bool} {text : List Char} {c : Char}
    (member : c ∈ text.takeWhile p) : p c = true :=
  List.all_eq_true.mp List.all_takeWhile c member

theorem drop_length_take_while (p : Char → Bool) (text : List Char) :
    text.drop (text.takeWhile p).length = text.dropWhile p := by
  have whole := List.takeWhile_append_dropWhile (p := p) (l := text)
  have cut := congrArg (List.drop (text.takeWhile p).length) whole
  rw [List.drop_left] at cut
  exact cut.symm

namespace Lexeme

def Piece (piece text : List Char) : Prop :=
  piece <+: text ∧ '\n' ∉ piece

theorem piece_nil (text : List Char) : Piece [] text :=
  ⟨List.nil_prefix, by simp⟩

theorem Piece.cons {piece text : List Char} (cut : Piece piece text) {c : Char}
    (flat : c ≠ '\n') : Piece (c :: piece) (c :: text) :=
  ⟨List.cons_prefix_cons.mpr ⟨rfl, cut.1⟩, by simpa using ⟨flat.symm, cut.2⟩⟩

/-- A piece, and then a piece of what it leaves. -/
theorem Piece.append {piece more text : List Char} (first : Piece piece text)
    (second : Piece more (text.drop piece.length)) : Piece (piece ++ more) text := by
  obtain ⟨⟨rest, rfl⟩, flat⟩ := first
  rw [List.drop_left] at second
  refine ⟨List.prefix_append_right_inj piece |>.mpr second.1, ?_⟩
  simpa using ⟨flat, second.2⟩

theorem piece_take_while {p : Char → Bool} (stops : p '\n' = false) (text : List Char) :
    Piece (text.takeWhile p) text := by
  refine ⟨List.takeWhile_prefix p, ?_⟩
  intro feed
  simp [mem_take_while feed] at stops

theorem piece_recovery {mark : Char} (flat : mark ≠ '\n') (rest : List Char) :
    Piece (recovery mark rest) rest := by
  have skipped : Piece (rest.takeWhile fun c => c != mark && c != '\n') rest :=
    piece_take_while (by simp) rest
  unfold recovery
  dsimp only
  split
  · next c behind found =>
    split
    · next same =>
      apply skipped.append
      rw [found, same]
      exact (piece_nil behind).cons flat
    · exact skipped
  · exact skipped

theorem piece_quoted_char (rest : List Char) : Piece (quotedChar rest).2 rest := by
  unfold quotedChar
  split
  case h_5 letter rest other => exact ((piece_nil rest).cons other).cons (by decide)
  case h_6 c rest other _ _ _ => exact (piece_nil rest).cons other
  all_goals first
    | exact piece_nil _
    | exact (piece_nil _).cons (by decide)

theorem piece_string_body (rest : List Char) : Piece (stringBody rest).2 rest := by
  fun_induction stringBody rest with
  | case1 => exact piece_nil _
  | case2 rest => exact (piece_nil rest).cons (by decide)
  | case3 => exact piece_nil _
  | case4 => exact (piece_nil []).cons (by decide)
  | case5 rest => exact (piece_nil _).cons (by decide)
  | case6 letter rest other c value induction => exact (induction.cons other).cons (by decide)
  | case7 letter rest other noValue =>
    exact ((piece_recovery (by decide) rest).cons other).cons (by decide)
  | case8 c rest _ other _ _ _ induction => exact induction.cons other

def CutFrom (c : Char) (rest : List Char) (lexeme : Lexeme) : Prop :=
  ∃ taken, lexeme.text = c :: taken ∧ Piece taken rest

theorem cut_from_name (c : Char) (rest : List Char) :
    (name (c :: rest.takeWhile isNameChar) (rest.dropWhile isNameChar)).CutFrom c rest := by
  have taken := piece_take_while (p := isNameChar) (by decide) rest
  unfold name
  split_ifs with long colon
  · exact ⟨_, rfl, taken⟩
  · refine ⟨rest.takeWhile isNameChar ++ [':'], rfl, taken.append ?_⟩
    rw [drop_length_take_while]
    cases behind : rest.dropWhile isNameChar with
    | nil => simp [behind] at colon
    | cons d more =>
      obtain rfl : d = ':' := by simpa [behind] using colon
      exact (piece_nil more).cons (by decide)
  · exact ⟨_, rfl, taken⟩

theorem cut_from_at_name (rest : List Char) :
    (atName (rest.takeWhile isVariableChar)).CutFrom '@' rest := by
  have taken := piece_take_while (p := isVariableChar) (by decide) rest
  unfold atName
  split_ifs with empty long
  · exact ⟨[], rfl, piece_nil rest⟩
  · exact ⟨_, rfl, taken⟩
  · exact ⟨_, rfl, taken⟩

theorem text_number (text : List Char) : (number text).text = text := by
  unfold number numberOf
  split_ifs <;> rfl

theorem cut_from_character (rest : List Char) : (character rest).CutFrom '\'' rest := by
  have quoted := piece_quoted_char rest
  unfold character
  dsimp only
  split
  · next c behind _ found =>
    refine ⟨(quotedChar rest).2 ++ ['\''], rfl, quoted.append ?_⟩
    rw [found]
    exact (piece_nil behind).cons (by decide)
  · exact ⟨_, rfl, quoted.append (piece_recovery (by decide) _)⟩

theorem cut_from_string (rest : List Char) : (string rest).CutFrom '"' rest := by
  have body := piece_string_body rest
  unfold string
  split
  · next text read =>
    rw [read] at body
    exact ⟨text, rfl, body⟩
  · next value text read =>
    rw [read] at body
    split_ifs
    · exact ⟨text, rfl, body⟩
    · exact ⟨text, rfl, body⟩

/-- A lexeme is its first character and a piece of the same line. -/
theorem cut_from_first (c : Char) (rest : List Char) : (first c rest).CutFrom c rest := by
  unfold first
  split
  case h_3 => exact ⟨_, rfl, piece_take_while (by decide) rest⟩
  case h_10 => exact cut_from_at_name rest
  case h_11 => exact cut_from_character rest
  case h_12 => exact cut_from_string rest
  case h_13 =>
    split_ifs
    · exact ⟨_, text_number _, piece_take_while (by decide) rest⟩
    · exact cut_from_name c rest
    · exact ⟨[], rfl, piece_nil rest⟩
  all_goals exact ⟨[], rfl, piece_nil rest⟩

end Lexeme

/-! ### What lexemes carry -/

/-- A token that stands in a text, in contrast to what the tokenizer and the reader add. -/
def Token.Kind.IsWritten (kind : Token.Kind) : Prop :=
  kind ≠ .newLine ∧ kind ≠ .endOfInput ∧ ∀ text, kind ≠ .bad text

def Cause.concernsSymbol : Cause → Bool
  | unresolvedSymbol _ | redefinedSymbol _ => true
  | _ => false

structure Lexeme.Proper (lexeme : Lexeme) : Prop where
  inLine : lexeme.content ≠ .lineEnd
  written : ∀ kind, lexeme.content = .token kind → kind.IsWritten
  apart : ∀ cause, lexeme.content = .fault cause → cause.concernsSymbol = false

namespace Lexeme

theorem proper_gap (text : List Char) : Proper ⟨text, .gap⟩ := by
  constructor <;> simp

theorem proper_of_token (text : List Char) {kind : Token.Kind} (written : kind.IsWritten) :
    (ofToken text kind).Proper := by
  constructor
  · simp [ofToken]
  · simpa [ofToken] using written
  · simp [ofToken]

theorem proper_fault (text : List Char) {cause : Cause}
    (apart : cause.concernsSymbol = false) : Proper ⟨text, .fault cause⟩ := by
  constructor
  · simp
  · simp
  · simpa using apart

theorem proper_name (text rest : List Char) : (name text rest).Proper := by
  unfold name
  split_ifs
  · exact proper_fault _ rfl
  · exact proper_of_token _ (by simp [Token.Kind.IsWritten])
  · exact proper_of_token _ (by simp [Token.Kind.IsWritten])

theorem proper_at_name (text : List Char) : (atName text).Proper := by
  unfold atName
  split_ifs
  · exact proper_fault _ rfl
  · exact proper_fault _ rfl
  · exact proper_of_token _ (by simp [Token.Kind.IsWritten])

theorem proper_number (text : List Char) : (number text).Proper := by
  unfold number numberOf
  split_ifs
  · exact proper_fault _ rfl
  · exact proper_fault _ rfl
  · exact proper_of_token _ (by simp [Token.Kind.IsWritten])
  · exact proper_fault _ rfl

theorem proper_character (rest : List Char) : (character rest).Proper := by
  unfold character
  dsimp only
  split
  · exact proper_of_token _ (by simp [Token.Kind.IsWritten])
  · exact proper_fault _ rfl

theorem proper_string (rest : List Char) : (string rest).Proper := by
  unfold string
  split
  · exact proper_fault _ rfl
  · split_ifs
    · exact proper_fault _ rfl
    · exact proper_of_token _ (by simp [Token.Kind.IsWritten])

theorem proper_first {c : Char} (flat : c ≠ '\n') (rest : List Char) : (first c rest).Proper := by
  unfold first
  split
  case h_4 => exact absurd rfl flat
  case h_10 => exact proper_at_name _
  case h_11 => exact proper_character rest
  case h_12 => exact proper_string rest
  case h_13 =>
    split_ifs
    · exact proper_number _
    · exact proper_name _ _
    · exact proper_fault _ rfl
  all_goals first
    | exact proper_gap _
    | exact proper_of_token _ (by simp [Token.Kind.IsWritten])

end Lexeme

end Z80Toolchain
