import Z80Toolchain.Assembly.Draft
import Z80Toolchain.Proofs.Source.Spelling

/-!
The tokens of a text that is given line by line. If every line spells some tokens, the text has no
lexical faults, and its tokens are those of the lines, each line closed by a line end and each token
on the line it was written on. Columns are left open.
-/
namespace Z80Toolchain

/-! ### Places -/

namespace Position

theorem advance_append (position : Position) (left right : List Char) :
    position.advance (left ++ right) = (position.advance left).advance right := by
  simp [advance]

theorem advance_line {text : List Char} (flat : '\n' ∉ text) (position : Position) :
    (position.advance text).line = position.line := by
  induction text generalizing position with
  | nil => rfl
  | cons c text induction =>
    have other : c ≠ '\n' := fun feed => flat (by simp [feed])
    have step := induction (fun member => flat (by simp [member])) (position.next c)
    simpa [advance, next, other] using step

theorem advance_feed {text : List Char} (flat : '\n' ∉ text) (position : Position) :
    position.advance (text ++ ['\n']) = ⟨position.line + 1, 0⟩ := by
  have line := advance_line flat position
  rw [advance_append]
  simp only [advance, List.foldl_cons, List.foldl_nil, next, ite_true] at line ⊢
  rw [line]

end Position

/-! ### Tokens and faults of clean lexemes -/

namespace Lexeme

theorem faults_from_carry {pieces : List Lexeme} {kinds : List Token.Kind}
    (carried : Carry pieces kinds) (position : Position) (rest : List Lexeme) :
    faultsFrom position (pieces ++ rest) =
      faultsFrom (position.advance (pieces.flatMap text)) rest := by
  induction carried generalizing position with
  | nil => rfl
  | gap text _ induction =>
    simp only [List.cons_append, List.flatMap_cons, faultsFrom, Position.advance_append]
    exact induction _
  | token text kind _ induction =>
    simp only [List.cons_append, List.flatMap_cons, faultsFrom, Position.advance_append, ofToken]
    exact induction _

theorem tokens_from_carry {pieces : List Lexeme} {kinds : List Token.Kind}
    (carried : Carry pieces kinds) (flat : '\n' ∉ pieces.flatMap text) (position : Position)
    (closed : Bool) (rest : List Lexeme) :
    ∃ tokens : List Token, tokens.map Token.kind = kinds ∧
      (∀ token ∈ tokens, token.position.line = position.line) ∧
      tokensFrom position closed (pieces ++ rest) =
        tokens ++ tokensFrom (position.advance (pieces.flatMap text)) (closed && kinds.isEmpty)
          rest := by
  induction carried generalizing position closed with
  | nil => exact ⟨[], rfl, by simp, by simp [Position.advance]⟩
  | gap text _ induction =>
    simp only [List.flatMap_cons, List.mem_append, not_or] at flat
    obtain ⟨tokens, kinds, placed, cut⟩ := induction flat.2 (position.advance text) closed
    refine ⟨tokens, kinds, ?_, ?_⟩
    · intro token member
      rw [placed token member, Position.advance_line flat.1]
    · simp only [List.cons_append, tokensFrom, cut, List.flatMap_cons, Position.advance_append]
  | token text kind _ induction =>
    simp only [List.flatMap_cons, List.mem_append, not_or, ofToken] at flat
    obtain ⟨tokens, kinds, placed, cut⟩ := induction flat.2 (position.advance text) false
    refine ⟨⟨kind, position⟩ :: tokens, by simp [kinds], ?_, ?_⟩
    · intro token member
      rcases List.mem_cons.mp member with rfl | later
      · rfl
      · rw [placed token later, Position.advance_line flat.1]
    · simp [tokensFrom, ofToken, cut, List.flatMap_cons, Position.advance_append]

end Lexeme

/-! ### Lines -/

/-- The tokens of one line: tokens of these kinds on the line of this number, and a line end. -/
def LineTokens (number : Nat) (kinds : List Token.Kind) (tokens : List Token) : Prop :=
  ∃ body last, tokens = body ++ [last] ∧ body.map Token.kind = kinds ∧ last.kind = .newLine ∧
    ∀ token ∈ body, token.position.line = number

inductive LinesTokens : Nat → List (List Token.Kind) → List (List Token) → Prop
  | nil (number : Nat) : LinesTokens number [] []
  | cons {number : Nat} {kinds : List Token.Kind} {tokens : List Token}
      {more : List (List Token.Kind)} {others : List (List Token)} :
      LineTokens number kinds tokens → LinesTokens (number + 1) more others →
        LinesTokens number (kinds :: more) (tokens :: others)

inductive SpellsLines : List (List Char) → List (List Token.Kind) → Prop
  | nil : SpellsLines [] []
  | cons {line : List Char} {kinds : List Token.Kind} {lines : List (List Char)}
      {more : List (List Token.Kind)} :
      Spells line kinds → '\n' ∉ line → kinds ≠ [] → SpellsLines lines more →
        SpellsLines (line :: lines) (kinds :: more)

theorem lexemes_feed (rest : List Char) :
    lexemes ('\n' :: rest) = ⟨['\n'], .lineEnd⟩ :: lexemes rest := by
  rw [lexemes_cons]
  simp [Lexeme.first]

theorem lexemes_nil : lexemes [] = [] := by
  rw [lexemes]

theorem delimited_feed (rest : List Char) : Delimited ('\n' :: rest) :=
  delimited_cons rest (by decide) (by decide)

theorem faults_from_lines {lines : List (List Char)} {kinds : List (List Token.Kind)}
    (spelled : SpellsLines lines kinds) (position : Position) :
    Lexeme.faultsFrom position (lexemes (Text.joinLines lines)) = [] := by
  induction spelled generalizing position with
  | nil => simp [Text.joinLines, lexemes_nil, Lexeme.faultsFrom]
  | @cons line kinds lines more spells flat some others induction =>
    cases lines with
    | nil =>
      obtain ⟨pieces, cut, covered, carried⟩ := spells [] delimited_nil
      rw [List.append_nil, lexemes_nil] at cut
      rw [Text.joinLines, cut, Lexeme.faults_from_carry carried]
      rfl
    | cons next lines =>
      obtain ⟨pieces, cut, covered, carried⟩ := spells _ (delimited_feed _)
      rw [Text.joinLines, cut, Lexeme.faults_from_carry carried, lexemes_feed]
      simp only [Lexeme.faultsFrom]
      exact induction _

/-- The tokens of lines, from the start of a line on. -/
theorem tokens_from_lines {lines : List (List Char)} {kinds : List (List Token.Kind)}
    (spelled : SpellsLines lines kinds) (some : lines ≠ []) (number : Nat) (closed : Bool) :
    ∃ tokenLines, LinesTokens number kinds tokenLines ∧
      Lexeme.tokensFrom ⟨number, 0⟩ closed (lexemes (Text.joinLines lines)) =
        tokenLines.flatten := by
  induction spelled generalizing number closed with
  | nil => exact absurd rfl some
  | @cons line kinds lines more spells flat written others induction =>
    -- A line with a token on it is not closed yet, so its line end becomes a token as well.
    have opened : (closed && kinds.isEmpty) = false := by
      cases kinds with
      | nil => exact absurd rfl written
      | cons kind kinds => simp
    cases lines with
    | nil =>
      cases others
      obtain ⟨pieces, cut, covered, carried⟩ := spells [] delimited_nil
      rw [List.append_nil, lexemes_nil] at cut
      obtain ⟨tokens, same, placed, taken⟩ :=
        Lexeme.tokens_from_carry carried (by rwa [covered]) ⟨number, 0⟩ closed []
      rw [opened] at taken
      refine ⟨[tokens ++ [⟨.newLine, Position.advance ⟨number, 0⟩ (pieces.flatMap Lexeme.text)⟩]],
        .cons ⟨tokens, _, rfl, same, rfl, placed⟩ (.nil _), ?_⟩
      rw [Text.joinLines, cut, taken]
      simp [Lexeme.tokensFrom]
    | cons next lines =>
      obtain ⟨pieces, cut, covered, carried⟩ := spells _ (delimited_feed _)
      obtain ⟨tokens, same, placed, taken⟩ :=
        Lexeme.tokens_from_carry carried (by rwa [covered]) ⟨number, 0⟩ closed
          (⟨['\n'], .lineEnd⟩ :: lexemes (Text.joinLines (next :: lines)))
      obtain ⟨tokenLines, later, rest⟩ := induction (List.cons_ne_nil _ _) (number + 1) true
      rw [opened] at taken
      refine ⟨(tokens ++ [⟨.newLine, Position.advance ⟨number, 0⟩ (pieces.flatMap Lexeme.text)⟩]) ::
        tokenLines, .cons ⟨tokens, _, rfl, same, rfl, placed⟩ later, ?_⟩
      rw [Text.joinLines, cut, lexemes_feed, taken, List.flatten_cons, ← rest]
      simp only [Lexeme.tokensFrom, Bool.false_eq_true, if_false, ← Position.advance_append, covered,
        Position.advance_feed flat, List.append_assoc, List.singleton_append]

/-! ### Cutting tokens into lines -/

namespace Token

theorem lines_append {body : List Token} {last : Token} (rest : List Token)
    (inside : ∀ token ∈ body, token.kind ≠ .newLine) (ends : last.kind = .newLine) :
    lines (body ++ [last] ++ rest) = (body ++ [last]) :: lines rest := by
  induction body with
  | nil => simp [lines, ends]
  | cons token body induction =>
    have other := inside token (by simp)
    rw [List.cons_append, List.cons_append, lines, if_neg other,
      induction fun token member => inside token (by simp [member])]

end Token

/-- Token lines are found again in what they were put together to. -/
theorem lines_flatten {number : Nat} {kinds : List (List Token.Kind)} {tokenLines : List (List Token)}
    (tokens : LinesTokens number kinds tokenLines)
    (inside : ∀ line ∈ kinds, Token.Kind.newLine ∉ line) :
    Token.lines tokenLines.flatten = tokenLines := by
  induction tokens with
  | nil => rfl
  | @cons number kinds tokens more others line _ induction =>
    obtain ⟨body, last, rfl, rfl, ends, -⟩ := line
    have apart : ∀ token ∈ body, token.kind ≠ .newLine := by
      intro token member feed
      exact inside _ (by simp) (List.mem_map.mpr ⟨token, member, feed⟩)
    rw [List.flatten_cons, Token.lines_append _ apart ends,
      induction fun line member => inside line (by simp [member])]

end Z80Toolchain
