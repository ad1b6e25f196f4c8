import Z80Toolchain.Assembly.Assemble
import Z80Toolchain.Proofs.Source.LexemeShape
import Z80Toolchain.Proofs.Source.LineTokens

/-!
Token lines and source lines. The tokens of one token line, its line end included, all stand on one
line of the source, and later token lines stand on later source lines; blank lines leave gaps in the
numbers. Expansion moves tokens within their lines only. Every bad token comes with a diagnostic at
its place.
-/
namespace Z80Toolchain

/-! ### Lines of tokens -/

namespace Token

structure OnLine (number : Nat) (line : List Token) : Prop where
  closed : ∃ body feed, line = body ++ [feed] ∧ feed.kind = .newLine ∧
    ∀ token ∈ body, token.kind.endsLine = false
  placed : ∀ token ∈ line, token.position.line = number

/-- Lines on source lines that increase strictly, from a number on. -/
inductive Numbered : Nat → List (List Token) → Prop
  | nil (low : Nat) : Numbered low []
  | cons {low number : Nat} {line : List Token} {lines : List (List Token)} (above : low ≤ number)
      (here : OnLine number line) (later : Numbered (number + 1) lines) :
      Numbered low (line :: lines)

theorem Numbered.weaken {low lower : Nat} {lines : List (List Token)}
    (numbered : Numbered low lines) (below : lower ≤ low) : Numbered lower lines := by
  cases numbered with
  | nil => exact .nil lower
  | cons above here later => exact .cons (Nat.le_trans below above) here later

theorem on_line_feed (position : Position) : OnLine position.line [⟨.newLine, position⟩] := by
  constructor
  · exact ⟨[], _, rfl, rfl, by simp⟩
  · simp

theorem OnLine.cons {number : Nat} {line : List Token} (onLine : OnLine number line) {token : Token}
    (plain : token.kind.endsLine = false) (here : token.position.line = number) :
    OnLine number (token :: line) := by
  obtain ⟨body, feed, rfl, ends, inside⟩ := onLine.closed
  constructor
  · exact ⟨token :: body, feed, rfl, ends, by simpa using ⟨plain, inside⟩⟩
  · exact List.forall_mem_cons.mpr ⟨here, onLine.placed⟩

theorem flatten_lines (tokens : List Token) : (lines tokens).flatten = tokens := by
  induction tokens with
  | nil => rfl
  | cons token rest induction =>
    unfold lines
    split
    · simp [induction]
    · cases found : lines rest with
      | nil =>
        rw [found] at induction
        simp [← induction]
      | cons line more =>
        rw [found] at induction
        simp [← induction]

theorem mem_of_mem_lines {tokens line : List Token} (member : line ∈ lines tokens) {token : Token}
    (inside : token ∈ line) : token ∈ tokens := by
  rw [← flatten_lines tokens]
  exact List.mem_flatten_of_mem member inside

theorem lines_cons_feed {feed : Token} (ends : feed.kind = .newLine) (rest : List Token) :
    lines (feed :: rest) = [feed] :: lines rest := by
  rw [lines, if_pos ends]

theorem lines_cons_plain {token : Token} (plain : token.kind ≠ .newLine) {rest line : List Token}
    {more : List (List Token)} (found : lines rest = line :: more) :
    lines (token :: rest) = (token :: line) :: more := by
  rw [lines, if_neg plain, found]

theorem lines_map {change : Token → Token} (same : ∀ token, (change token).kind = token.kind)
    (tokens : List Token) : lines (tokens.map change) = (lines tokens).map (List.map change) := by
  induction tokens with
  | nil => rfl
  | cons token rest induction =>
    rw [List.map_cons, lines, lines, same, induction]
    split
    · rfl
    · cases lines rest <;> rfl

theorem OnLine.map {number : Nat} {line : List Token} (onLine : OnLine number line)
    {change : Token → Token} (same : ∀ token, (change token).kind = token.kind)
    (kept : ∀ token, (change token).position.line = token.position.line) :
    OnLine number (line.map change) := by
  obtain ⟨body, feed, rfl, ends, inside⟩ := onLine.closed
  constructor
  · refine ⟨body.map change, change feed, by simp, (same feed).trans ends, ?_⟩
    intro token member
    obtain ⟨original, found, rfl⟩ := List.mem_map.mp member
    rw [same]
    exact inside original found
  · intro token member
    obtain ⟨original, found, rfl⟩ := List.mem_map.mp member
    rw [kept]
    exact onLine.placed original found

theorem Numbered.map {low : Nat} {lines : List (List Token)} (numbered : Numbered low lines)
    {change : Token → Token} (same : ∀ token, (change token).kind = token.kind)
    (kept : ∀ token, (change token).position.line = token.position.line) :
    Numbered low (lines.map (List.map change)) := by
  induction numbered with
  | nil low => exact .nil low
  | cons above here _ induction => exact .cons above (here.map same kept) induction

theorem Numbered.forall_on_line {low : Nat} {lines : List (List Token)}
    (numbered : Numbered low lines) : ∀ line ∈ lines, ∃ number, low ≤ number ∧ OnLine number line := by
  induction numbered with
  | nil => simp
  | @cons low number line lines above here _ induction =>
    refine List.forall_mem_cons.mpr ⟨⟨number, above, here⟩, ?_⟩
    intro other member
    obtain ⟨later, bound, onLine⟩ := induction other member
    exact ⟨later, by omega, onLine⟩

end Token

/-! ### Tokens of lexemes -/

namespace Lexeme

inductive Sound : Lexeme → Prop
  | feed : Sound ⟨['\n'], .lineEnd⟩
  | inLine {lexeme : Lexeme} (proper : lexeme.Proper) (flat : '\n' ∉ lexeme.text) : Sound lexeme

theorem Sound.is_written {lexeme : Lexeme} (sound : lexeme.Sound) {kind : Token.Kind}
    (content : lexeme.content = .token kind) : kind.IsWritten := by
  cases sound with
  | feed => cases content
  | inLine proper _ => exact proper.written kind content

theorem sound_lexemes (text : List Char) : ∀ lexeme ∈ lexemes text, lexeme.Sound := by
  fun_induction lexemes text with
  | case1 => simp
  | case2 c rest induction =>
    refine List.forall_mem_cons.mpr ⟨?_, induction⟩
    by_cases feed : c = '\n'
    · subst feed
      exact .feed
    · obtain ⟨taken, text, cut⟩ := cut_from_first c rest
      refine .inLine (proper_first feed rest) ?_
      rw [text]
      simpa using ⟨Ne.symm feed, cut.2⟩

/-- Token lines from a place on: the first of them is on its line unless that one is closed. -/
def LinesFrom (number : Nat) : Bool → List (List Token) → Prop
  | true, lines => Token.Numbered number lines
  | false, lines => ∃ first more, lines = first :: more ∧ Token.OnLine number first ∧
      Token.Numbered (number + 1) more

theorem LinesFrom.numbered {number : Nat} {closed : Bool} {lines : List (List Token)}
    (found : LinesFrom number closed lines) : Token.Numbered number lines := by
  cases closed with
  | true => exact found
  | false =>
    obtain ⟨first, more, rfl, here, later⟩ := found
    exact .cons (Nat.le_refl number) here later

theorem lines_from_token {token : Token} (plain : token.kind.endsLine = false) {rest : List Token}
    {closed : Bool} (later : LinesFrom token.position.line false (Token.lines rest)) :
    LinesFrom token.position.line closed (Token.lines (token :: rest)) := by
  obtain ⟨first, more, found, here, numbered⟩ := later
  have other : token.kind ≠ .newLine := by
    intro feed
    simp [feed, Token.Kind.endsLine] at plain
  have cut : LinesFrom token.position.line false (Token.lines (token :: rest)) :=
    ⟨token :: first, more, Token.lines_cons_plain other found, here.cons plain rfl, numbered⟩
  cases closed with
  | true => exact cut.numbered
  | false => exact cut

theorem lines_from_tokens_from {pieces : List Lexeme} (sound : ∀ lexeme ∈ pieces, lexeme.Sound)
    (position : Position) (closed : Bool) :
    LinesFrom position.line closed (Token.lines (tokensFrom position closed pieces)) := by
  induction pieces generalizing position closed with
  | nil =>
    cases closed with
    | true => exact .nil _
    | false => exact ⟨_, _, rfl, Token.on_line_feed position, .nil _⟩
  | cons lexeme rest induction =>
    obtain ⟨here, later⟩ := List.forall_mem_cons.mp sound
    cases here with
    | feed =>
      have next : (position.advance ['\n']).line = position.line + 1 := rfl
      have behind := induction later (position.advance ['\n']) true
      rw [next] at behind
      cases closed with
      | true => exact Token.Numbered.weaken behind (Nat.le_succ _)
      | false => exact ⟨_, _, Token.lines_cons_feed rfl _, Token.on_line_feed position, behind⟩
    | inLine proper flat =>
      have kept := Position.advance_line flat position
      have behind := fun closed => induction later (position.advance lexeme.text) closed
      rw [kept] at behind
      unfold tokensFrom
      dsimp only
      split
      · exact behind closed
      · next ends => exact absurd ends proper.inLine
      · next kind content =>
        obtain ⟨noFeed, noEnd, -⟩ := proper.written kind content
        apply lines_from_token _ (behind false)
        simp [Token.Kind.endsLine, noFeed, noEnd]
      · exact lines_from_token (by rfl) (behind false)

/-- A bad token has its diagnostic at the same place. -/
theorem exists_fault_of_bad {token : Token} {text : String} (bad : token.kind = .bad text)
    {pieces : List Lexeme} (sound : ∀ lexeme ∈ pieces, lexeme.Sound) {position : Position}
    {closed : Bool} (member : token ∈ tokensFrom position closed pieces) :
    ∃ diagnostic ∈ faultsFrom position pieces, diagnostic.position = token.position := by
  induction pieces generalizing position closed with
  | nil =>
    cases closed with
    | true => simp [tokensFrom] at member
    | false =>
      obtain rfl : token = ⟨.newLine, position⟩ := by simpa [tokensFrom] using member
      cases bad
  | cons lexeme rest induction =>
    obtain ⟨here, later⟩ := List.forall_mem_cons.mp sound
    unfold tokensFrom at member
    unfold faultsFrom
    dsimp only at member ⊢
    cases content : lexeme.content with
    | gap =>
      rw [content] at member
      exact induction later member
    | lineEnd =>
      rw [content] at member
      dsimp only at member
      split at member
      · exact induction later member
      · rcases List.mem_cons.mp member with rfl | behind
        · cases bad
        · exact induction later behind
    | token kind =>
      rw [content] at member
      rcases List.mem_cons.mp member with rfl | behind
      · exact absurd bad ((here.is_written content).2.2 text)
      · exact induction later behind
    | fault cause =>
      rw [content] at member
      rcases List.mem_cons.mp member with rfl | behind
      · exact ⟨_, List.mem_cons_self, rfl⟩
      · obtain ⟨diagnostic, found, same⟩ := induction later behind
        exact ⟨diagnostic, List.mem_cons_of_mem _ found, same⟩

end Lexeme

/-! ### Tokens of an expanded source -/

namespace Expansion

variable (expansion : Expansion)

theorem line_source_position (position : Position) :
    (expansion.sourcePosition position).line = position.line := by
  unfold sourcePosition
  split <;> rfl

/-- The token lines of a source stand on lines of the source that increase strictly. -/
theorem lines_numbered : Token.Numbered 0 (Token.lines expansion.tokens) := by
  have cut := Lexeme.lines_from_tokens_from
    (Lexeme.sound_lexemes (Text.normalize expansion.text)) .start false
  rw [tokens, Token.lines_map (by simp)]
  exact cut.numbered.map (by simp) (by simp [line_source_position])

/-- The tokenizer leaves the end of the input to the reader. -/
theorem tokens_ne_end_of_input : ∀ token ∈ expansion.tokens, token.kind ≠ .endOfInput := by
  intro token member final
  rw [← Token.flatten_lines expansion.tokens] at member
  obtain ⟨line, found, inLine⟩ := List.mem_flatten.mp member
  obtain ⟨number, -, onLine⟩ := expansion.lines_numbered.forall_on_line line found
  obtain ⟨body, feed, rfl, ends, inside⟩ := onLine.closed
  rcases List.mem_append.mp inLine with early | last
  · have plain := inside token early
    simp [final, Token.Kind.endsLine] at plain
  · obtain rfl := List.mem_singleton.mp last
    simp [final] at ends

/-- Every bad token of a source has been reported at its place. -/
theorem exists_lexical_fault {token : Token} (member : token ∈ expansion.tokens) {text : String}
    (bad : token.kind = .bad text) :
    ∃ diagnostic ∈ expansion.lexicalFaults, diagnostic.position = token.position := by
  obtain ⟨original, found, rfl⟩ := List.mem_map.mp member
  have unread : original.kind = .bad text := bad
  obtain ⟨diagnostic, reported, same⟩ :=
    Lexeme.exists_fault_of_bad unread (Lexeme.sound_lexemes _) found
  exact ⟨_, List.mem_map_of_mem reported, congrArg expansion.sourcePosition same⟩

end Expansion

end Z80Toolchain
