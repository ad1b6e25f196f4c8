import Z80Toolchain.Proofs.Assembly.LineReading

/-!
The encode pass goes line by line. One cursor runs through all tokens and every reader moves it, but
none moves it over a line end, and what a statement does depends on its own line only. So the pass is
a fold over lines: each defines its labels and then has the whole effect of its statement or no
effect but at most one complaint. What the statements mean is left open.
-/
namespace Z80Toolchain

open Parse

/-! ### Statements on their line -/

namespace Draft

/-- What a statement comes to on its line, and the tokens that its readers leave there. -/
structure Reads (draft : Draft) (scope : List Token) (stop : Cursor) (head : Token)
    (body : List Token) (result : Except Diagnostic Draft) (left : List Token) : Prop where
  suffix : left <:+ body
  blames : Blames scope result
  sound : ∀ after, result = .ok after → ¬ head.IsBad → ∀ token ∈ body, ¬ token.IsBad
  run : ∀ cursor : Cursor, cursor.LooksLike stop →
    draft.statement head (cursor.before body) = result ∧
      draft.behind head (cursor.before body) = cursor.before left

section

variable {scope : List Token} {stop : Cursor} (line : LineEnd scope stop) {body : List Token}

include line

theorem end_of_line_before (inside : InLine scope body) :
    ∃ result, Blames scope result ∧ (result = .ok () → body = []) ∧
      ∀ cursor : Cursor, cursor.LooksLike stop → endOfLine (cursor.before body) = result := by
  obtain ⟨token, member, complains⟩ := Cursor.complain_before line inside
  cases body with
  | nil =>
    refine ⟨.ok (), blames_ok (), fun _ => rfl, ?_⟩
    intro cursor alike
    rw [endOfLine, Cursor.before_nil, Cursor.atLineEnd, alike.peek, if_pos line.ends]
  | cons next rest =>
    refine ⟨.error (.atToken token .expectedEndOfLine), ?_, by simp, ?_⟩
    · exact blames_error (Diagnostic.blames_at_token member rfl)
    · intro cursor alike
      have more : (cursor.before (next :: rest)).atLineEnd = false := (inside next (by simp)).2
      rw [endOfLine, more, complains cursor alike]
      rfl

theorem closed_before {α : Type} (inside : InLine scope body) {next : Except Diagnostic α}
    (blames : Blames scope next) :
    ∃ result, Blames scope result ∧ (∀ value, result = .ok value → body = []) ∧
      ∀ cursor : Cursor, cursor.LooksLike stop →
        (endOfLine (cursor.before body) >>= fun _ => next) = result := by
  obtain ⟨ended, missed, closed, ends⟩ := end_of_line_before line inside
  cases ended with
  | error diagnostic =>
    refine ⟨.error diagnostic, blames_error (missed diagnostic rfl), by simp, ?_⟩
    intro cursor alike
    rw [ends cursor alike]
    rfl
  | ok value =>
    refine ⟨next, blames, fun _ _ => closed rfl, ?_⟩
    intro cursor alike
    rw [ends cursor alike]
    rfl

theorem reads_constant (draft : Draft) {head : Token} {name : String} (kind : head.kind = .atName name)
    (here : head ∈ scope) (inside : InLine scope body) :
    ∃ result left, draft.Reads scope stop head body result left := by
  obtain ⟨value, left, outcome, read⟩ :=
    Expression.stays_in_parse line draft.symbols false inside
  have within := inside.suffix outcome.suffix
  have moves (cursor : Cursor) (alike : cursor.LooksLike stop) :
      draft.behind head (cursor.before body) = cursor.before left := by
    simp only [behind, kind, read cursor alike]
  cases value with
  | error diagnostic =>
    refine ⟨.error diagnostic, left, outcome.suffix, ?_, by simp, ?_⟩
    · exact blames_error (outcome.blames diagnostic rfl)
    · intro cursor alike
      refine ⟨?_, moves cursor alike⟩
      simp only [statement, kind, constant, read cursor alike]
  | ok expression =>
    cases expression with
    | symbol name addend =>
      obtain ⟨token, member, complains⟩ := Cursor.complain_before line within
      refine ⟨.error (.atToken token .unsupportedExpression), left, outcome.suffix, ?_, by simp, ?_⟩
      · exact blames_error (Diagnostic.blames_at_token member rfl)
      · intro cursor alike
        refine ⟨?_, moves cursor alike⟩
        simp only [statement, kind, constant, read cursor alike, complains cursor alike]
    | value number =>
      have reads {verdict : Except Diagnostic Draft} (fair : Blames scope verdict)
          (runs : ∀ cursor : Cursor, cursor.LooksLike stop →
            draft.statement head (cursor.before body) =
              (do endOfLine (cursor.before left); verdict)) :
          ∃ result left, draft.Reads scope stop head body result left := by
        obtain ⟨result, blames, closed, ended⟩ := closed_before line within fair
        refine ⟨result, left, outcome.suffix, blames, ?_, ?_⟩
        · intro after accepted _
          obtain ⟨taken, covered, sound⟩ := outcome.taken
          rw [closed after accepted, List.append_nil] at covered
          rwa [covered]
        · intro cursor alike
          exact ⟨(runs cursor alike).trans (ended cursor alike), moves cursor alike⟩
      cases defined : draft.symbols.define ⟨name, .constant, number, head.position⟩ with
      | ok symbols =>
        apply reads (blames_ok { draft with symbols })
        intro cursor alike
        simp only [statement, kind, constant, read cursor alike, defined]
        rfl
      | error cause =>
        apply reads (blames_error
          ⟨head, here, cause, rfl, .inr ⟨name, kind, Symbols.define_error defined⟩⟩)
        intro cursor alike
        simp only [statement, kind, constant, read cursor alike, defined]

theorem reads_instruction (draft : Draft) {head : Token} {name : String}
    (kind : head.kind = .text name) (here : head ∈ scope) (inside : InLine scope body) :
    ∃ result left, draft.Reads scope stop head body result left := by
  obtain ⟨value, left, outcome, read⟩ :=
    Statement.stays_in_parse line draft.symbols here inside
  have within := inside.suffix outcome.suffix
  have moves (cursor : Cursor) (alike : cursor.LooksLike stop) :
      draft.behind head (cursor.before body) = cursor.before left := by
    simp only [behind, kind, read cursor alike]
  cases value with
  | error diagnostic =>
    refine ⟨.error diagnostic, left, outcome.suffix, ?_, by simp, ?_⟩
    · exact blames_error (outcome.blames diagnostic rfl)
    · intro cursor alike
      refine ⟨?_, moves cursor alike⟩
      simp only [statement, kind, instruction, read cursor alike]
  | ok found =>
    have blames : Blames scope (draft.append head found.encoding) := by
      by_cases fits : draft.limit found.encoding ≤ Address.space
      · rw [append_of_fits fits]
        exact blames_ok _
      · rw [append_of_exceeds fits]
        exact blames_error (Diagnostic.blames_at_token here rfl)
    obtain ⟨result, blames, closed, runs⟩ := closed_before line within blames
    refine ⟨result, left, outcome.suffix, blames, ?_, ?_⟩
    · intro after accepted _
      obtain ⟨taken, covered, sound⟩ := outcome.taken
      rw [closed after accepted, List.append_nil] at covered
      rwa [covered]
    · intro cursor alike
      refine ⟨?_, moves cursor alike⟩
      rw [← runs cursor alike]
      simp only [statement, kind, instruction, read cursor alike]

/-- Every statement comes to one result on its line, whatever lies behind the line end. -/
theorem exists_reads (draft : Draft) {head : Token} (here : head ∈ scope)
    (inside : InLine scope body) :
    ∃ result left, draft.Reads scope stop head body result left := by
  cases kind : head.kind with
  | atName name => exact reads_constant line draft kind here inside
  | text name => exact reads_instruction line draft kind here inside
  | bad text =>
    refine ⟨.ok draft, body, List.suffix_rfl, blames_ok draft, ?_, ?_⟩
    · intro after accepted sound
      exact absurd ⟨text, kind⟩ sound
    · intro cursor alike
      simp only [statement, behind, kind, and_self]
  | _ =>
    refine ⟨.error (.atToken head (.expected "instruction")), body, List.suffix_rfl, ?_, by simp, ?_⟩
    · exact blames_error (Diagnostic.blames_at_token here rfl)
    · intro cursor alike
      simp only [statement, behind, kind, and_self]

end

end Draft

/-! ### Statements at any cursor -/

namespace Cursor

def scope (cursor : Cursor) (head : Token) : List Token :=
  head :: cursor.lineAhead ++ [cursor.skipLine.blamed]

end Cursor

namespace Draft

theorem reads_cursor (draft : Draft) (head : Token) (cursor : Cursor) :
    ∃ result left, draft.Reads (cursor.scope head) cursor.skipLine head cursor.lineAhead result left := by
  apply exists_reads
  · exact ⟨cursor.skip_line_ends, by simp [Cursor.scope]⟩
  · simp [Cursor.scope]
  · intro token member
    exact ⟨by simp [Cursor.scope, member], cursor.line_ahead_plain token member⟩

theorem statement_blames (draft : Draft) (head : Token) (cursor : Cursor) :
    Blames (cursor.scope head) (draft.statement head cursor) := by
  obtain ⟨result, left, reads⟩ := draft.reads_cursor head cursor
  have same := (reads.run cursor.skipLine (Cursor.looks_like_refl _)).1
  rw [cursor.before_line_ahead] at same
  rw [same]
  exact reads.blames

/-- A complaint about a statement is never that of a missing label. -/
theorem statement_known {draft : Draft} {head : Token} {cursor : Cursor} {diagnostic : Diagnostic}
    (refused : draft.statement head cursor = .error diagnostic) : diagnostic.isUnresolved = false :=
  (draft.statement_blames head cursor diagnostic refused).is_unresolved

/-- Wherever the readers of a statement leave the cursor, its line ends at the same place. -/
theorem skip_line_behind (draft : Draft) (head : Token) (cursor : Cursor) :
    (draft.behind head cursor).skipLine = cursor.skipLine := by
  obtain ⟨result, left, reads⟩ := draft.reads_cursor head cursor
  have moved := (reads.run cursor.skipLine (Cursor.looks_like_refl _)).2
  rw [cursor.before_line_ahead] at moved
  rw [moved]
  apply Cursor.skip_line_before cursor.skip_line_ends
  intro token member
  exact cursor.line_ahead_plain token (reads.suffix.subset member)

/-- What a statement does depends on its own line only. -/
theorem try_statement_before {draft : Draft} {head : Token} {stop last : Cursor}
    (ends : stop.peek.kind.endsLine = true) (alike : stop.LooksLike last) {body : List Token}
    (plain : ∀ token ∈ body, token.kind.endsLine = false) :
    draft.tryStatement head (stop.before body) = draft.tryStatement head (last.before body) := by
  let scope := head :: body ++ [last.blamed]
  have line : LineEnd scope last := by
    refine ⟨?_, by simp [scope]⟩
    rwa [← alike.peek]
  have inside : InLine scope body := by
    intro token member
    exact ⟨by simp [scope, member], plain token member⟩
  have here : head ∈ scope := by simp [scope]
  obtain ⟨result, left, reads⟩ := exists_reads line draft here inside
  have near := (reads.run stop alike).1
  have far := (reads.run last (Cursor.looks_like_refl last)).1
  unfold tryStatement
  rw [near, far]

/-! ### The loop -/

/-- There are enough steps for all tokens. -/
theorem run_up_to_succ (count : Nat) (draft : Draft) (cursor : Cursor)
    (enough : cursor.ahead.length ≤ count) :
    runUpTo (count + 1) draft cursor = runUpTo count draft cursor := by
  induction count generalizing draft cursor with
  | zero =>
    have nothing : cursor.ahead = [] := List.length_eq_zero_iff.mp (Nat.le_zero.mp enough)
    unfold runUpTo
    rw [nothing]
  | succ count induction =>
    unfold runUpTo
    cases ahead : cursor.ahead with
    | nil => rfl
    | cons token rest =>
      have skipped : cursor.skip.ahead.length ≤ count := by
        simpa [Cursor.skip, ahead] using enough
      have resumed : (draft.behind token cursor.skip).skipLine.ahead.length ≤ count := by
        rw [skip_line_behind]
        exact Nat.le_trans (List.dropWhile_suffix _).length_le skipped
      dsimp only
      split
      · exact induction _ _ skipped
      · exact induction _ _ skipped
      · exact induction _ _ resumed

def runFrom (draft : Draft) (cursor : Cursor) : Draft :=
  runUpTo cursor.ahead.length draft cursor

theorem run_up_to_eq_run_from {count : Nat} {draft : Draft} {cursor : Cursor}
    (enough : cursor.ahead.length ≤ count) : runUpTo count draft cursor = runFrom draft cursor := by
  induction enough with
  | refl => rfl
  | step enough induction => rw [run_up_to_succ _ draft cursor enough, induction]

section

variable (draft : Draft) (token : Token) (rest : List Token) (final : Position)

theorem run_from_nil : draft.runFrom ⟨[], final⟩ = draft := rfl

variable {token}

theorem run_from_feed (ends : token.kind = .newLine) :
    draft.runFrom ⟨token :: rest, final⟩ = draft.runFrom ⟨rest, final⟩ := by
  simp only [runFrom, List.length_cons, runUpTo, ends]
  rfl

theorem run_from_label {name : String} (label : token.kind = .label name) :
    draft.runFrom ⟨token :: rest, final⟩ = (draft.label token name).runFrom ⟨rest, final⟩ := by
  simp only [runFrom, List.length_cons, runUpTo, label]
  rfl

theorem run_from_statement (plain : token.kind.endsLine = false)
    (other : ∀ name, token.kind ≠ .label name) :
    draft.runFrom ⟨token :: rest, final⟩ =
      (draft.tryStatement token ⟨rest, final⟩).runFrom (Cursor.skipLine ⟨rest, final⟩) := by
  have steps : draft.runFrom ⟨token :: rest, final⟩ =
      runUpTo rest.length (draft.tryStatement token ⟨rest, final⟩)
        (draft.behind token ⟨rest, final⟩).skipLine := by
    simp only [runFrom, List.length_cons, runUpTo]
    split
    · next feed => simp [feed, Token.Kind.endsLine] at plain
    · next name label => exact absurd label (other name)
    · rfl
  rw [steps, skip_line_behind]
  exact run_up_to_eq_run_from (List.dropWhile_suffix _).length_le

end

theorem line_from_statement (draft : Draft) {token : Token} (plain : token.kind.endsLine = false)
    (other : ∀ name, token.kind ≠ .label name) (final : Position) (rest : List Token) :
    draft.lineFrom final (token :: rest) = draft.tryStatement token ⟨rest, final⟩ := by
  rw [lineFrom]
  split
  · next feed => simp [feed, Token.Kind.endsLine] at plain
  · next name kind => exact absurd kind (other name)
  · rfl

/-- The pass over one line, from any place in front of its end. -/
theorem run_from_before {stop last : Cursor} (ends : stop.peek.kind.endsLine = true)
    (alike : stop.LooksLike last)
    (closed : ∀ draft : Draft, draft.lineFrom last.final last.ahead = draft) (draft : Draft)
    {body : List Token} (plain : ∀ token ∈ body, token.kind.endsLine = false) :
    draft.runFrom (stop.before body) =
      (draft.lineFrom last.final (body ++ last.ahead)).runFrom stop := by
  induction body generalizing draft with
  | nil => rw [Cursor.before_nil, List.nil_append, closed]
  | cons token rest induction =>
    obtain ⟨here, later⟩ := List.forall_mem_cons.mp plain
    by_cases label : ∃ name, token.kind = .label name
    · obtain ⟨name, kind⟩ := label
      have rejoin := induction (draft.label token name) later
      rw [List.cons_append, lineFrom]
      simp only [kind]
      rw [← rejoin]
      exact draft.run_from_label _ _ kind
    · have other : ∀ name, token.kind ≠ .label name := fun name kind => label ⟨name, kind⟩
      have steps := draft.run_from_statement (rest ++ stop.ahead) stop.final here other
      have stays : Cursor.skipLine ⟨rest ++ stop.ahead, stop.final⟩ = stop :=
        Cursor.skip_line_before ends later
      have same := @try_statement_before draft token stop last ends alike rest later
      have opened : draft.lineFrom last.final (token :: rest ++ last.ahead) =
          draft.tryStatement token (last.before rest) :=
        draft.line_from_statement here other last.final _
      rw [opened, ← same]
      rw [stays] at steps
      exact steps

end Draft

/-! ### Lines of any token list -/

namespace Token

inductive IsLine : List Token → Prop
  | unclosed {body : List Token} (plain : ∀ token ∈ body, token.kind.endsLine = false) : IsLine body
  | closed {body : List Token} {feed : Token}
      (plain : ∀ token ∈ body, token.kind.endsLine = false) (ends : feed.kind = .newLine) :
      IsLine (body ++ [feed])

theorem OnLine.is_line {number : Nat} {line : List Token} (onLine : OnLine number line) :
    IsLine line := by
  obtain ⟨body, feed, rfl, ends, plain⟩ := onLine.closed
  exact .closed plain ends

/-- Lines one after another, all closed but the last. -/
inductive AreLines : List (List Token) → Prop
  | nil : AreLines []
  | last {body : List Token} (plain : ∀ token ∈ body, token.kind.endsLine = false) : AreLines [body]
  | cons {body : List Token} {feed : Token} {lines : List (List Token)}
      (plain : ∀ token ∈ body, token.kind.endsLine = false) (ends : feed.kind = .newLine)
      (later : AreLines lines) : AreLines ((body ++ [feed]) :: lines)

theorem are_lines_singleton {line : List Token} (isLine : IsLine line) : AreLines [line] := by
  cases isLine with
  | unclosed plain => exact .last plain
  | closed plain ends => exact .cons plain ends .nil

theorem are_lines_lines {tokens : List Token} (inside : ∀ token ∈ tokens, token.kind ≠ .endOfInput) :
    AreLines (lines tokens) := by
  induction tokens with
  | nil => exact .nil
  | cons token rest induction =>
    obtain ⟨known, later⟩ := List.forall_mem_cons.mp inside
    have areLines := induction later
    by_cases feed : token.kind = .newLine
    · rw [lines_cons_feed feed]
      exact .cons (List.forall_mem_nil _) feed areLines
    · have plain : token.kind.endsLine = false := by
        simp [Kind.endsLine, feed, known]
      rw [lines, if_neg feed]
      generalize lines rest = found at areLines ⊢
      cases areLines with
      | nil => exact .last (by simpa using plain)
      | last more => exact .last (List.forall_mem_cons.mpr ⟨plain, more⟩)
      | cons more ends others => exact .cons (List.forall_mem_cons.mpr ⟨plain, more⟩) ends others

theorem lines_append_feed {first : List Token} {feed : Token} (ends : feed.kind = .newLine)
    (second : List Token) :
    lines (first ++ [feed] ++ second) = lines (first ++ [feed]) ++ lines second := by
  induction first with
  | nil => simp [lines, ends]
  | cons token first induction =>
    simp only [List.cons_append] at induction ⊢
    by_cases newLine : token.kind = .newLine
    · rw [lines_cons_feed newLine, lines_cons_feed newLine, induction, List.cons_append]
    · cases found : lines (first ++ [feed]) with
      | nil =>
        have whole := flatten_lines (first ++ [feed])
        simp [found] at whole
      | cons line more =>
        rw [found, List.cons_append] at induction
        rw [lines_cons_plain newLine found, lines_cons_plain newLine induction, List.cons_append]

end Token

theorem Cursor.final_of_tokens_append (body : List Token) {rest : List Token} (some : rest ≠ []) :
    (ofTokens (body ++ rest)).final = (ofTokens rest).final := by
  obtain ⟨token, rest, rfl⟩ := List.exists_cons_of_ne_nil some
  simp [ofTokens, List.getLast?_append, List.getLast?_cons]

/-! ### The pass as a fold -/

namespace Draft

theorem run_from_flatten {lines : List (List Token)} (areLines : Token.AreLines lines) (draft : Draft)
    {final : Position} (ends : lines.flatten ≠ [] → (Cursor.ofTokens lines.flatten).final = final) :
    draft.runFrom ⟨lines.flatten, final⟩ = lines.foldl line draft := by
  induction areLines generalizing draft with
  | nil => rfl
  | @last body plain =>
    rw [List.flatten_singleton] at ends ⊢
    by_cases empty : body = []
    · subst empty
      rfl
    · obtain rfl := ends empty
      let stop : Cursor := ⟨[], (Cursor.ofTokens body).final⟩
      have done := run_from_before (rfl : stop.peek.kind.endsLine = true) (Cursor.looks_like_refl stop)
        (fun _ => rfl) draft plain
      simpa [Cursor.before, stop, line, run_from_nil] using done
  | @cons body feed lines plain newLine _ induction =>
    let stop : Cursor := ⟨feed :: lines.flatten, final⟩
    let last : Cursor := ⟨[feed], feed.position⟩
    have known : feed.kind ≠ .endOfInput := by simp [newLine]
    have alike : stop.LooksLike last := by
      constructor
      · rfl
      · simp [stop, last, Cursor.blamed, Cursor.peek, known]
    have stops : stop.peek.kind.endsLine = true := by
      simp [stop, Cursor.peek, newLine, Token.Kind.endsLine]
    have closed (draft : Draft) : draft.lineFrom last.final last.ahead = draft := by
      simp [last, lineFrom, newLine]
    have done := run_from_before stops alike closed draft plain
    rw [List.flatten_cons] at ends ⊢
    rw [List.foldl_cons, ← induction]
    · calc draft.runFrom ⟨body ++ [feed] ++ lines.flatten, final⟩
        _ = draft.runFrom (stop.before body) := by simp [stop, Cursor.before]
        _ = (draft.lineFrom last.final (body ++ last.ahead)).runFrom stop := done
        _ = (draft.line (body ++ [feed])).runFrom stop := by simp [last, line, Cursor.ofTokens]
        _ = (draft.line (body ++ [feed])).runFrom ⟨lines.flatten, final⟩ :=
          run_from_feed _ lines.flatten final newLine
    · intro some
      rw [← ends (by simp), Cursor.final_of_tokens_append _ some]

/-- The encode pass is a fold over lines. -/
theorem run_flatten {lines : List (List Token)} (areLines : Token.AreLines lines) (draft : Draft) :
    draft.run lines.flatten = lines.foldl line draft :=
  run_from_flatten areLines draft fun _ => rfl

theorem run_eq_foldl {tokens : List Token} (inside : ∀ token ∈ tokens, token.kind ≠ .endOfInput)
    (draft : Draft) : draft.run tokens = (Token.lines tokens).foldl line draft := by
  have pass := run_flatten (Token.are_lines_lines inside) draft
  rwa [Token.flatten_lines] at pass

theorem run_line {line : List Token} (isLine : Token.IsLine line) (draft : Draft) :
    draft.run line = draft.line line := by
  have pass := run_flatten (Token.are_lines_singleton isLine) draft
  rwa [List.flatten_singleton] at pass

end Draft

theorem Expansion.draft_eq_foldl (expansion : Expansion) (origin : UInt16) :
    expansion.draft origin =
      (Token.lines expansion.tokens).foldl Draft.line (Draft.start origin) :=
  Draft.run_eq_foldl expansion.tokens_ne_end_of_input (Draft.start origin)

end Z80Toolchain
