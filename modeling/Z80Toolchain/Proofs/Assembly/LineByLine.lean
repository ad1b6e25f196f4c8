import Z80Toolchain.Proofs.Assembly.LineEffect

/-!
The encode pass goes line by line. No step reads what has been reported before, so a complaint
changes nothing later on, and a statement without effect can be deleted. The main statement puts this
together with the fold over lines and with what a single line does.
-/
namespace Z80Toolchain

namespace Draft

/-! ### Nothing reads earlier complaints -/

def logging (draft : Draft) (log : Array Diagnostic) : Draft :=
  { draft with diagnostics := log }

/-- The step does the same whatever has been reported before, and adds the same complaints. -/
def BlindToLog (step : Draft → Draft) : Prop :=
  ∀ draft : Draft, ∃ added, ∀ log, step (draft.logging log) = (step draft).logging (log ++ added)

theorem blind_to_log_comp {first second : Draft → Draft} (blind : BlindToLog first)
    (blindLater : BlindToLog second) : BlindToLog fun draft => second (first draft) := by
  intro draft
  obtain ⟨added, early⟩ := blind draft
  obtain ⟨more, late⟩ := blindLater (first draft)
  refine ⟨added ++ more, ?_⟩
  intro log
  dsimp only
  rw [early, late, Array.append_assoc]

theorem blind_to_log_label (token : Token) (name : String) :
    BlindToLog fun draft => draft.label token name := by
  intro draft
  by_cases fresh : draft.symbols.find? name = none
  · refine ⟨#[], ?_⟩
    intro log
    have later : (draft.logging log).symbols.find? name = none := fresh
    dsimp only
    rw [label_of_fresh fresh, label_of_fresh later, Array.append_empty]
    rfl
  · refine ⟨#[.atToken token (.redefinedSymbol name)], ?_⟩
    intro log
    have later : (draft.logging log).symbols.find? name ≠ none := fresh
    dsimp only
    rw [label_of_taken fresh, label_of_taken later, ← Array.push_eq_append]
    rfl

theorem statement_logging (draft : Draft) (head : Token) (cursor : Cursor) (log : Array Diagnostic) :
    (draft.logging log).statement head cursor =
      (draft.statement head cursor).map fun after => after.logging log := by
  unfold statement
  split
  · unfold constant
    dsimp only [logging]
    split
    · rfl
    · rfl
    · next number rest read =>
      cases endOfLine rest with
      | error diagnostic => rfl
      | ok value =>
        dsimp only [bind, Except.bind]
        split <;> rfl
  · unfold instruction
    have symbols : (draft.logging log).symbols = draft.symbols := rfl
    rw [symbols]
    split
    · rfl
    · next found rest read =>
      cases endOfLine rest with
      | error diagnostic => rfl
      | ok value =>
        have limit : (draft.logging log).limit found.encoding = draft.limit found.encoding := rfl
        dsimp only [bind, Except.bind]
        by_cases fits : draft.limit found.encoding ≤ Address.space
        · rw [append_of_fits fits, append_of_fits (limit ▸ fits)]
          rfl
        · rw [append_of_exceeds fits, append_of_exceeds (limit ▸ fits), limit]
          rfl
  · rfl
  · rfl

theorem blind_to_log_try_statement (head : Token) (cursor : Cursor) :
    BlindToLog fun draft => draft.tryStatement head cursor := by
  intro draft
  unfold tryStatement
  cases found : draft.statement head cursor with
  | ok after =>
    refine ⟨#[], ?_⟩
    intro log
    dsimp only
    rw [statement_logging, found, Array.append_empty]
    rfl
  | error diagnostic =>
    by_cases followUp : diagnostic.isFollowUp = true
    · refine ⟨#[], ?_⟩
      intro log
      dsimp only
      rw [statement_logging, found, Array.append_empty]
      simp [Except.map, followUp]
    · refine ⟨#[diagnostic], ?_⟩
      intro log
      dsimp only
      rw [statement_logging, found, ← Array.push_eq_append]
      simp [Except.map, followUp, report, logging]

theorem blind_to_log_line_from (final : Position) (tokens : List Token) :
    BlindToLog fun draft => draft.lineFrom final tokens := by
  have keeps : BlindToLog fun draft => draft := by
    intro draft
    exact ⟨#[], by simp⟩
  induction tokens with
  | nil => exact keeps
  | cons token rest induction =>
    cases kind : token.kind with
    | newLine =>
      simp only [lineFrom, kind]
      exact keeps
    | label name =>
      simp only [lineFrom, kind]
      exact blind_to_log_comp (blind_to_log_label token name) induction
    | _ =>
      simp only [lineFrom, kind]
      exact blind_to_log_try_statement token _

theorem blind_to_log_foldl (lines : List (List Token)) :
    BlindToLog fun draft => lines.foldl line draft := by
  induction lines with
  | nil => exact fun draft => ⟨#[], by simp⟩
  | cons tokens lines induction => exact blind_to_log_comp (blind_to_log_line_from _ tokens) induction

/-! ### Deleting a statement -/

end Draft

namespace Token

theorem are_lines_is_line {earlier : List (List Token)} {line : List Token}
    {later : List (List Token)} (areLines : AreLines (earlier ++ line :: later)) : IsLine line := by
  generalize whole : earlier ++ line :: later = lines at areLines
  induction areLines generalizing earlier with
  | nil => simp at whole
  | last plain =>
    obtain ⟨rfl, rfl, rfl⟩ : earlier = [] ∧ line = _ ∧ later = [] := by
      simpa [List.append_eq_singleton_iff] using whole
    exact .unclosed plain
  | cons plain ends _ induction =>
    cases earlier with
    | nil =>
      cases whole
      exact .closed plain ends
    | cons first earlier =>
      cases whole
      exact induction rfl

theorem are_lines_earlier {earlier later : List (List Token)} (areLines : AreLines (earlier ++ later)) :
    AreLines earlier := by
  generalize whole : earlier ++ later = lines at areLines
  induction areLines generalizing earlier with
  | nil =>
    obtain ⟨rfl, -⟩ := List.append_eq_nil_iff.mp whole
    exact .nil
  | last plain =>
    rcases List.append_eq_singleton_iff.mp whole with ⟨rfl, -⟩ | ⟨rfl, -⟩
    · exact .nil
    · exact .last plain
  | cons plain ends _ induction =>
    cases earlier with
    | nil => exact .nil
    | cons first earlier =>
      cases whole
      exact .cons plain ends (induction rfl)

theorem are_lines_without_statement {earlier : List (List Token)} {line : List Token}
    {later : List (List Token)} (areLines : AreLines (earlier ++ line :: later)) :
    AreLines (earlier ++ withoutStatement line :: later) := by
  have kept {body : List Token} (plain : ∀ token ∈ body, token.kind.endsLine = false) :
      ∀ token ∈ labels body, token.kind.endsLine = false :=
    fun token member => plain token ((List.takeWhile_subset _) member)
  generalize whole : earlier ++ line :: later = lines at areLines
  induction areLines generalizing earlier with
  | nil => simp at whole
  | @last body plain =>
    obtain ⟨rfl, rfl, rfl⟩ : earlier = [] ∧ line = body ∧ later = [] := by
      simpa [List.append_eq_singleton_iff] using whole
    have cut := without_statement_append IsEnding.none plain
    rw [List.append_nil, List.append_nil] at cut
    rw [cut]
    exact .last (kept plain)
  | cons plain ends others induction =>
    cases earlier with
    | nil =>
      cases whole
      rw [without_statement_append (.feed ends) plain]
      exact .cons (kept plain) ends others
    | cons first earlier =>
      cases whole
      exact .cons plain ends (induction rfl)

end Token

namespace Draft

/-- Two drafts with the same code and symbols, one of which may have one complaint more. -/
structure SameButReport (full cut : Draft) : Prop where
  code : full.code = cut.code
  patches : full.patches = cut.patches
  symbols : full.symbols = cut.symbols
  lines : full.lines = cut.lines
  diagnostics : ∃ earlier reported later : Array Diagnostic, reported.size ≤ 1 ∧
    full.diagnostics = earlier ++ reported ++ later ∧ cut.diagnostics = earlier ++ later

/-- The statement of the line has no effect on the draft. -/
def Rejects (draft : Draft) (line : List Token) : Prop :=
  ∀ labelled, draft.Labels (Token.labels line) labelled →
    ∀ after, ¬ labelled.Takes (.behindLabels line) after

theorem same_but_report_refl (draft : Draft) : draft.SameButReport draft :=
  ⟨rfl, rfl, rfl, rfl, draft.diagnostics, #[], #[], by simp, by simp, by simp⟩

theorem line_without_statement {draft labelled : Draft} {line : List Token}
    (isLine : Token.IsLine line) (defined : draft.Labels (Token.labels line) labelled) :
    draft.line (Token.withoutStatement line) = labelled := by
  obtain ⟨body, ending, rfl, plain, ends⟩ := Token.is_line_split isLine
  rw [Token.labels_append ends] at defined
  rw [Token.without_statement_append ends plain, Draft.line, line_from_labels defined]
  cases ends with
  | none => rfl
  | feed ends => simp [lineFrom, ends]

/-- Deleting a statement without effect takes away at most its complaint. -/
theorem foldl_without_statement {draft : Draft} {line : List Token} (isLine : Token.IsLine line)
    (rejects : draft.Rejects line) (later : List (List Token)) :
    (later.foldl Draft.line (draft.line line)).SameButReport
      (later.foldl Draft.line (draft.line (Token.withoutStatement line))) := by
  obtain ⟨labelled, defined⟩ := draft.exists_labels (@Token.is_label_of_mem_labels line)
  rw [line_without_statement isLine defined]
  have effect := line_effect isLine defined
  generalize draft.line line = after at effect
  cases effect with
  | taken takes => exact absurd takes (rejects labelled defined after)
  | passed => exact same_but_report_refl _
  | @reported diagnostic =>
    obtain ⟨added, blind⟩ := blind_to_log_foldl later labelled
    have full : later.foldl Draft.line (labelled.report diagnostic) = _ :=
      blind (labelled.diagnostics.push diagnostic)
    have cut : later.foldl Draft.line labelled = _ := blind labelled.diagnostics
    rw [full, cut]
    refine ⟨rfl, rfl, rfl, rfl, labelled.diagnostics, #[diagnostic], added, by simp, ?_, rfl⟩
    simp [logging]

/-- The encode pass goes line by line. Tokens behind a line end are encoded as if a new pass started
there from the draft so far; each line defines its labels and then has the whole effect of its
statement or no effect but at most one complaint; and deleting a statement without effect changes
nothing but that complaint. -/
theorem run_line_by_line (draft : Draft) :
    (∀ (first : List Token) (feed : Token) (second : List Token), feed.kind = .newLine →
      (∀ token ∈ first ++ second, token.kind ≠ .endOfInput) →
      draft.run (first ++ [feed] ++ second) = (draft.run (first ++ [feed])).run second) ∧
    (∀ line, Token.IsLine line →
      ∃ labelled, draft.Labels (Token.labels line) labelled ∧ labelled.Effect line (draft.run line)) ∧
    ∀ (tokens : List Token) (earlier : List (List Token)) (line : List Token)
      (later : List (List Token)), (∀ token ∈ tokens, token.kind ≠ .endOfInput) →
      Token.lines tokens = earlier ++ line :: later → (draft.run earlier.flatten).Rejects line →
      (draft.run tokens).SameButReport
        (draft.run (earlier ++ Token.withoutStatement line :: later).flatten) := by
  refine ⟨?_, ?_, ?_⟩
  · intro first feed second ends inside
    obtain ⟨insideFirst, insideSecond⟩ := List.forall_mem_append.mp inside
    have insideLine : ∀ token ∈ first ++ [feed], token.kind ≠ .endOfInput :=
      List.forall_mem_append.mpr ⟨insideFirst, by simp [ends]⟩
    have insideWhole : ∀ token ∈ first ++ [feed] ++ second, token.kind ≠ .endOfInput :=
      List.forall_mem_append.mpr ⟨insideLine, insideSecond⟩
    rw [run_eq_foldl insideWhole, run_eq_foldl insideLine, run_eq_foldl insideSecond,
      Token.lines_append_feed ends, List.foldl_append]
  · intro line isLine
    obtain ⟨labelled, defined⟩ := draft.exists_labels (@Token.is_label_of_mem_labels line)
    rw [run_line isLine]
    exact ⟨labelled, defined, line_effect isLine defined⟩
  · intro tokens earlier line later inside found rejects
    have areLines := Token.are_lines_lines inside
    rw [found] at areLines
    rw [run_flatten (Token.are_lines_earlier areLines)] at rejects
    rw [run_eq_foldl inside, found, run_flatten (Token.are_lines_without_statement areLines),
      List.foldl_append, List.foldl_append, List.foldl_cons, List.foldl_cons]
    exact foldl_without_statement (Token.are_lines_is_line areLines) rejects later

def jumpLine : List Token :=
  [⟨.label "go", ⟨0, 0⟩⟩, ⟨.text "jr", ⟨0, 4⟩⟩, ⟨.text "go", ⟨0, 7⟩⟩, ⟨.newLine, ⟨0, 9⟩⟩]

/-- A label that is taken and a load whose second operand ends too early. -/
def brokenLine : List Token :=
  [⟨.label "go", ⟨1, 0⟩⟩, ⟨.text "ld", ⟨1, 4⟩⟩, ⟨.text "b", ⟨1, 7⟩⟩, ⟨.comma, ⟨1, 8⟩⟩,
    ⟨.leftParen, ⟨1, 9⟩⟩, ⟨.newLine, ⟨1, 10⟩⟩]

def haltLine : List Token :=
  [⟨.text "halt", ⟨2, 0⟩⟩, ⟨.newLine, ⟨2, 4⟩⟩]

theorem rejects_broken : ((start 0).run jumpLine).Rejects brokenLine := by
  intro labelled defined after takes
  have deleted : labelled = ((start 0).run jumpLine).line (Token.withoutStatement brokenLine) :=
    (line_without_statement (@Token.IsLine.closed brokenLine.dropLast _ (by decide) rfl) defined).symm
  have refused : ((((start 0).run jumpLine).line (Token.withoutStatement brokenLine)).statement
      (Cursor.behindLabels brokenLine).peek (Cursor.behindLabels brokenLine).skip).isOk = false := by
    decide +kernel
  rw [← deleted, (takes_iff.mp takes).1] at refused
  cases refused

/-- A jump is taken as a whole; of the load behind it nothing is left but a complaint. -/
theorem run_line_by_line_broken :
    (∃ labelled, (start 0).Labels [⟨.label "go", ⟨0, 0⟩⟩] labelled ∧
      labelled.Effect jumpLine ((start 0).run jumpLine)) ∧
    ((start 0).run jumpLine).code = #[0x18, 0xFE] ∧
    ((start 0).run jumpLine).patches = #[⟨"go", 1, .relative, -2, ⟨0, 7⟩⟩] ∧
    ((start 0).run jumpLine).lines = #[⟨0, 0, 0, 2⟩] ∧
    ((start 0).run (jumpLine ++ brokenLine ++ haltLine)).SameButReport
      ((start 0).run (jumpLine ++ Token.withoutStatement brokenLine ++ haltLine)) ∧
    ((start 0).run (jumpLine ++ brokenLine ++ haltLine)).code = #[0x18, 0xFE, 0x76] ∧
    ((start 0).run (jumpLine ++ brokenLine ++ haltLine)).diagnostics.size = 2 := by
  obtain ⟨-, effects, deletes⟩ := run_line_by_line (start 0)
  refine ⟨?_, by decide +kernel, by decide +kernel, by decide +kernel, ?_, by decide +kernel,
    by decide +kernel⟩
  · exact effects jumpLine (@Token.IsLine.closed jumpLine.dropLast _ (by decide) rfl)
  · exact deletes (jumpLine ++ brokenLine ++ haltLine) [jumpLine] brokenLine [haltLine] (by decide)
      (by decide) rejects_broken

end Draft

end Z80Toolchain
