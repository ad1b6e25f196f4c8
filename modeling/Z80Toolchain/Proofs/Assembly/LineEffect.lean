import Z80Toolchain.Proofs.Assembly.Appending
import Z80Toolchain.Proofs.Assembly.LineFold

/-!
What one line does. Its labels are defined, or reported if their names are taken; then its statement
has its whole effect, or no effect but at most one complaint about the line.
-/
namespace Z80Toolchain

/-! ### Parts of a line -/

namespace Token

def isLabel (token : Token) : Bool :=
  match token.kind with
  | .label _ => true
  | _ => false

def labels (line : List Token) : List Token :=
  line.takeWhile isLabel

def statement (line : List Token) : List Token :=
  (line.dropWhile isLabel).takeWhile fun token => !token.kind.endsLine

/-- The line with the tokens of its statement deleted. -/
def withoutStatement (line : List Token) : List Token :=
  labels line ++ (line.dropWhile isLabel).dropWhile fun token => !token.kind.endsLine

theorem is_label_eq_true {token : Token} (label : token.isLabel = true) :
    ∃ name, token.kind = .label name := by
  unfold isLabel at label
  split at label
  · next name kind => exact ⟨name, kind⟩
  · cases label

theorem is_label_of_mem_labels {line : List Token} :
    ∀ token ∈ labels line, token.isLabel = true := by
  have all : (labels line).all isLabel = true := List.all_takeWhile
  simpa using all

/-- The end of a line: a line feed, or nothing in the last line. -/
inductive IsEnding : List Token → Prop
  | none : IsEnding []
  | feed {feed : Token} (ends : feed.kind = .newLine) : IsEnding [feed]

theorem is_line_split {line : List Token} (isLine : IsLine line) : ∃ body ending,
    line = body ++ ending ∧ (∀ token ∈ body, token.kind.endsLine = false) ∧ IsEnding ending := by
  cases isLine with
  | unclosed plain => exact ⟨line, [], by simp, plain, .none⟩
  | @closed body feed plain ends => exact ⟨body, [feed], rfl, plain, .feed ends⟩

section

variable {body ending : List Token} (ends : IsEnding ending)

include ends

theorem labels_append : labels (body ++ ending) = labels body := by
  have stop : labels ending = [] := by
    cases ends with
    | none => rfl
    | feed ends => simp [labels, isLabel, ends]
  unfold labels at stop ⊢
  rw [List.takeWhile_append, stop]
  split
  · next whole => rw [List.append_nil, (List.takeWhile_prefix isLabel).eq_of_length whole]
  · rfl

theorem drop_while_is_label_append :
    (body ++ ending).dropWhile isLabel = body.dropWhile isLabel ++ ending := by
  have cut : labels (body ++ ending) = labels body := labels_append ends
  have whole : labels (body ++ ending) ++ (body ++ ending).dropWhile isLabel = body ++ ending :=
    List.takeWhile_append_dropWhile
  have parts : labels body ++ body.dropWhile isLabel = body := List.takeWhile_append_dropWhile
  have same : labels body ++ (body ++ ending).dropWhile isLabel =
      labels body ++ (body.dropWhile isLabel ++ ending) := by
    rw [← cut, whole, cut, ← List.append_assoc, parts]
  exact List.append_cancel_left same

variable (plain : ∀ token ∈ body, token.kind.endsLine = false)

include plain

theorem statement_append : statement (body ++ ending) = body.dropWhile isLabel := by
  have inside : ∀ token ∈ body.dropWhile isLabel, (!token.kind.endsLine) = true := by
    intro token member
    rw [plain token ((List.dropWhile_subset isLabel) member)]
    rfl
  rw [statement, drop_while_is_label_append ends, List.takeWhile_append_of_pos inside]
  cases ends with
  | none => simp
  | feed ends => simp [ends, Kind.endsLine]

theorem without_statement_append : withoutStatement (body ++ ending) = labels body ++ ending := by
  have inside : ∀ token ∈ body.dropWhile isLabel, (!token.kind.endsLine) = true := by
    intro token member
    rw [plain token ((List.dropWhile_subset isLabel) member)]
    rfl
  rw [withoutStatement, labels_append ends, drop_while_is_label_append ends,
    List.dropWhile_append_of_pos inside]
  cases ends with
  | none => simp
  | feed ends => simp [ends, Kind.endsLine]

end

theorem is_ending_of_statement_nil {line : List Token} (isLine : IsLine line)
    (empty : statement line = []) : IsEnding (line.dropWhile isLabel) := by
  obtain ⟨body, ending, rfl, plain, ends⟩ := is_line_split isLine
  rw [statement_append ends plain] at empty
  rwa [drop_while_is_label_append ends, empty, List.nil_append]

theorem exists_of_statement_cons {line : List Token} {head : Token} {body : List Token}
    (stated : statement line = head :: body) :
    (∃ more, line.dropWhile isLabel = head :: more) ∧ head.kind.endsLine = false ∧
      ∀ name, head.kind ≠ .label name := by
  cases rest : line.dropWhile isLabel with
  | nil => simp [statement, rest] at stated
  | cons first more =>
    rw [statement, rest, List.takeWhile_cons] at stated
    split at stated
    · next plain =>
      cases stated
      refine ⟨⟨more, rfl⟩, by simpa using plain, ?_⟩
      intro name kind
      have some : line.dropWhile isLabel ≠ [] := by simp [rest]
      have unlabelled := List.head_dropWhile_not isLabel some
      simp [rest, isLabel, kind] at unlabelled
    · cases stated

/-- A bad token is no label and no line end. -/
theorem mem_statement_of_bad {line : List Token} (isLine : IsLine line) {token : Token}
    (member : token ∈ line) (bad : token.IsBad) : token ∈ statement line := by
  obtain ⟨text, kind⟩ := bad
  obtain ⟨body, ending, rfl, plain, ends⟩ := is_line_split isLine
  rw [statement_append ends plain]
  rcases List.mem_append.mp member with early | last
  · rw [← @List.takeWhile_append_dropWhile _ isLabel body] at early
    rcases List.mem_append.mp early with label | stated
    · obtain ⟨name, other⟩ := is_label_eq_true (is_label_of_mem_labels token label)
      simp [kind] at other
    · exact stated
  · cases ends with
    | none => simp at last
    | feed ends =>
      obtain rfl := List.mem_singleton.mp last
      simp [kind] at ends

end Token

def Cursor.behindLabels (line : List Token) : Cursor :=
  ⟨line.dropWhile Token.isLabel, (ofTokens line).final⟩

/-! ### Effects -/

namespace Draft

def withSymbol (draft : Draft) (symbol : Symbol) : Draft :=
  { draft with symbols := ⟨draft.symbols.entries ++ [symbol]⟩ }

/-- Labels are defined one after another, each as the last byte before it; a name that is taken is
reported. -/
inductive Labels : Draft → List Token → Draft → Prop
  | nil (draft : Draft) : Labels draft [] draft
  | define {draft after : Draft} {token : Token} {name : String} {rest : List Token}
      (kind : token.kind = .label name) (fresh : draft.symbols.find? name = none)
      (later : Labels (draft.withSymbol
        ⟨name, .label, Address.wrapped (draft.address - 1), token.position⟩) rest after) :
      Labels draft (token :: rest) after
  | report {draft after : Draft} {token : Token} {name : String} {rest : List Token}
      (kind : token.kind = .label name) (taken : draft.symbols.find? name ≠ none)
      (later : Labels (draft.report (.atToken token (.redefinedSymbol name))) rest after) :
      Labels draft (token :: rest) after

/-- The whole effect of the statement at the cursor: one variable, or the bytes, the patches and the
line of one instruction. -/
inductive Takes (draft : Draft) (cursor : Cursor) : Draft → Prop
  | constant {name : String} {number : Int} {rest : Cursor} (kind : cursor.peek.kind = .atName name)
      (read : Expression.parse draft.symbols false cursor.skip = (.ok (.value number), rest))
      (ends : rest.atLineEnd = true) (fresh : draft.symbols.find? name = none) :
      Takes draft cursor (draft.withSymbol ⟨name, .constant, number, cursor.peek.position⟩)
  | code {statement : Statement} {rest : Cursor} {after : Draft}
      (read : Statement.parse draft.symbols cursor.peek cursor.skip = (.ok statement, rest))
      (ends : rest.atLineEnd = true) (fits : draft.limit statement.encoding ≤ Address.space)
      (appends : draft.Appends cursor.peek statement.encoding after) : Takes draft cursor after

end Draft

def Diagnostic.redefinesLabel (diagnostic : Diagnostic) : Bool :=
  match diagnostic.cause, diagnostic.token with
  | .redefinedSymbol _, some (.label _) => true
  | _, _ => false

namespace Draft

/-- What the statement of a line can do to a draft that has the labels of the line. -/
inductive Effect (draft : Draft) (line : List Token) : Draft → Prop
  | taken {after : Draft} (takes : draft.Takes (.behindLabels line) after)
      (sound : ∀ token ∈ line, ¬ token.IsBad) : Effect draft line after
  | passed (refused : ∀ after, ¬ draft.Takes (.behindLabels line) after)
      (idle : Token.statement line = [] ∨ ∃ token ∈ line, token.IsBad) : Effect draft line draft
  | reported {diagnostic : Diagnostic} (refused : ∀ after, ¬ draft.Takes (.behindLabels line) after)
      (here : ∃ token ∈ line, diagnostic.position = token.position)
      (other : diagnostic.redefinesLabel = false) (first : diagnostic.isFollowUp = false) :
      Effect draft line (draft.report diagnostic)

/-! ### Labels -/

section

variable {draft : Draft} {token : Token} {name : String}

theorem label_of_fresh (fresh : draft.symbols.find? name = none) :
    draft.label token name =
      draft.withSymbol
        ⟨name, .label, Address.wrapped (draft.address - 1), token.position⟩ := by
  simp only [label, Symbols.define, fresh, withSymbol]

theorem label_of_taken (taken : draft.symbols.find? name ≠ none) :
    draft.label token name = draft.report (.atToken token (.redefinedSymbol name)) := by
  obtain ⟨symbol, found⟩ := Option.ne_none_iff_exists'.mp taken
  simp only [label, Symbols.define, found]

end

theorem exists_labels (draft : Draft) {tokens : List Token}
    (labels : ∀ token ∈ tokens, token.isLabel = true) : ∃ labelled, draft.Labels tokens labelled := by
  induction tokens generalizing draft with
  | nil => exact ⟨draft, .nil draft⟩
  | cons token rest induction =>
    obtain ⟨here, later⟩ := List.forall_mem_cons.mp labels
    obtain ⟨name, kind⟩ := Token.is_label_eq_true here
    by_cases fresh : draft.symbols.find? name = none
    · obtain ⟨labelled, labels⟩ := induction _ later
      exact ⟨labelled, .define kind fresh labels⟩
    · obtain ⟨labelled, labels⟩ := induction _ later
      exact ⟨labelled, .report kind fresh labels⟩

theorem line_from_labels {draft labelled : Draft} {labels : List Token}
    (defined : draft.Labels labels labelled) (final : Position) (rest : List Token) :
    draft.lineFrom final (labels ++ rest) = labelled.lineFrom final rest := by
  induction defined with
  | nil draft => rfl
  | define kind fresh later induction =>
    rw [List.cons_append, lineFrom]
    simp only [kind]
    rw [label_of_fresh fresh, induction]
  | report kind taken later induction =>
    rw [List.cons_append, lineFrom]
    simp only [kind]
    rw [label_of_taken taken, induction]

/-! ### Statements -/

theorem takes_of_constant {draft after : Draft} {cursor : Cursor} {name : String}
    (kind : cursor.peek.kind = .atName name)
    (accepted : draft.constant cursor.peek name cursor.skip = .ok after) :
    draft.Takes cursor after := by
  unfold constant at accepted
  split at accepted
  · cases accepted
  · cases accepted
  · next number rest read =>
    unfold endOfLine at accepted
    by_cases ends : rest.atLineEnd = true
    · rw [if_pos ends] at accepted
      cases found : draft.symbols.find? name with
      | none =>
        simp only [Symbols.define, found] at accepted
        cases accepted
        exact .constant kind read ends found
      | some symbol =>
        simp only [Symbols.define, found] at accepted
        cases accepted
    · rw [if_neg ends] at accepted
      cases accepted

theorem takes_of_instruction {draft after : Draft} {cursor : Cursor}
    (accepted : draft.instruction cursor.peek cursor.skip = .ok after) :
    draft.Takes cursor after := by
  cases read : Statement.parse draft.symbols cursor.peek cursor.skip with
  | mk result rest =>
  cases result with
  | error diagnostic =>
    simp only [instruction, read] at accepted
    cases accepted
  | ok statement =>
    rw [instruction_of_read read] at accepted
    by_cases ends : rest.atLineEnd = true
    · rw [if_pos ends] at accepted
      by_cases fits : draft.limit statement.encoding ≤ Address.space
      · rw [append_of_fits fits] at accepted
        cases accepted
        exact .code read ends fits ((appends_iff read).mpr rfl)
      · rw [append_of_exceeds fits] at accepted
        cases accepted
    · rw [if_neg ends] at accepted
      cases accepted

/-- A statement is accepted with its whole effect. -/
theorem takes_iff {draft after : Draft} {cursor : Cursor} :
    draft.Takes cursor after ↔
      draft.statement cursor.peek cursor.skip = .ok after ∧ ¬ cursor.peek.IsBad := by
  constructor
  · intro takes
    cases takes with
    | constant kind read ends fresh =>
      refine ⟨?_, by simp [Token.IsBad, kind]⟩
      simp only [statement, kind, constant, read, endOfLine, ends, Symbols.define, fresh]
      rfl
    | @code found rest after read ends fits appends =>
      rw [(appends_iff read).mp appends]
      cases kind : cursor.peek.kind with
      | text name =>
        refine ⟨?_, by simp [Token.IsBad, kind]⟩
        simp only [statement, kind]
        rw [instruction_of_read read, if_pos ends, append_of_fits fits]
      | _ =>
        simp only [Statement.parse, kind] at read
        cases read
  · rintro ⟨accepted, sound⟩
    unfold statement at accepted
    split at accepted
    · next name kind => exact takes_of_constant kind accepted
    · exact takes_of_instruction accepted
    · next text kind => exact absurd ⟨text, kind⟩ sound
    · cases accepted

/-- A statement that is accepted is not complained about. -/
theorem diagnostics_of_accepted {draft after : Draft} {head : Token} {cursor : Cursor}
    (accepted : draft.statement head cursor = .ok after) : after.diagnostics = draft.diagnostics := by
  by_cases bad : head.IsBad
  · obtain ⟨text, kind⟩ := bad
    simp only [statement, kind] at accepted
    cases accepted
    rfl
  · have takes : draft.Takes ⟨head :: cursor.ahead, cursor.final⟩ after :=
      takes_iff.mpr ⟨accepted, bad⟩
    cases takes with
    | constant kind read ends fresh => rfl
    | code read ends fits appends => exact appends.diagnostics

end Draft

/-! ### Lines -/

theorem Cursor.exists_final {line : List Token} (some : line ≠ []) :
    ∃ token ∈ line, (ofTokens line).final = token.position := by
  refine ⟨line.getLast some, List.getLast_mem some, ?_⟩
  simp [ofTokens, List.getLast?_eq_some_getLast some]

/-- Complaints about a statement are about tokens of its line, or about the end behind them. -/
theorem Cursor.mem_scope {line : List Token} {head : Token} {more : List Token}
    (inside : ∀ token ∈ head :: more, token ∈ line) {token : Token}
    (member : token ∈ scope ⟨more, (ofTokens line).final⟩ head) :
    token ∈ line ∨ token.kind = .endOfInput ∧ ∃ other ∈ line, token.position = other.position := by
  let cursor : Cursor := ⟨more, (ofTokens line).final⟩
  have cases : token = head ∨ token ∈ cursor.lineAhead ∨ token = cursor.skipLine.blamed := by
    simpa [scope, or_assoc] using member
  rcases cases with rfl | ahead | rfl
  · exact .inl (inside _ List.mem_cons_self)
  · exact .inl (inside _ (List.mem_cons_of_mem _ ((List.takeWhile_subset _) ahead)))
  · unfold blamed
    split
    · have some : line ≠ [] := List.ne_nil_of_mem (inside head List.mem_cons_self)
      exact .inr ⟨rfl, exists_final some⟩
    · next known =>
      left
      cases behind : cursor.skipLine.ahead with
      | nil => simp [peek, behind] at known
      | cons next rest =>
        have found : next ∈ cursor.skipLine.ahead := by simp [behind]
        have here : cursor.skipLine.peek = next := by simp [peek, behind]
        rw [here]
        exact inside next (List.mem_cons_of_mem _ ((List.dropWhile_subset _) found))

theorem Diagnostic.Blames.redefines_label_eq_false {scope : List Token} {diagnostic : Diagnostic}
    (blames : diagnostic.Blames scope) : diagnostic.redefinesLabel = false := by
  obtain ⟨token, -, cause, rfl, apart | ⟨name, kind, rfl⟩⟩ := blames
  · unfold redefinesLabel
    split
    · next name label redefined token =>
      have same : cause = .redefinedSymbol name := redefined
      simp [same, Cause.concernsSymbol] at apart
    · rfl
  · simp [redefinesLabel, Diagnostic.atToken, kind]

namespace Draft

theorem not_takes_of_ends {draft : Draft} {cursor : Cursor}
    (ends : cursor.peek.kind.endsLine = true) (after : Draft) : ¬ draft.Takes cursor after := by
  intro takes
  have accepted := (takes_iff.mp takes).1
  rcases (by simpa [Token.Kind.endsLine] using ends) with feed | final
  · simp [statement, feed] at accepted
  · simp [statement, final] at accepted

theorem not_takes_of_statement_nil {draft : Draft} {line : List Token}
    (empty : Token.statement line = []) (after : Draft) :
    ¬ draft.Takes (.behindLabels line) after := by
  apply not_takes_of_ends
  unfold Cursor.behindLabels
  unfold Token.statement at empty
  cases rest : line.dropWhile Token.isLabel with
  | nil => rfl
  | cons head more =>
    rw [rest, List.takeWhile_cons] at empty
    simpa using empty

/-- A statement that is accepted starts on its line. -/
theorem Takes.head?_statement {draft after : Draft} {line : List Token}
    (takes : draft.Takes (.behindLabels line) after) :
    (Token.statement line).head? = some (Cursor.behindLabels line).peek := by
  cases stated : Token.statement line with
  | nil => exact absurd takes (not_takes_of_statement_nil stated after)
  | cons head body =>
    obtain ⟨⟨more, rest⟩, -, -⟩ := Token.exists_of_statement_cons stated
    simp [Cursor.peek, Cursor.behindLabels, rest]

theorem Takes.peek_mem {draft after : Draft} {line : List Token}
    (takes : draft.Takes (.behindLabels line) after) : (Cursor.behindLabels line).peek ∈ line := by
  have stated := List.mem_of_mem_head? takes.head?_statement
  exact (List.dropWhile_subset Token.isLabel) ((List.takeWhile_subset _) stated)

theorem try_statement_effect (draft : Draft) {line : List Token} (isLine : Token.IsLine line)
    {head : Token} {more : List Token} (rest : line.dropWhile Token.isLabel = head :: more)
    (plain : head.kind.endsLine = false) :
    draft.Effect line (draft.tryStatement head ⟨more, (Cursor.ofTokens line).final⟩) := by
  let cursor : Cursor := ⟨more, (Cursor.ofTokens line).final⟩
  have start : Cursor.behindLabels line = ⟨head :: more, (Cursor.ofTokens line).final⟩ := by
    rw [Cursor.behindLabels, rest]
  have inside : ∀ token ∈ head :: more, token ∈ line := by
    rw [← rest]
    exact fun token member => (List.dropWhile_subset _) member
  have takes (after : Draft) : draft.Takes (.behindLabels line) after ↔
      draft.statement head cursor = .ok after ∧ ¬ head.IsBad := by
    rw [start]
    exact takes_iff
  obtain ⟨result, left, reads⟩ := draft.reads_cursor head cursor
  have same := (reads.run cursor.skipLine (Cursor.looks_like_refl _)).1
  rw [cursor.before_line_ahead] at same
  unfold tryStatement
  cases result with
  | ok after =>
    rw [same]
    by_cases bad : head.IsBad
    · obtain ⟨text, kind⟩ := bad
      have unchanged : after = draft := by
        simpa [statement, kind] using same.symm
      rw [unchanged]
      apply Effect.passed
      · intro after accepted
        exact ((takes after).mp accepted).2 ⟨text, kind⟩
      · exact .inr ⟨head, inside head List.mem_cons_self, text, kind⟩
    · apply Effect.taken ((takes after).mpr ⟨same, bad⟩)
      have ahead : ∀ token ∈ cursor.lineAhead, ¬ token.IsBad := reads.sound after rfl bad
      have statement : Token.statement line = head :: cursor.lineAhead := by
        rw [Token.statement, rest, List.takeWhile_cons_of_pos (by simpa using plain)]
        rfl
      intro token member bad
      have stated := Token.mem_statement_of_bad isLine member bad
      rw [statement] at stated
      rcases List.mem_cons.mp stated with rfl | early
      · contradiction
      · exact ahead token early bad
  | error diagnostic =>
    rw [same]
    have blames := reads.blames diagnostic rfl
    have refused (after : Draft) : ¬ draft.Takes (.behindLabels line) after := by
      intro accepted
      have known := ((takes after).mp accepted).1
      rw [same] at known
      cases known
    dsimp only
    split
    · next followUp =>
      apply Effect.passed refused
      obtain ⟨token, member, cause, rfl, -⟩ := blames
      rcases Cursor.mem_scope inside member with here | ⟨final, -⟩
      · refine .inr ⟨token, here, ?_⟩
        simp only [Diagnostic.isFollowUp, Diagnostic.atToken] at followUp
        split at followUp
        · next text kind => exact ⟨text, Option.some.inj kind⟩
        · cases followUp
      · simp [Diagnostic.isFollowUp, Diagnostic.atToken, final] at followUp
    · next first =>
      apply Effect.reported refused _ blames.redefines_label_eq_false (by simpa using first)
      obtain ⟨token, member, cause, rfl, -⟩ := blames
      rcases Cursor.mem_scope inside member with here | ⟨-, other, found, placed⟩
      · exact ⟨token, here, rfl⟩
      · exact ⟨other, found, placed⟩

theorem line_labels {draft labelled : Draft} {line : List Token}
    (defined : draft.Labels (Token.labels line) labelled) :
    draft.line line =
      labelled.lineFrom (Cursor.ofTokens line).final (line.dropWhile Token.isLabel) := by
  rw [← line_from_labels defined, Token.labels, List.takeWhile_append_dropWhile]
  rfl

theorem line_effect {draft labelled : Draft} {line : List Token} (isLine : Token.IsLine line)
    (defined : draft.Labels (Token.labels line) labelled) :
    labelled.Effect line (draft.line line) := by
  rw [line_labels defined]
  cases stated : Token.statement line with
  | nil =>
    have ends := Token.is_ending_of_statement_nil isLine stated
    have idle : labelled.lineFrom (Cursor.ofTokens line).final (line.dropWhile Token.isLabel) =
        labelled := by
      generalize line.dropWhile Token.isLabel = rest at ends
      cases ends with
      | none => rfl
      | feed ends => simp [lineFrom, ends]
    rw [idle]
    exact .passed (not_takes_of_statement_nil stated) (.inl stated)
  | cons head body =>
    obtain ⟨⟨more, rest⟩, plain, other⟩ := Token.exists_of_statement_cons stated
    rw [rest, line_from_statement labelled plain other]
    exact labelled.try_statement_effect isLine rest plain

end Draft

end Z80Toolchain
