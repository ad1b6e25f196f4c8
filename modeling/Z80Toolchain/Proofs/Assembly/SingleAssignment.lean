import Z80Toolchain.Proofs.Assembly.Relocation
import Z80Toolchain.Proofs.Assembly.Reporting
import Z80Toolchain.Proofs.Assembly.VariableUses

/-!
Symbols are assigned once. A source asks for symbols in the order of its text: every label in front
of a statement asks for one, and so does every line that gives a variable the value of an expression.
The first request for a name is accepted and adds its symbol to the table; every later one, of
whichever kind, is reported where it stands and changes no entry. A line sees the variables that have
been accepted on earlier lines, and no labels.
-/
namespace Z80Toolchain

/-! ### Requests -/

/-- The token that asks for a symbol, and the symbol that it asks for. -/
structure Request where
  token : Token
  symbol : Symbol

namespace Request

def name (request : Request) : String :=
  request.symbol.name

def complaint (request : Request) : Diagnostic :=
  .atToken request.token (.redefinedSymbol request.name)

def select (again : Bool) (asked : List String) : List Request → List Request
  | [] => []
  | request :: rest =>
    let others := select again (request.name :: asked) rest
    if decide (request.name ∈ asked) = again then request :: others else others

def accepted (requests : List Request) : List Request :=
  select false [] requests

def refused (requests : List Request) : List Request :=
  select true [] requests

def value? (requests : List Request) (name : String) : Option Int :=
  ((accepted requests).find? fun request =>
    request.name == name && request.symbol.kind == .constant).map fun request => request.symbol.value

/-- A label at an address stands for the last byte before it. -/
def ofLabel (address : Int) (token : Token) (name : String) : Request :=
  ⟨token, ⟨name, .label, Address.wrapped (address - 1), token.position⟩⟩

def ofLabels (address : Int) (labels : List Token) : List Request :=
  labels.filterMap fun token =>
    match token.kind with
    | .label name => some (ofLabel address token name)
    | _ => none

end Request

namespace Draft

/-- The line gives a variable the value of an expression. -/
inductive Assigns (draft : Draft) (line : List Token) : Request → Prop
  | assignment {head : Token} {body : List Token} {name : String} {number : Int}
      (stated : Token.statement line = head :: body) (named : head.kind = .atName name)
      (sums : Expression.Sums draft.symbols false body (.value number)) :
      Assigns draft line ⟨head, ⟨name, .constant, number, head.position⟩⟩

/-- The requests of a line: those of its labels, and one more if it assigns. -/
inductive LineAsks (draft : Draft) (line : List Token) : List Request → Prop
  | labels (unassigned : ∀ request, ¬ draft.Assigns line request) :
      LineAsks draft line (Request.ofLabels draft.address (Token.labels line))
  | assignment {request : Request} (assigns : draft.Assigns line request) :
      LineAsks draft line (Request.ofLabels draft.address (Token.labels line) ++ [request])

/-- The requests of lines one after another, each in the draft that the earlier ones leave. -/
inductive Asks : Draft → List (List Token) → List Request → Prop
  | nil (draft : Draft) : Asks draft [] []
  | cons {draft : Draft} {line : List Token} {lines : List (List Token)} {first rest : List Request}
      (here : draft.LineAsks line first) (later : Asks (draft.line line) lines rest) :
      Asks draft (line :: lines) (first ++ rest)

end Draft

def Diagnostic.redefines (diagnostic : Diagnostic) : Bool :=
  match diagnostic.cause with
  | .redefinedSymbol _ => true
  | _ => false

theorem Diagnostic.redefines_of_apart {diagnostic : Diagnostic}
    (apart : diagnostic.cause.concernsSymbol = false) : diagnostic.redefines = false := by
  unfold redefines
  split
  · next name redefined =>
    rw [redefined] at apart
    cases apart
  · rfl

/-! ### First requests -/

namespace Request

theorem mem_names_select {asked : List String} {requests : List Request} {name : String} :
    name ∈ (select false asked requests).map Request.name ↔
      name ∈ requests.map Request.name ∧ name ∉ asked := by
  induction requests generalizing asked with
  | nil => simp [select]
  | cons request rest induction =>
    by_cases old : request.name ∈ asked
    · simp only [select, old, decide_true, Bool.true_eq_false, if_false, induction]
      grind
    · simp only [select, old, decide_false, if_true, List.map_cons, List.mem_cons, induction]
      grind

/-- No name is accepted twice. -/
theorem nodup_names_select (asked : List String) (requests : List Request) :
    ((select false asked requests).map Request.name).Nodup := by
  induction requests generalizing asked with
  | nil => exact List.nodup_nil
  | cons request rest induction =>
    by_cases old : request.name ∈ asked
    · simpa [select, old] using induction (request.name :: asked)
    · simp only [select, old, decide_false, if_true, List.map_cons, List.nodup_cons]
      refine ⟨?_, induction _⟩
      intro again
      exact (mem_names_select.mp again).2 List.mem_cons_self

theorem select_concat (again : Bool) (asked : List String) (requests : List Request)
    (request : Request) :
    select again asked (requests ++ [request]) = select again asked requests ++
      if decide (request.name ∈ requests.map Request.name ++ asked) = again then [request] else [] := by
  induction requests generalizing asked with
  | nil => simp [select]
  | cons first rest induction =>
    have same : request.name ∈ rest.map Request.name ++ first.name :: asked ↔
        request.name ∈ (first :: rest).map Request.name ++ asked := by
      simp [or_left_comm]
    rw [List.cons_append, select, select, induction]
    simp only [same]
    split <;> rfl

section

variable {requests : List Request} {request : Request}

theorem concat_of_new (new : request.name ∉ requests.map Request.name) :
    accepted (requests ++ [request]) = accepted requests ++ [request] ∧
      refused (requests ++ [request]) = refused requests := by
  simp only [accepted, refused, select_concat, List.append_nil, new, decide_false,
    Bool.false_eq_true, if_false, if_true, and_self]

theorem concat_of_old (old : request.name ∈ requests.map Request.name) :
    accepted (requests ++ [request]) = accepted requests ∧
      refused (requests ++ [request]) = refused requests ++ [request] := by
  simp only [accepted, refused, select_concat, List.append_nil, old, decide_true,
    Bool.true_eq_false, if_false, if_true, and_self]

end

theorem of_labels_cons {token : Token} {name : String} (kind : token.kind = .label name)
    (address : Int) (rest : List Token) :
    ofLabels address (token :: rest) = ofLabel address token name :: ofLabels address rest := by
  simp [ofLabels, kind]

end Request

/-- Looking up a variable by its name alone and then its kind finds it by both, since no name stands
twice. -/
theorem Symbols.constant?_of_accepted {symbols : Symbols} {requests : List Request}
    (entries : symbols.entries = (Request.accepted requests).map Request.symbol) :
    symbols.constant? = Request.value? requests := by
  funext name
  have distinct := Request.nodup_names_select [] requests
  unfold constant? find? Request.value?
  rw [entries, Request.accepted]
  generalize Request.select false [] requests = accepted at distinct
  induction accepted with
  | nil => rfl
  | cons request rest induction =>
    rw [List.map_cons, List.nodup_cons] at distinct
    obtain ⟨alone, others⟩ := distinct
    have later := induction others
    by_cases same : request.name = name
    · have none : rest.find? (fun request => request.name == name &&
          request.symbol.kind == .constant) = none := by
        rw [List.find?_eq_none]
        intro other member found
        simp only [Bool.and_eq_true, beq_iff_eq] at found
        exact alone (same ▸ found.1 ▸ List.mem_map_of_mem member)
      have here : request.symbol.name = name := same
      by_cases constant : request.symbol.kind = .constant <;>
        simp [here, same, constant, none]
    · have other : ¬ request.symbol.name = name := same
      simpa [other, same] using later

/-! ### One request -/

namespace Draft

/-- The draft has the symbols of the accepted requests and a complaint about each refused one. -/
structure Answers (draft : Draft) (requests : List Request) : Prop where
  entries : draft.symbols.entries = (Request.accepted requests).map Request.symbol
  complaints : draft.diagnostics.toList.filter Diagnostic.redefines =
    (Request.refused requests).map Request.complaint

namespace Answers

variable {draft : Draft} {requests : List Request} (answers : draft.Answers requests)

include answers

/-- A name is free as long as nobody has asked for it. -/
theorem find?_eq_none_iff {name : String} :
    draft.symbols.find? name = none ↔ name ∉ requests.map Request.name := by
  have asked : name ∈ requests.map Request.name ↔
      name ∈ (Request.accepted requests).map Request.name := by
    simp [Request.accepted, Request.mem_names_select]
  rw [asked, Symbols.find?, answers.entries, List.find?_eq_none]
  simp [Request.name]

theorem define {request : Request} (fresh : draft.symbols.find? request.name = none) :
    (draft.withSymbol request.symbol).Answers (requests ++ [request]) := by
  obtain ⟨accepted, refused⟩ := Request.concat_of_new (answers.find?_eq_none_iff.mp fresh)
  constructor
  · rw [accepted, List.map_append, ← answers.entries]
    rfl
  · rw [refused]
    exact answers.complaints

theorem report_complaint {request : Request} (taken : draft.symbols.find? request.name ≠ none) :
    (draft.report request.complaint).Answers (requests ++ [request]) := by
  have old : request.name ∈ requests.map Request.name :=
    Classical.byContradiction fun new => taken (answers.find?_eq_none_iff.mpr new)
  obtain ⟨accepted, refused⟩ := Request.concat_of_old old
  constructor
  · rw [accepted]
    exact answers.entries
  · rw [refused, List.map_append, ← answers.complaints, report, Array.toList_push,
      List.filter_append]
    rfl

theorem report_apart {diagnostic : Diagnostic} (apart : diagnostic.cause.concernsSymbol = false) :
    (draft.report diagnostic).Answers requests := by
  refine ⟨answers.entries, ?_⟩
  rw [report, Array.toList_push, List.filter_append, answers.complaints,
    List.filter_cons_of_neg (by simp [Diagnostic.redefines_of_apart apart]), List.filter_nil,
    List.append_nil]

end Answers

/-- Labels ask one after another, all at the same address. -/
theorem Answers.labelled {draft labelled : Draft} {requests : List Request} {tokens : List Token}
    (answers : draft.Answers requests) (defined : draft.Labels tokens labelled) :
    labelled.Answers (requests ++ Request.ofLabels draft.address tokens) := by
  induction defined generalizing requests with
  | nil draft => simpa [Request.ofLabels] using answers
  | @define draft after token name rest kind fresh later induction =>
    let request := Request.ofLabel draft.address token name
    have step : (draft.withSymbol request.symbol).Answers (requests ++ [request]) :=
      answers.define fresh
    rw [Request.of_labels_cons kind, List.append_cons]
    exact induction step
  | @report draft after token name rest kind taken later induction =>
    let request := Request.ofLabel draft.address token name
    have step : (draft.report request.complaint).Answers (requests ++ [request]) :=
      answers.report_complaint taken
    rw [Request.of_labels_cons kind, List.append_cons]
    exact induction step

end Draft

/-! ### One statement -/

namespace Expression

variable {symbols : Symbols} {labels : Bool}

theorem Sums.plain {tokens : List Token} {expression : Expression}
    (sums : Sums symbols labels tokens expression) : ∀ token ∈ tokens, token.kind.endsLine = false := by
  intro token member
  have inside := sums.inside token member
  generalize token.kind = kind at inside
  cases kind <;> first | rfl | cases inside

/-- An expression is read up to the end of its line if and only if the tokens there are its sum. -/
theorem read_line_iff {cursor : Cursor} {expression : Expression} :
    (∃ after, parse symbols labels cursor = (.ok expression, after) ∧ after.atLineEnd = true) ↔
      Sums symbols labels cursor.lineAhead expression := by
  constructor
  · rintro ⟨after, read, ends⟩
    obtain ⟨tokens, rfl, sums, -⟩ := sums_of_read read
    rwa [Cursor.line_ahead_before ends sums.plain]
  · intro sums
    have ends := cursor.skip_line_ends
    have stops : cursor.skipLine.peek.kind.sign? = none := by
      generalize cursor.skipLine.peek.kind = kind at ends
      cases kind <;> first | rfl | cases ends
    have read := sums.read stops
    rw [cursor.before_line_ahead] at read
    exact ⟨_, read, ends⟩

theorem sums_iff_read {tokens : List Token} {expression : Expression}
    (plain : ∀ token ∈ tokens, token.kind.endsLine = false) :
    Sums symbols labels tokens expression ↔ ∃ after,
      parse symbols labels ⟨tokens, .start⟩ = (.ok expression, after) ∧ after.atLineEnd = true := by
  have whole := @Cursor.line_ahead_before ⟨[], .start⟩ rfl tokens plain
  rw [Cursor.before, List.append_nil] at whole
  rw [read_line_iff, whole]

/-- Labels do not matter to a sum. -/
theorem Sums.congr {other : Symbols} (same : other.constant? = symbols.constant?)
    {tokens : List Token} {expression : Expression} (sums : Sums symbols labels tokens expression) :
    Sums other labels tokens expression := by
  have plain := sums.plain
  rw [sums_iff_read plain] at sums ⊢
  rwa [parse_congr same]

theorem Sums.unique {tokens : List Token} {first second : Expression}
    (sums : Sums symbols labels tokens first) (again : Sums symbols labels tokens second) :
    first = second := by
  obtain ⟨_, read, -⟩ := (sums_iff_read sums.plain).mp sums
  obtain ⟨_, readAgain, -⟩ := (sums_iff_read sums.plain).mp again
  rw [read] at readAgain
  cases readAgain
  rfl

end Expression

namespace Draft

variable {draft : Draft} {head : Token} {cursor : Cursor}

/-- An assignment is accepted if its name is free, and reported otherwise. -/
theorem statement_assignment {name : String} {number : Int} (named : head.kind = .atName name)
    (sums : Expression.Sums draft.symbols false cursor.lineAhead (.value number)) :
    draft.statement head cursor =
      if draft.symbols.find? name = none then
        .ok (draft.withSymbol ⟨name, .constant, number, head.position⟩)
      else .error (.atToken head (.redefinedSymbol name)) := by
  obtain ⟨after, read, ends⟩ := Expression.read_line_iff.mpr sums
  simp only [statement, named, constant, read, endOfLine, ends, Symbols.define]
  cases draft.symbols.find? name <;> rfl

section

variable (unassigned : ∀ name number, head.kind = .atName name →
  ¬ Expression.Sums draft.symbols false cursor.lineAhead (.value number))

include unassigned

theorem symbols_of_unassigned {after : Draft} (accepted : draft.statement head cursor = .ok after) :
    after.symbols = draft.symbols := by
  by_cases bad : head.IsBad
  · obtain ⟨text, kind⟩ := bad
    simp only [statement, kind] at accepted
    cases accepted
    rfl
  · have takes : draft.Takes ⟨head :: cursor.ahead, cursor.final⟩ after :=
      takes_iff.mpr ⟨accepted, bad⟩
    cases takes with
    | constant kind read ends fresh =>
      exact absurd (Expression.read_line_iff.mp ⟨_, read, ends⟩) (unassigned _ _ kind)
    | code read ends fits appends => exact appends.symbols

theorem apart_of_unassigned {diagnostic : Diagnostic}
    (refused : draft.statement head cursor = .error diagnostic) :
    diagnostic.cause.concernsSymbol = false := by
  unfold statement at refused
  split at refused
  · next name kind =>
    unfold constant at refused
    split at refused
    · next complaint after read =>
      cases refused
      exact (Expression.settles_parse false).refused read
    · next after read =>
      cases refused
      exact congrArg Cause.concernsSymbol (after.cause_complain _)
    · next number after read =>
      have goesOn : ¬ after.atLineEnd = true := fun ends =>
        unassigned name number kind (Expression.read_line_iff.mp ⟨after, read, ends⟩)
      rw [endOfLine, if_neg goesOn] at refused
      cases refused
      exact congrArg Cause.concernsSymbol (after.cause_complain _)
  · rcases read : Statement.parse draft.symbols head cursor with ⟨complaint | found, after⟩
    · simp only [instruction, read] at refused
      cases refused
      exact (Statement.settles_parse draft.symbols head).refused read
    · rw [instruction_of_read read] at refused
      by_cases ends : after.atLineEnd = true
      · rw [if_pos ends] at refused
        by_cases fits : draft.limit found.encoding ≤ Address.space
        · rw [append_of_fits fits] at refused
          cases refused
        · rw [append_of_exceeds fits] at refused
          cases refused
          rfl
      · rw [if_neg ends] at refused
        cases refused
        exact congrArg Cause.concernsSymbol (after.cause_complain _)
  · cases refused
  · cases refused
    rfl

end

/-! ### One line -/

theorem Answers.assignment {requests : List Request} (answers : draft.Answers requests) {name : String}
    {number : Int} (named : head.kind = .atName name)
    (sums : Expression.Sums draft.symbols false cursor.lineAhead (.value number)) :
    (draft.tryStatement head cursor).Answers
      (requests ++ [⟨head, ⟨name, .constant, number, head.position⟩⟩]) := by
  let request : Request := ⟨head, ⟨name, .constant, number, head.position⟩⟩
  unfold tryStatement
  rw [statement_assignment named sums]
  by_cases fresh : draft.symbols.find? name = none
  · have defined : (draft.withSymbol request.symbol).Answers (requests ++ [request]) :=
      answers.define fresh
    rwa [if_pos fresh]
  · have reported : (draft.report request.complaint).Answers (requests ++ [request]) :=
      answers.report_complaint fresh
    have noFollowUp : (Diagnostic.atToken head (.redefinedSymbol name)).isFollowUp = false := by
      simp [Diagnostic.isFollowUp, Diagnostic.atToken, named]
    simp only [if_neg fresh, noFollowUp, Bool.false_eq_true, if_false]
    exact reported

theorem Answers.unassigned {requests : List Request} (answers : draft.Answers requests)
    (unassigned : ∀ name number, head.kind = .atName name →
      ¬ Expression.Sums draft.symbols false cursor.lineAhead (.value number)) :
    (draft.tryStatement head cursor).Answers requests := by
  unfold tryStatement
  cases outcome : draft.statement head cursor with
  | ok after =>
    constructor
    · rw [symbols_of_unassigned unassigned outcome, answers.entries]
    · rw [diagnostics_of_accepted outcome, answers.complaints]
  | error diagnostic =>
    dsimp only
    split
    · exact answers
    · exact answers.report_apart (apart_of_unassigned unassigned outcome)

end Draft

theorem Token.line_ahead_of_statement {line : List Token} {head : Token} {body more : List Token}
    (stated : statement line = head :: body) (rest : line.dropWhile isLabel = head :: more)
    (final : Position) : Cursor.lineAhead ⟨more, final⟩ = body := by
  have plain := (exists_of_statement_cons stated).2.1
  rw [statement, rest, List.takeWhile_cons_of_pos (by simpa using plain)] at stated
  exact (List.cons.inj stated).2

namespace Draft

/-- What a line asks for is answered, and nothing else. -/
theorem Answers.line {draft : Draft} {line : List Token} {requests first : List Request}
    (answers : draft.Answers requests) (isLine : Token.IsLine line)
    (asks : draft.LineAsks line first) :
    (draft.line line).Answers (requests ++ first) := by
  obtain ⟨labelled, defined⟩ := draft.exists_labels (@Token.is_label_of_mem_labels line)
  have opened := answers.labelled defined
  have visible := defined.constant?_eq
  cases stated : Token.statement line with
  | nil =>
    have whole : Token.withoutStatement line = line := by
      rw [Token.withoutStatement, ← List.nil_append (List.dropWhile _ _), ← stated,
        Token.statement, List.takeWhile_append_dropWhile, Token.labels,
        List.takeWhile_append_dropWhile]
    have idle := line_without_statement isLine defined
    rw [whole] at idle
    rw [idle]
    cases asks with
    | labels unassigned => exact opened
    | assignment assigns =>
      obtain ⟨again, -, -⟩ := assigns
      rw [stated] at again
      cases again
  | cons head body =>
    rw [line_labels defined]
    obtain ⟨⟨more, rest⟩, plain, other⟩ := Token.exists_of_statement_cons stated
    have ahead := Token.line_ahead_of_statement stated rest (Cursor.ofTokens line).final
    rw [rest, line_from_statement labelled plain other]
    cases asks with
    | labels unassigned =>
      refine opened.unassigned ?_
      intro name number named sums
      rw [ahead] at sums
      exact unassigned _ (.assignment stated named (sums.congr visible.symm))
    | assignment assigns =>
      obtain ⟨again, named, sums⟩ := assigns
      rw [stated] at again
      cases again
      rw [← List.append_assoc]
      apply opened.assignment named
      rw [ahead]
      exact sums.congr visible

/-! ### All lines -/

theorem Assigns.unique {draft : Draft} {line : List Token} {request other : Request}
    (assigns : draft.Assigns line request) (again : draft.Assigns line other) : request = other := by
  obtain ⟨stated, named, sums⟩ := assigns
  obtain ⟨statedAgain, namedAgain, sumsAgain⟩ := again
  cases stated.symm.trans statedAgain
  cases named.symm.trans namedAgain
  cases sums.unique sumsAgain
  rfl

theorem LineAsks.unique {draft : Draft} {line : List Token} {requests others : List Request}
    (asks : draft.LineAsks line requests) (again : draft.LineAsks line others) :
    requests = others := by
  cases asks with
  | labels unassigned =>
    cases again with
    | labels => rfl
    | assignment assigns => exact absurd assigns (unassigned _)
  | assignment assigns =>
    cases again with
    | labels unassigned => exact absurd assigns (unassigned _)
    | assignment others => rw [assigns.unique others]

theorem Asks.unique {draft : Draft} {lines : List (List Token)} {requests others : List Request}
    (asks : draft.Asks lines requests) (again : draft.Asks lines others) : requests = others := by
  induction asks generalizing others with
  | nil draft =>
    cases again
    rfl
  | cons here later induction =>
    cases again with
    | cons hereAgain laterAgain => rw [here.unique hereAgain, induction laterAgain]

theorem exists_asks (draft : Draft) (lines : List (List Token)) :
    ∃ requests, draft.Asks lines requests := by
  induction lines generalizing draft with
  | nil => exact ⟨[], .nil draft⟩
  | cons line lines induction =>
    obtain ⟨rest, later⟩ := induction (draft.line line)
    by_cases assigned : ∃ request, draft.Assigns line request
    · obtain ⟨request, assigns⟩ := assigned
      exact ⟨_, .cons (.assignment assigns) later⟩
    · exact ⟨_, .cons (.labels fun request assigns => assigned ⟨request, assigns⟩) later⟩

/-- The requests of lines are those of the earlier ones, and then those of the later ones. -/
theorem Asks.split {draft : Draft} {earlier later : List (List Token)} {requests : List Request}
    (asks : draft.Asks (earlier ++ later) requests) : ∃ before after, requests = before ++ after ∧
      draft.Asks earlier before ∧ (earlier.foldl Draft.line draft).Asks later after := by
  induction earlier generalizing draft requests with
  | nil => exact ⟨[], requests, rfl, .nil draft, asks⟩
  | cons line earlier induction =>
    cases asks with
    | cons here rest =>
      obtain ⟨before, after, rfl, asked, left⟩ := induction rest
      exact ⟨_, after, (List.append_assoc _ _ _).symm, .cons here asked, left⟩

/-- Every request of all lines is answered. -/
theorem Answers.foldl {draft : Draft} {lines : List (List Token)} {earlier requests : List Request}
    (answers : draft.Answers earlier) (areLines : ∀ line ∈ lines, Token.IsLine line)
    (asks : draft.Asks lines requests) :
    (lines.foldl Draft.line draft).Answers (earlier ++ requests) := by
  induction asks generalizing earlier with
  | nil draft => rwa [List.append_nil]
  | cons here later induction =>
    obtain ⟨isLine, others⟩ := List.forall_mem_cons.mp areLines
    rw [← List.append_assoc]
    exact induction (answers.line isLine here) others

theorem answers_start (origin : UInt16) : (Draft.start origin).Answers [] :=
  ⟨rfl, rfl⟩

end Draft

/-! ### Variables on a line -/

/-- What a line sees of variables, where `known` gives the values of those that it may use. -/
structure Draft.SeesVariables (draft : Draft) (line : List Token) (known : String → Option Int) :
    Prop where
  -- a use is a term if and only if the variable is known, whatever labels stand on the line
  term : ∀ labelled, draft.Labels (Token.labels line) labelled →
    ∀ (cursor : Cursor) (name : String), cursor.peek.kind = .atName name →
      (Expression.term labelled.symbols cursor).1.toOption = known name
  -- what is accepted could have been written with values
  accepted : ¬ draft.Rejects line → draft.line (Token.valuedLine known line) = draft.line line
  rejected : (∃ name ∈ Token.uses line, known name = none) → draft.Rejects line

theorem Draft.Answers.sees_variables {draft : Draft} {requests : List Request}
    (answers : draft.Answers requests) {line : List Token} (isLine : Token.IsLine line) :
    draft.SeesVariables line (Request.value? requests) := by
  rw [← Symbols.constant?_of_accepted answers.entries]
  refine ⟨?_, fun accepted => (line_valued isLine accepted).1, ?_⟩
  · intro labelled defined cursor name named
    rw [← defined.constant?_eq]
    unfold Expression.term
    simp only [named]
    cases labelled.symbols.constant? name <;> rfl
  · rintro ⟨name, used, missing⟩
    exact Classical.byContradiction fun accepted => known_of_uses isLine accepted used missing

/-! ### Sources -/

/-- Drafts with the same code and symbols are finished with the same code. -/
theorem Draft.SameButReport.finish {full cut : Draft} (same : full.SameButReport cut)
    (expansion : Expansion) :
    (expansion.finish full).code = (expansion.finish cut).code ∧
      (expansion.finish full).symbols = (expansion.finish cut).symbols ∧
      (expansion.finish full).lines = (expansion.finish cut).lines := by
  simp only [Expansion.finish, same.code, same.patches, same.symbols, same.lines, and_self]

namespace Draft

/-- Later lines keep the complaints. -/
theorem mem_foldl_diagnostics {draft : Draft} {diagnostic : Diagnostic}
    (member : diagnostic ∈ draft.diagnostics.toList) (later : List (List Token)) :
    diagnostic ∈ (later.foldl Draft.line draft).diagnostics.toList := by
  obtain ⟨added, blind⟩ := blind_to_log_foldl later draft
  have same : later.foldl Draft.line draft = _ := blind draft.diagnostics
  rw [same]
  simpa [logging] using .inl (by simpa using member)

end Draft

theorem Reference.redefines_complaint? {origin : UInt16} {symbols : Symbols} (fixup : Reference)
    {diagnostic : Diagnostic} (complaint : fixup.complaint? origin symbols = some diagnostic) :
    diagnostic.redefines = false := by
  unfold complaint? at complaint
  split at complaint
  · cases complaint
  · next cause failed =>
    cases complaint
    unfold resolution at failed
    split at failed
    · cases failed
      rfl
    all_goals
      dsimp only at failed
      split at failed <;> cases failed
      rfl

namespace Expansion

variable (expansion : Expansion) (origin : UInt16)

theorem is_line_of_mem_lines : ∀ line ∈ Token.lines expansion.tokens, Token.IsLine line := by
  intro line member
  obtain ⟨number, -, onLine⟩ := expansion.lines_numbered.forall_on_line line member
  exact onLine.is_line

/-- A line that is rejected although it has a statement is complained about. -/
theorem exists_complaint {earlier later : List (List Token)} {line : List Token}
    (split : Token.lines expansion.tokens = earlier ++ line :: later)
    (rejects : (earlier.foldl Draft.line (Draft.start origin)).Rejects line)
    (stated : Token.statement line ≠ []) :
    ∃ diagnostic ∈ (expansion.finish (expansion.draft origin)).diagnostics,
      ∃ token ∈ line, diagnostic.position = token.position := by
  have member : line ∈ Token.lines expansion.tokens := by simp [split]
  let draft := earlier.foldl Draft.line (Draft.start origin)
  obtain ⟨labelled, defined⟩ := draft.exists_labels (@Token.is_label_of_mem_labels line)
  have effect := Draft.line_effect (expansion.is_line_of_mem_lines line member) defined
  have whole : expansion.draft origin = later.foldl Draft.line (draft.line line) := by
    rw [draft_eq_foldl, split, List.foldl_append, List.foldl_cons]
  generalize draft.line line = after at effect whole
  cases effect with
  | taken takes => exact absurd takes (rejects labelled defined _)
  | passed refused idle =>
    rcases idle with empty | ⟨token, inside, text, bad⟩
    · exact absurd empty stated
    · have present := Token.mem_of_mem_lines member inside
      obtain ⟨fault, found, same⟩ := expansion.exists_lexical_fault present bad
      exact ⟨fault, expansion.mem_finish_of_mem_lexical_faults origin found, token, inside, same⟩
  | @reported diagnostic refused here =>
    refine ⟨diagnostic, expansion.mem_finish_of_mem_draft origin ?_, here⟩
    rw [whole]
    exact Draft.mem_foldl_diagnostics (by simp [Draft.report]) later

/-- Only the encode pass complains about names that are taken. -/
theorem finish_redefines (directives : ∀ diagnostic ∈ expansion.diagnostics,
    diagnostic.cause.concernsSymbol = false) :
    ((expansion.finish (expansion.draft origin)).diagnostics.filter Diagnostic.redefines).Perm
      ((expansion.draft origin).diagnostics.toList.filter Diagnostic.redefines) := by
  have none {diagnostics : List Diagnostic}
      (other : ∀ diagnostic ∈ diagnostics, diagnostic.redefines = false) :
      diagnostics.filter Diagnostic.redefines = [] := by
    rw [List.filter_eq_nil_iff]
    intro diagnostic member
    simp [other diagnostic member]
  have patches : ∀ diagnostic ∈ (expansion.fixups origin).filterMap
      (Reference.complaint? origin (expansion.draft origin).symbols),
      diagnostic.redefines = false := by
    intro diagnostic member
    obtain ⟨fixup, -, complaint⟩ := List.mem_filterMap.mp member
    exact fixup.redefines_complaint? complaint
  have all := (expansion.finish_diagnostics origin).filter Diagnostic.redefines
  rwa [List.filter_append, List.filter_append, List.filter_append,
    none fun diagnostic member => Diagnostic.redefines_of_apart (directives diagnostic member),
    none fun diagnostic member =>
      Diagnostic.redefines_of_apart (expansion.lexical_faults_apart diagnostic member),
    none patches, List.append_nil, List.nil_append] at all

end Expansion

/-- Every name is assigned once, by the first of all requests for it, and a variable is seen from the
next line on. -/
structure Assembly.SingleAssignment (assembly : Assembly) (expansion : Expansion) (origin : UInt16)
    (requests : List Request) : Prop where
  asked : ∀ others, (Draft.start origin).Asks (Token.lines expansion.tokens) others ↔
    others = requests
  entries : assembly.symbols.entries = (Request.accepted requests).map Request.symbol
  distinct : (assembly.symbols.entries.map Symbol.name).Nodup
  complaints : (assembly.diagnostics.filter Diagnostic.redefines).Perm
    ((Request.refused requests).map Request.complaint)
  -- in front of every line the earlier ones are answered, and it sees the variables accepted there
  seen : ∀ earlier line later, Token.lines expansion.tokens = earlier ++ line :: later →
    ∃ before after, requests = before ++ after ∧ (Draft.start origin).Asks earlier before ∧
      (earlier.foldl Draft.line (Draft.start origin)).Answers before ∧
      (earlier.foldl Draft.line (Draft.start origin)).SeesVariables line (Request.value? before)
  -- a statement that is rejected could be deleted, but is complained about
  rejected : ∀ earlier line later, Token.lines expansion.tokens = earlier ++ line :: later →
    (earlier.foldl Draft.line (Draft.start origin)).Rejects line → Token.statement line ≠ [] →
    let cut := expansion.finish ((earlier ++ Token.withoutStatement line :: later).foldl Draft.line
      (Draft.start origin))
    (assembly.code = cut.code ∧ assembly.symbols = cut.symbols ∧ assembly.lines = cut.lines) ∧
      ∃ diagnostic ∈ assembly.diagnostics, ∃ token ∈ line, diagnostic.position = token.position

/-- Symbols are assigned once, and variables are read in the order of the text. -/
theorem assemble_single_assignment (origin : UInt16) (source : List Char) : ∃ requests,
    (assemble origin source).SingleAssignment (Expansion.ofSource source) origin requests := by
  let expansion := Expansion.ofSource source
  obtain ⟨requests, asks⟩ := (Draft.start origin).exists_asks (Token.lines expansion.tokens)
  have answers : (expansion.draft origin).Answers requests := by
    rw [Expansion.draft_eq_foldl]
    exact (Draft.answers_start origin).foldl expansion.is_line_of_mem_lines asks
  have entries : (assemble origin source).symbols.entries =
      (Request.accepted requests).map Request.symbol := answers.entries
  refine ⟨requests, ?_, entries, ?_, ?_, ?_, ?_⟩
  · exact fun others => ⟨fun again => again.unique asks, fun same => same ▸ asks⟩
  · rw [entries, List.map_map]
    exact Request.nodup_names_select [] requests
  · have complaints := expansion.finish_redefines origin (Expansion.of_text_apart _)
    rwa [answers.complaints] at complaints
  · intro earlier line later split
    have areLines := expansion.is_line_of_mem_lines
    rw [split] at asks areLines
    obtain ⟨before, after, whole, asked, -⟩ := asks.split
    obtain ⟨inside, others⟩ := List.forall_mem_append.mp areLines
    have answered := (Draft.answers_start origin).foldl inside asked
    exact ⟨before, after, whole, asked, answered,
      answered.sees_variables (others line List.mem_cons_self)⟩
  · intro earlier line later split rejects stated
    have member : line ∈ Token.lines expansion.tokens := by
      rw [split]
      simp
    have isLine := expansion.is_line_of_mem_lines line member
    have same := Draft.foldl_without_statement isLine rejects later
    have full : expansion.draft origin =
        later.foldl Draft.line ((earlier.foldl Draft.line (Draft.start origin)).line line) := by
      rw [Expansion.draft_eq_foldl, split, List.foldl_append, List.foldl_cons]
    rw [← full, ← List.foldl_cons, ← List.foldl_append] at same
    exact ⟨same.finish expansion, expansion.exists_complaint origin split rejects stated⟩

-- a label does not take the name of a variable, nor does a variable see a label
example :
    ((assemble 0 "@x 5\nx: db @x\n".toList).symbols.entries.map Symbol.kind = [.constant] ∧
      (assemble 0 "@x 5\nx: db @x\n".toList).code = #[5]) ∧
    ((assemble 0 "x: nop\n db @x\n".toList).symbols.entries.map Symbol.kind = [.label] ∧
      (assemble 0 "x: nop\n db @x\n".toList).code = #[0]) := by
  decide +kernel

end Z80Toolchain
