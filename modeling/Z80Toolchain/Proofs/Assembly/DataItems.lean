import Mathlib.Data.List.Forall2
import Z80Toolchain.Assembly.Draft
import Z80Toolchain.Proofs.Assembly.ExactSums

/-!
The data directives `db` and `dw`. The rest of the line is cut at its commas, and what makes a piece an
item is said of its tokens alone: a string, a number in range, for `dw` also a label. The main statement
is that a directive takes its line if every piece is an item, and then emits the bytes and the labels of
the items in order; otherwise the first piece that is none is blamed, for the fault that it has or for
the comma that is missing in it.
-/
namespace Z80Toolchain

open Expression

/-! ### Immediate operands -/

/-- The tokens of an operand that is an expression: a number, or a label whose name is not that of a
register or a condition. -/
inductive IsImmediate (symbols : Symbols) : List Token → Expression → Prop
  | value {tokens : List Token} {number : Int} (sums : Sums symbols false tokens (.value number)) :
      IsImmediate symbols tokens (.value number)
  | label {tokens : List Token} {name : String} {addend : Int}
      (free : Operand.ofName? name = none) (sums : Sums symbols true tokens (.symbol name addend)) :
      IsImmediate symbols tokens (.symbol name addend)

namespace Operand

variable {symbols : Symbols} {cursor after : Cursor} {operand : Operand}

theorem ne_immediate_of_indexed_by {register : Index}
    (read : indexedBy symbols register cursor = (.ok operand, after)) (value : Expression) :
    operand ≠ immediate value := by
  have far {cursor : Cursor} (read : (distance symbols >>= fun distance =>
      (pure (indexed register distance) : Parse Operand)) cursor = (.ok operand, after)) :
      operand ≠ immediate value := by
    obtain ⟨distance, middle, -, read⟩ := Parse.bind_eq_ok.mp read
    cases read
    simp
  rw [indexedBy, Parse.bind_of_ok (by rfl)] at read
  generalize cursor.peek.kind = kind at read
  cases kind with
  | plus => exact far read
  | minus => exact far read
  | _ =>
    cases read
    simp

/-- What stands in parentheses is never an expression alone. -/
theorem ne_immediate_of_enclosed (read : enclosed symbols cursor = (.ok operand, after))
    (value : Expression) : operand ≠ immediate value := by
  have address (read : (Expression.parse symbols true >>= fun address =>
      (pure (memory address) : Parse Operand)) cursor = (.ok operand, after)) :
      operand ≠ immediate value := by
    obtain ⟨address, middle, -, read⟩ := Parse.bind_eq_ok.mp read
    cases read
    simp
  rw [enclosed, Parse.bind_of_ok (by rfl)] at read
  generalize cursor.peek.kind = kind at read
  cases kind with
  | text name =>
    cases pointer : ofPointerName? name with
    | some found =>
      simp only [pointer] at read
      cases read
      unfold ofPointerName? at pointer
      split at pointer <;> cases pointer <;> simp
    | none =>
      cases index : Index.ofName? name with
      | some register =>
        simp only [pointer, index] at read
        exact ne_immediate_of_indexed_by read value
      | none =>
        simp only [pointer, index] at read
        exact address read
  | _ => exact address read

end Operand

namespace Expression.Sums

variable {symbols : Symbols} {tokens : List Token} {expression : Expression}

/-- An expression without a label is a number, and starts with a term. -/
theorem peek_value (sums : Sums symbols false tokens expression) (after : Cursor) :
    (∃ number, expression = .value number) ∧
      ((∃ number, (after.before tokens).peek.kind = .integer number) ∨
        (after.before tokens).peek.kind = .minus ∨
        ∃ name, (after.before tokens).peek.kind = .atName name) := by
  obtain ⟨opens, -, -, -⟩ := sums
  cases opens with
  | term isTerm =>
    refine ⟨⟨_, rfl⟩, ?_⟩
    cases isTerm with
    | integer digits => exact .inl ⟨_, digits⟩
    | negated minus digits => exact .inr (.inl minus)
    | constant named known => exact .inr (.inr ⟨_, named⟩)
  | label allowed named => cases allowed

/-- A name in front of an expression is its label. -/
theorem symbol_of_peek {after : Cursor} {name : String} (sums : Sums symbols true tokens expression)
    (named : (after.before tokens).peek.kind = .text name) :
    ∃ addend, expression = .symbol name addend := by
  obtain ⟨opens, -, -, -⟩ := sums
  cases opens with
  | term isTerm =>
    cases isTerm with
    | integer digits => exact absurd (digits.symm.trans named) (by simp)
    | negated minus digits => exact absurd (minus.symm.trans named) (by simp)
    | constant other known => exact absurd (other.symm.trans named) (by simp)
  | label allowed other =>
    cases other.symm.trans named
    exact ⟨_, rfl⟩

/-- An expression with a label starts with its name. -/
theorem cons_of_symbol {name : String} {addend : Int}
    (sums : Sums symbols true tokens (.symbol name addend)) :
    ∃ token rest, tokens = token :: rest ∧ token.kind = .text name := by
  generalize whole : Expression.symbol name addend = expression at sums
  obtain ⟨opens, -, -, -⟩ := sums
  cases opens with
  | term isTerm => cases whole
  | label allowed named =>
    cases whole
    exact ⟨_, _, rfl, named⟩

end Expression.Sums

namespace Argument

variable {symbols : Symbols} {cursor after : Cursor}

theorem parse_eq (symbols : Symbols) (cursor : Cursor) :
    parse symbols cursor = (Operand.startingWith symbols cursor.peek.kind >>= fun operand =>
      (pure ⟨operand, cursor.peek⟩ : Parse Argument)) cursor := rfl

theorem parse_of_is_immediate {tokens : List Token} {expression : Expression}
    (isImmediate : IsImmediate symbols tokens expression) (stops : after.peek.kind.sign? = none) :
    parse symbols (after.before tokens) =
      (.ok ⟨.immediate expression, (after.before tokens).peek⟩, after) := by
  have value {labels : Bool} (sums : Sums symbols labels tokens expression) :
      (Expression.parse symbols labels >>= fun value => (pure (.immediate value) : Parse Operand))
        (after.before tokens) = (.ok (.immediate expression), after) :=
    Parse.bind_of_ok (sums.read stops)
  rw [parse_eq]
  refine Parse.bind_of_ok ?_
  cases isImmediate with
  | value sums =>
    obtain ⟨-, ⟨number, kind⟩ | kind | ⟨name, kind⟩⟩ := sums.peek_value after
    all_goals
      rw [kind]
      exact value sums
  | label free sums =>
    obtain ⟨token, rest, rfl, named⟩ := sums.cons_of_symbol
    rw [Cursor.peek_before, named]
    simp only [Operand.startingWith, free]
    exact value sums

theorem is_immediate_of_starting_with {expression : Expression}
    (started : Operand.startingWith symbols cursor.peek.kind cursor =
      (.ok (.immediate expression), after)) :
    ∃ tokens, cursor = after.before tokens ∧ IsImmediate symbols tokens expression ∧
      after.peek.kind.sign? = none := by
  generalize first : cursor.peek.kind = kind at started
  cases kind with
  | text name =>
    cases found : Operand.ofName? name with
    | some operand =>
      simp only [Operand.startingWith, found] at started
      cases started
      cases Operand.is_named_of_name? found
    | none =>
      simp only [Operand.startingWith, found] at started
      obtain ⟨value, behind, summed, started⟩ := Parse.bind_eq_ok.mp started
      cases started
      obtain ⟨tokens, rfl, sums, stops⟩ := sums_of_read summed
      obtain ⟨addend, rfl⟩ := sums.symbol_of_peek first
      exact ⟨tokens, rfl, .label found sums, stops⟩
  | leftParen =>
    obtain ⟨_, _, _, started⟩ := Parse.bind_eq_ok.mp started
    obtain ⟨inner, _, enclosed, started⟩ := Parse.bind_eq_ok.mp started
    obtain ⟨_, _, _, started⟩ := Parse.bind_eq_ok.mp started
    cases started
    exact absurd rfl (Operand.ne_immediate_of_enclosed enclosed expression)
  | integer number | minus | atName name =>
    obtain ⟨value, behind, summed, started⟩ := Parse.bind_eq_ok.mp started
    cases started
    obtain ⟨tokens, rfl, sums, stops⟩ := sums_of_read summed
    obtain ⟨⟨number, rfl⟩, -⟩ := sums.peek_value after
    exact ⟨tokens, rfl, .value sums, stops⟩
  | _ => cases started

/-- An operand is an expression, or of another shape, or refused. -/
theorem parse_cases (symbols : Symbols) (cursor : Cursor) :
    (∃ tokens expression after, cursor = Cursor.before after tokens ∧
      IsImmediate symbols tokens expression ∧ after.peek.kind.sign? = none) ∨
    (∃ operand after, (∀ value, operand ≠ .immediate value) ∧
      parse symbols cursor = (.ok ⟨operand, cursor.peek⟩, after)) ∨
    ∃ diagnostic after, parse symbols cursor = (.error diagnostic, after) := by
  rw [parse_eq]
  rcases started : Operand.startingWith symbols cursor.peek.kind cursor with
    ⟨diagnostic | operand, after⟩
  · exact .inr (.inr ⟨diagnostic, after, Parse.bind_of_error started⟩)
  · rw [Parse.bind_of_ok started]
    by_cases immediate : ∃ value, operand = .immediate value
    · obtain ⟨expression, rfl⟩ := immediate
      obtain ⟨tokens, whole, isImmediate, stops⟩ := is_immediate_of_starting_with started
      exact .inl ⟨tokens, expression, after, whole, isImmediate, stops⟩
    · exact .inr (.inl ⟨operand, after, not_exists.mp immediate, rfl⟩)

end Argument

/-! ### Pieces between commas -/

/-- A list that does not have a property throughout splits where it is first missing. -/
theorem forall_or_first {α : Type} (p : α → Prop) (list : List α) :
    (∀ x ∈ list, p x) ∨ ∃ front x rest, list = front ++ x :: rest ∧ (∀ y ∈ front, p y) ∧ ¬ p x := by
  induction list with
  | nil => exact .inl (by simp)
  | cons x list induction =>
    by_cases here : p x
    · rcases induction with later | ⟨front, y, rest, rfl, later, missing⟩
      · exact .inl (List.forall_mem_cons.mpr ⟨here, later⟩)
      · exact .inr ⟨x :: front, y, rest, rfl, List.forall_mem_cons.mpr ⟨here, later⟩, missing⟩
    · exact .inr ⟨[], x, list, rfl, by simp, here⟩

theorem exists_forall₂ {α β : Type} {related : α → β → Prop} {list : List α}
    (fine : ∀ x ∈ list, ∃ y, related x y) : ∃ values, List.Forall₂ related list values := by
  induction list with
  | nil => exact ⟨[], .nil⟩
  | cons x list induction =>
    obtain ⟨⟨y, here⟩, later⟩ := List.forall_mem_cons.mp fine
    obtain ⟨values, later⟩ := induction later
    exact ⟨y :: values, .cons here later⟩

inductive Token.Separated : List (List Token) → List Token → Prop
  | last {piece : List Token} (plain : ∀ token ∈ piece, token.kind ≠ .comma) :
      Separated [piece] piece
  | more {piece rest : List Token} {mark : Token} {pieces : List (List Token)}
      (plain : ∀ token ∈ piece, token.kind ≠ .comma) (comma : mark.kind = .comma)
      (others : Separated pieces rest) : Separated (piece :: pieces) (piece ++ mark :: rest)

theorem Token.Separated.length_le {pieces : List (List Token)} {body : List Token}
    (separated : Token.Separated pieces body) : pieces.length ≤ body.length + 1 := by
  induction separated with
  | last => simp
  | more _ _ _ induction =>
    simp only [List.length_cons, List.length_append]
    omega

def Cursor.EndsItem (cursor : Cursor) : Prop :=
  cursor.peek.kind = .comma ∨ cursor.peek.kind.endsLine = true

/-- An item that starts with `first` does not go on at `next`. A sign goes on with an expression, but
nothing goes on with a string. -/
def Token.StopsAt (first next : Token) : Prop :=
  next.kind.sign? = none ∨ ∃ text, first.kind = .string text

theorem Cursor.EndsItem.stops_at {cursor : Cursor} (ends : cursor.EndsItem) (first : Token) :
    first.StopsAt cursor.peek := by
  refine .inl ?_
  rcases ends with comma | ends
  · rw [comma]
    rfl
  · generalize cursor.peek.kind = kind at ends
    cases kind <;> first | rfl | cases ends

/-- What is wrong with a statement that has been read so far: the readers refused it, or its line goes
on behind it. -/
def Parse.complaint? {α : Type} : Except Diagnostic α × Cursor → Option Diagnostic
  | (.error diagnostic, _) => some diagnostic
  | (.ok _, after) =>
    match Draft.endOfLine after with
    | .error diagnostic => some diagnostic
    | .ok _ => none

section

variable {α : Type} (item : Parse α) (good : List Token → α → Prop)
  (fault : Cursor → Diagnostic → Prop)

structure Parse.ReadsItems : Prop where
  read : ∀ {tokens value after}, good tokens value →
    (Cursor.before after tokens).peek.StopsAt after.peek →
    item (Cursor.before after tokens) = (.ok value, after)
  refuse : ∀ {cursor diagnostic}, fault cursor diagnostic →
    ∃ after, item cursor = (.error diagnostic, after)
  decides : ∀ cursor,
    (∃ tokens value after, cursor = Cursor.before after tokens ∧ good tokens value ∧
      cursor.peek.StopsAt after.peek) ∨
    ∃ diagnostic, fault cursor diagnostic
  inside : ∀ {tokens value}, good tokens value →
    ∀ token ∈ tokens, token.kind ≠ .comma ∧ token.kind.endsLine = false

/-- The complaint about a piece that is no item: something is wrong with it, or an item ends inside it
where a comma or the line end is missing. -/
inductive PieceFault (piece : List Token) (behind : Cursor) : Diagnostic → Prop
  | item {diagnostic : Diagnostic} (wrong : fault (behind.before piece) diagnostic) :
      PieceFault piece behind diagnostic
  | separator {taken rest : List Token} {token : Token} {value : α}
      (split : piece = taken ++ token :: rest) (fine : good taken value)
      (stops : (behind.before piece).peek.StopsAt token) :
      PieceFault piece behind (.atToken token .expectedEndOfLine)

/-- What becomes of the pieces of a line from `start` to `stop`: items give the result, and otherwise
the first piece that is none is complained about. -/
structure Parse.TakesItems {β : Type} (pieces : List (List Token)) (start stop : Cursor)
    (result : List α → β → Prop) (outcome : Except Diagnostic β × Cursor) : Prop where
  accepts : complaint? outcome = none ↔ ∀ piece ∈ pieces, ∃ value, good piece value
  yields : ∀ {values}, List.Forall₂ good pieces values →
    ∃ whole, outcome = (.ok whole, stop) ∧ result values whole
  blames : ∀ {front piece rest}, pieces = front ++ piece :: rest →
    (∀ other ∈ front, ∃ value, good other value) → (∀ value, ¬ good piece value) →
    ∃ reached behind, Token.Separated (front ++ [piece]) reached ∧
      start = Cursor.before behind reached ∧
      ∀ diagnostic, complaint? outcome = some diagnostic ↔ PieceFault good fault piece behind diagnostic

end

section

variable {α : Type} {item : Parse α} {cursor after : Cursor} {first : α} (count : Nat)

theorem items_up_to_of_comma (read : item cursor = (.ok first, after))
    (comma : after.peek.kind = .comma) :
    itemsUpTo item (count + 1) cursor =
      (itemsUpTo item count >>= fun others => (pure (first :: others) : Parse (List α)))
        after.skip := by
  rw [itemsUpTo, Parse.bind_of_ok read, Parse.bind_of_ok (Parse.eat_eq_true comma), if_pos rfl]

theorem items_up_to_of_last (read : item cursor = (.ok first, after)) (last : after.peek.kind ≠ .comma) :
    itemsUpTo item (count + 1) cursor = (.ok [first], after) := by
  rw [itemsUpTo, Parse.bind_of_ok read, Parse.bind_of_ok (Parse.eat_eq_false last)]
  rfl

theorem items_up_to_of_error {diagnostic : Diagnostic}
    (refused : item cursor = (.error diagnostic, after)) :
    itemsUpTo item (count + 1) cursor = (.error diagnostic, after) := by
  rw [itemsUpTo, Parse.bind_of_error refused]

end

theorem Parse.complaint?_bind_pure {α β : Type} (reader : Parse α) (change : α → β) (cursor : Cursor) :
    complaint? ((reader >>= fun value => (pure (change value) : Parse β)) cursor) =
      complaint? (reader cursor) := by
  rw [bind_apply]
  rcases reader cursor with ⟨_ | _, _⟩ <;> rfl

theorem Parse.complaint?_of_token {α : Type} {value : α} {behind : Cursor} {token : Token}
    {rest : List Token} (goesOn : token.kind.endsLine = false) :
    complaint? (.ok value, behind.before (token :: rest)) =
      some (.atToken token .expectedEndOfLine) := by
  have other : token.kind ≠ .endOfInput := by
    intro ended
    simp [ended, Token.Kind.endsLine] at goesOn
  simp [complaint?, Draft.endOfLine, Cursor.atLineEnd, goesOn, Cursor.complain, other]

namespace Parse.ReadsItems

variable {α : Type} {item : Parse α} {good : List Token → α → Prop}
  {fault : Cursor → Diagnostic → Prop} {stop behind after : Cursor} {piece body : List Token}
  {pieces : List (List Token)} {count : Nat}

/-- An item at the start of a piece is the piece, or ends inside it. -/
theorem piece_cases (reads : ReadsItems item good fault) (ends : behind.EndsItem) {tokens : List Token}
    {value : α} (whole : behind.before piece = after.before tokens) (fine : good tokens value) :
    tokens = piece ∨
      ∃ token rest, piece = tokens ++ token :: rest ∧ after = behind.before (token :: rest) := by
  obtain ⟨ahead, final⟩ := Cursor.mk.inj whole
  rcases List.append_eq_append_iff.mp ahead with ⟨more, rfl, left⟩ | ⟨rest, rfl, left⟩
  · cases more with
    | nil => exact .inl (List.append_nil piece)
    | cons token more =>
      -- the item would go on behind the piece, but no item has a comma or a line end
      obtain ⟨noComma, goesOn⟩ := reads.inside fine token (by simp)
      have next : behind.peek = token := by
        simp [Cursor.peek, left]
      rcases ends with comma | ended
      · exact absurd (next ▸ comma) noComma
      · rw [next, goesOn] at ended
        cases ended
  · cases rest with
    | nil => exact .inl (List.append_nil tokens).symm
    | cons token rest =>
      refine .inr ⟨token, rest, rfl, ?_⟩
      rw [Cursor.before, Cursor.mk.injEq]
      exact ⟨left, final.symm⟩

/-- Good items are taken with the commas between them. -/
theorem items_up_to_good (reads : ReadsItems item good fault) (ends : stop.peek.kind.endsLine = true)
    (separated : Token.Separated pieces body) {values : List α}
    (fine : List.Forall₂ good pieces values) (enough : pieces.length ≤ count) :
    itemsUpTo item count (stop.before body) = (.ok values, stop) := by
  have noComma : stop.peek.kind ≠ .comma := Cursor.no_comma_of_at_line_end ends
  induction separated generalizing values count with
  | last plain =>
    obtain ⟨count, rfl⟩ := Nat.exists_eq_add_one_of_ne_zero (Nat.ne_zero_of_lt enough)
    obtain ⟨value, _, here, none, rfl⟩ := List.forall₂_cons_left_iff.mp fine
    cases none
    exact items_up_to_of_last count (reads.read here (Cursor.EndsItem.stops_at (.inr ends) _)) noComma
  | @more piece rest mark pieces plain comma others induction =>
    obtain ⟨count, rfl⟩ := Nat.exists_eq_add_one_of_ne_zero (Nat.ne_zero_of_lt enough)
    obtain ⟨value, values, here, later, rfl⟩ := List.forall₂_cons_left_iff.mp fine
    have next : (stop.before (mark :: rest)).EndsItem := .inl comma
    rw [Cursor.before_append, items_up_to_of_comma count (reads.read here (next.stops_at _)) comma,
      Cursor.skip_before, Parse.bind_of_ok (induction later (Nat.le_of_succ_le_succ enough))]
    rfl

/-- A piece that is no item has a fault. -/
theorem exists_piece_fault (reads : ReadsItems item good fault) (ends : behind.EndsItem)
    (none : ∀ value, ¬ good piece value) :
    ∃ diagnostic, PieceFault good fault piece behind diagnostic := by
  rcases reads.decides (behind.before piece) with
    ⟨tokens, value, after, whole, fine, stops⟩ | ⟨diagnostic, wrong⟩
  · rcases reads.piece_cases ends whole fine with rfl | ⟨token, rest, rfl, rfl⟩
    · exact absurd fine (none value)
    · exact ⟨_, .separator rfl fine stops⟩
  · exact ⟨diagnostic, .item wrong⟩

/-- The fault of a piece is what is complained about: the reader refuses it, or leaves some of it. -/
theorem complaint?_of_piece_fault (reads : ReadsItems item good fault)
    (plain : ∀ token ∈ piece, token.kind ≠ .comma ∧ token.kind.endsLine = false)
    {diagnostic : Diagnostic} (wrong : PieceFault good fault piece behind diagnostic) (count : Nat) :
    complaint? (itemsUpTo item (count + 1) (behind.before piece)) = some diagnostic := by
  cases wrong with
  | item wrong =>
    obtain ⟨after, refused⟩ := reads.refuse wrong
    rw [items_up_to_of_error count refused]
    rfl
  | @separator taken rest token value split fine stops =>
    subst split
    obtain ⟨noComma, goesOn⟩ := plain token (by simp)
    rw [Cursor.before_append] at stops ⊢
    rw [items_up_to_of_last count (reads.read fine stops) noComma]
    exact complaint?_of_token goesOn

/-- The first piece that is no item is the one that is complained about. -/
theorem items_up_to_bad (reads : ReadsItems item good fault) (ends : stop.peek.kind.endsLine = true)
    (separated : Token.Separated pieces body)
    (plain : ∀ token ∈ body, token.kind.endsLine = false) {front rest : List (List Token)}
    (split : pieces = front ++ piece :: rest) (fine : ∀ other ∈ front, ∃ value, good other value)
    (none : ∀ value, ¬ good piece value) (enough : pieces.length ≤ count) :
    ∃ reached behind, Token.Separated (front ++ [piece]) reached ∧
      stop.before body = Cursor.before behind reached ∧
      (∃ diagnostic, PieceFault good fault piece behind diagnostic) ∧
      ∀ diagnostic, PieceFault good fault piece behind diagnostic →
        complaint? (itemsUpTo item count (stop.before body)) = some diagnostic := by
  induction separated generalizing front count with
  | @last only alone =>
    obtain ⟨count, rfl⟩ := Nat.exists_eq_add_one_of_ne_zero (Nat.ne_zero_of_lt enough)
    obtain ⟨rfl, rfl⟩ : front = [] ∧ only = piece := by cases front <;> simp_all
    refine ⟨only, stop, .last alone, rfl, reads.exists_piece_fault (.inr ends) none, ?_⟩
    intro diagnostic wrong
    exact reads.complaint?_of_piece_fault
      (fun token member => ⟨alone token member, plain token member⟩) wrong count
  | @more first others mark pieces alone comma separated induction =>
    obtain ⟨count, rfl⟩ := Nat.exists_eq_add_one_of_ne_zero (Nat.ne_zero_of_lt enough)
    have next : (stop.before (mark :: others)).EndsItem := .inl comma
    obtain ⟨here, later⟩ := List.forall_mem_append.mp plain
    cases front with
    | nil =>
      obtain ⟨rfl, -⟩ := List.cons_eq_cons.mp split
      refine ⟨first, stop.before (mark :: others), .last alone, Cursor.before_append _ _ _,
        reads.exists_piece_fault next none, ?_⟩
      intro diagnostic wrong
      rw [Cursor.before_append]
      exact reads.complaint?_of_piece_fault
        (fun token member => ⟨alone token member, here token member⟩) wrong count
    | cons head front =>
      obtain ⟨rfl, inner⟩ := List.cons_eq_cons.mp split
      obtain ⟨⟨value, good⟩, fine⟩ := List.forall_mem_cons.mp fine
      obtain ⟨reached, behind, joined, whole, wrong, said⟩ := induction
        (fun token member => later token (by simp [member])) inner fine
        (Nat.le_of_succ_le_succ enough)
      refine ⟨first ++ mark :: reached, behind, .more alone comma joined, ?_, wrong, ?_⟩
      · rw [List.append_cons, Cursor.before_append, whole, ← Cursor.before_append]
        simp
      · intro diagnostic wrong
        rw [Cursor.before_append, items_up_to_of_comma count (reads.read good (next.stops_at _)) comma,
          Cursor.skip_before, complaint?_bind_pure]
        exact said diagnostic wrong

/-- A list of items is taken with all its items, or blamed on the first piece that is none. -/
theorem takes_items (reads : ReadsItems item good fault) (ends : stop.peek.kind.endsLine = true)
    (separated : Token.Separated pieces body)
    (plain : ∀ token ∈ body, token.kind.endsLine = false) {β : Type} {change : List α → β}
    {result : List α → β → Prop} (meant : ∀ values, result values (change values)) :
    TakesItems good fault pieces (stop.before body) stop result
      ((items item >>= fun values => (pure (change values) : Parse β)) (stop.before body)) := by
  have enough : pieces.length ≤ (stop.before body).lineAhead.length + 1 := by
    rw [Cursor.line_ahead_before ends plain]
    exact separated.length_le
  have yields {values : List α} (fine : List.Forall₂ good pieces values) :
      (items item >>= fun values => (pure (change values) : Parse β)) (stop.before body) =
        (.ok (change values), stop) :=
    Parse.bind_of_ok (reads.items_up_to_good ends separated fine enough)
  refine ⟨⟨?_, ?_⟩, fun fine => ⟨_, yields fine, meant _⟩, ?_⟩
  · intro silent
    rcases forall_or_first (fun piece => ∃ value, good piece value) pieces with
      fine | ⟨front, piece, rest, split, fine, none⟩
    · exact fine
    · obtain ⟨_, _, _, _, ⟨_, wrong⟩, said⟩ := reads.items_up_to_bad ends separated plain split fine
        (not_exists.mp none) enough
      rw [complaint?_bind_pure] at silent
      cases silent.symm.trans (said _ wrong)
  · intro fine
    obtain ⟨values, fine⟩ := exists_forall₂ fine
    rw [yields fine]
    simp [complaint?, Draft.endOfLine, Cursor.atLineEnd, ends]
  · intro front piece rest split fine none
    obtain ⟨reached, behind, joined, whole, ⟨_, wrong⟩, said⟩ :=
      reads.items_up_to_bad ends separated plain split fine none enough
    refine ⟨reached, behind, joined, whole, fun diagnostic => ?_⟩
    rw [complaint?_bind_pure]
    refine ⟨fun complained => ?_, said diagnostic⟩
    cases (said _ wrong).symm.trans complained
    exact wrong

end Parse.ReadsItems

/-! ### Bytes and words -/

inductive NumberFault (symbols : Symbols) (directive : String) (low high : Int) (cursor : Cursor) :
    Diagnostic → Prop
  | operand {diagnostic : Diagnostic} {after : Cursor}
      (refused : Argument.parse symbols cursor = (.error diagnostic, after)) :
      NumberFault symbols directive low high cursor diagnostic
  | shape {operand : Operand} {after : Cursor} (other : ∀ value, operand ≠ .immediate value)
      (read : Argument.parse symbols cursor = (.ok ⟨operand, cursor.peek⟩, after)) :
      NumberFault symbols directive low high cursor
        (.atToken cursor.peek (.invalidOperand directive))
  | range {tokens : List Token} {after : Cursor} {number : Int} (whole : cursor = after.before tokens)
      (isImmediate : IsImmediate symbols tokens (.value number))
      (stops : after.peek.kind.sign? = none) (beyond : ¬ (low ≤ number ∧ number ≤ high)) :
      NumberFault symbols directive low high cursor (.atToken cursor.peek (.valueOutOfRange number))

/-- The tokens of an item of `db`, and its bytes. -/
inductive IsByteItem (symbols : Symbols) : List Token → List UInt8 → Prop
  | string {token : Token} {text : String} (quoted : token.kind = .string text)
      (narrow : ∀ c ∈ text.toList, c.toNat ≤ 0xFF) :
      IsByteItem symbols [token] (text.toList.map fun c => UInt8.ofNat c.toNat)
  | number {tokens : List Token} {number : Int}
      (isImmediate : IsImmediate symbols tokens (.value number))
      (fits : -128 ≤ number ∧ number ≤ 255) : IsByteItem symbols tokens [UInt8.ofInt number]

/-- What is wrong with an item of `db`. -/
inductive ByteFault (symbols : Symbols) (cursor : Cursor) : Diagnostic → Prop
  | wide {text : String} {front rest : List Char} {c : Char} (quoted : cursor.peek.kind = .string text)
      (split : text.toList = front ++ c :: rest) (narrow : ∀ c ∈ front, c.toNat ≤ 0xFF)
      (beyond : ¬ c.toNat ≤ 0xFF) :
      ByteFault symbols cursor (.atToken cursor.peek (.valueOutOfRange c.toNat))
  | label {tokens : List Token} {after : Cursor} {name : String} {addend : Int}
      (whole : cursor = after.before tokens)
      (isImmediate : IsImmediate symbols tokens (.symbol name addend))
      (stops : after.peek.kind.sign? = none) :
      ByteFault symbols cursor (.atToken cursor.peek .unsupportedExpression)
  | number {diagnostic : Diagnostic} (unquoted : ∀ text, cursor.peek.kind ≠ .string text)
      (fault : NumberFault symbols "db" (-128) 255 cursor diagnostic) :
      ByteFault symbols cursor diagnostic

/-- The tokens of an item of `dw`, its word and the label that the word waits for. -/
inductive IsWordItem (symbols : Symbols) : List Token → UInt16 × Option Target → Prop
  | number {tokens : List Token} {number : Int}
      (isImmediate : IsImmediate symbols tokens (.value number))
      (fits : -32768 ≤ number ∧ number ≤ 65535) :
      IsWordItem symbols tokens (UInt16.ofInt number, none)
  | label {token : Token} {tail : List Token} {name : String} {addend : Int}
      (isImmediate : IsImmediate symbols (token :: tail) (.symbol name addend)) :
      IsWordItem symbols (token :: tail) (0, some ⟨name, addend, token.position⟩)

theorem NumberFault.refused {symbols : Symbols} {directive : String} {low high : Int} {cursor : Cursor}
    {diagnostic : Diagnostic} (wrong : NumberFault symbols directive low high cursor diagnostic)
    {α : Type} {finish : Argument → Parse α}
    (shape : ∀ {operand token after}, (∀ value, operand ≠ .immediate value) →
      finish ⟨operand, token⟩ after = (.error (.atToken token (.invalidOperand directive)), after))
    (range : ∀ {number token after}, ¬ (low ≤ number ∧ number ≤ high) →
      finish ⟨.immediate (.value number), token⟩ after =
        (.error (.atToken token (.valueOutOfRange number)), after)) :
    ∃ after, (Argument.parse symbols >>= finish) cursor = (.error diagnostic, after) := by
  cases wrong with
  | operand refused => exact ⟨_, Parse.bind_of_error refused⟩
  | shape other read =>
    rw [Parse.bind_of_ok read]
    exact ⟨_, shape other⟩
  | range whole isImmediate stops beyond =>
    subst whole
    rw [Parse.bind_of_ok (Argument.parse_of_is_immediate isImmediate stops)]
    exact ⟨_, range beyond⟩

theorem string_bytes_of_narrow (token : Token) {text : List Char} (narrow : ∀ c ∈ text, c.toNat ≤ 0xFF) :
    stringBytes token text = .ok (text.map fun c => UInt8.ofNat c.toNat) := by
  induction text with
  | nil => rfl
  | cons c text induction =>
    obtain ⟨here, later⟩ := List.forall_mem_cons.mp narrow
    rw [stringBytes, if_pos here, induction later]
    rfl

theorem string_bytes_of_wide (token : Token) {front rest : List Char} {c : Char}
    (narrow : ∀ c ∈ front, c.toNat ≤ 0xFF) (beyond : ¬ c.toNat ≤ 0xFF) :
    stringBytes token (front ++ c :: rest) = .error (.atToken token (.valueOutOfRange c.toNat)) := by
  induction front with
  | nil => rw [List.nil_append, stringBytes, if_neg beyond]
  | cons first front induction =>
    obtain ⟨here, later⟩ := List.forall_mem_cons.mp narrow
    rw [List.cons_append, stringBytes, if_pos here, induction later]
    rfl

/-- The tokens of an expression do not end the item that it is. -/
theorem IsImmediate.inside {symbols : Symbols} {tokens : List Token} {expression : Expression}
    (isImmediate : IsImmediate symbols tokens expression) :
    ∀ token ∈ tokens, token.kind ≠ .comma ∧ token.kind.endsLine = false := by
  have inside : ∀ token ∈ tokens, token.kind.inExpression = true := by
    cases isImmediate with
    | value sums => exact sums.inside
    | label free sums => exact sums.inside
  intro token member
  have kept := inside token member
  cases kind : token.kind <;> simp [kind, Token.Kind.inExpression, Token.Kind.endsLine] at kept ⊢

/-- An expression is not a string. -/
theorem IsImmediate.unquoted {symbols : Symbols} {tokens : List Token} {expression : Expression}
    (isImmediate : IsImmediate symbols tokens expression) (after : Cursor) (text : String) :
    (after.before tokens).peek.kind ≠ .string text := by
  cases isImmediate with
  | value sums =>
    obtain ⟨-, ⟨number, kind⟩ | kind | ⟨name, kind⟩⟩ := sums.peek_value after
    all_goals simp [kind]
  | label free sums =>
    obtain ⟨token, rest, rfl, named⟩ := sums.cons_of_symbol
    simp [named]

/-- So a sign behind an expression would go on with it. -/
theorem IsImmediate.stops {symbols : Symbols} {tokens : List Token} {expression : Expression}
    (isImmediate : IsImmediate symbols tokens expression) {after : Cursor}
    (stops : (after.before tokens).peek.StopsAt after.peek) : after.peek.kind.sign? = none := by
  rcases stops with unsigned | ⟨text, quoted⟩
  · exact unsigned
  · exact absurd quoted (isImmediate.unquoted after text)

section

variable (symbols : Symbols) {cursor : Cursor}

theorem byte_item_of_string {text : String} (quoted : cursor.peek.kind = .string text) :
    byteItem symbols cursor = (stringBytes cursor.peek text.toList, cursor.skip) := by
  rw [byteItem, Parse.bind_of_ok (by rfl)]
  simp only [quoted]
  rw [Parse.bind_of_ok (by rfl)]
  cases stringBytes cursor.peek text.toList <;> rfl

theorem byte_item_of_unquoted (unquoted : ∀ text, cursor.peek.kind ≠ .string text) :
    byteItem symbols cursor = byteNumber symbols cursor := by
  rw [byteItem, Parse.bind_of_ok (by rfl)]
  generalize cursor.peek = token at unquoted ⊢
  obtain ⟨kind, position⟩ := token
  cases kind with
  | string text => exact absurd rfl (unquoted text)
  | _ => rfl

theorem reads_items_byte_item :
    Parse.ReadsItems (byteItem symbols) (IsByteItem symbols) (ByteFault symbols) where
  read := by
    intro tokens bytes after isItem stops
    cases isItem with
    | @string token text quoted narrow =>
      rw [byte_item_of_string symbols (by exact quoted)]
      exact congrArg (·, after) (string_bytes_of_narrow token narrow)
    | number isImmediate fits =>
      rw [byte_item_of_unquoted symbols (isImmediate.unquoted after), byteNumber,
        Parse.bind_of_ok (Argument.parse_of_is_immediate isImmediate (isImmediate.stops stops))]
      simp only [Selection.byte, if_pos fits]
      rfl
  refuse := by
    intro cursor diagnostic wrong
    cases wrong with
    | @wide text front rest c quoted split narrow beyond =>
      rw [byte_item_of_string symbols quoted, split]
      exact ⟨_, congrArg (·, cursor.skip) (string_bytes_of_wide cursor.peek narrow beyond)⟩
    | label whole isImmediate stops =>
      subst whole
      rw [byte_item_of_unquoted symbols (isImmediate.unquoted _), byteNumber,
        Parse.bind_of_ok (Argument.parse_of_is_immediate isImmediate stops)]
      exact ⟨_, rfl⟩
    | number unquoted wrong =>
      rw [byte_item_of_unquoted symbols unquoted, byteNumber]
      refine wrong.refused (fun {operand} _ _ other => ?_) (fun beyond => ?_)
      · cases operand with
        | immediate value => exact absurd rfl (other value)
        | _ => rfl
      · simp only [Selection.byte, if_neg beyond]
        rfl
  decides := by
    intro cursor
    by_cases quoted : ∃ text, cursor.peek.kind = .string text
    · obtain ⟨text, quoted⟩ := quoted
      rcases forall_or_first (·.toNat ≤ 0xFF) text.toList with
        narrow | ⟨front, c, rest, split, narrow, beyond⟩
      · exact .inl ⟨[cursor.peek], _, cursor.skip, Cursor.eq_before (by simp [quoted]) rfl,
          .string quoted narrow, .inr ⟨text, quoted⟩⟩
      · exact .inr ⟨_, .wide quoted split narrow beyond⟩
    · have unquoted := not_exists.mp quoted
      rcases Argument.parse_cases symbols cursor with
        ⟨tokens, number | ⟨name, addend⟩, after, whole, isImmediate, stops⟩ |
        ⟨operand, after, other, read⟩ | ⟨diagnostic, after, refused⟩
      · by_cases fits : -128 ≤ number ∧ number ≤ 255
        · exact .inl ⟨tokens, _, after, whole, .number isImmediate fits, .inl stops⟩
        · exact .inr ⟨_, .number unquoted (.range whole isImmediate stops fits)⟩
      · exact .inr ⟨_, .label whole isImmediate stops⟩
      · exact .inr ⟨_, .number unquoted (.shape other read)⟩
      · exact .inr ⟨diagnostic, .number unquoted (.operand refused)⟩
  inside := by
    intro tokens bytes isItem
    cases isItem with
    | string quoted narrow => simp [quoted, Token.Kind.endsLine]
    | number isImmediate fits => exact isImmediate.inside

theorem reads_items_word_item :
    Parse.ReadsItems (wordItem symbols) (IsWordItem symbols)
      (NumberFault symbols "dw" (-32768) 65535) where
  read := by
    intro tokens word after isItem stops
    cases isItem with
    | number isImmediate fits =>
      rw [wordItem, Parse.bind_of_ok
        (Argument.parse_of_is_immediate isImmediate (isImmediate.stops stops))]
      simp only [Selection.word, if_pos fits]
      rfl
    | label isImmediate =>
      rw [wordItem, Parse.bind_of_ok
        (Argument.parse_of_is_immediate isImmediate (isImmediate.stops stops))]
      rfl
  refuse := by
    intro cursor diagnostic wrong
    refine wrong.refused (fun {operand} _ _ other => ?_) (fun beyond => ?_)
    · cases operand with
      | immediate value => exact absurd rfl (other value)
      | _ => rfl
    · simp only [Selection.word, if_neg beyond]
      rfl
  decides := by
    intro cursor
    rcases Argument.parse_cases symbols cursor with
      ⟨tokens, number | ⟨name, addend⟩, after, whole, isImmediate, stops⟩ |
      ⟨operand, after, other, read⟩ | ⟨diagnostic, after, refused⟩
    · by_cases fits : -32768 ≤ number ∧ number ≤ 65535
      · exact .inl ⟨tokens, _, after, whole, .number isImmediate fits, .inl stops⟩
      · exact .inr ⟨_, .range whole isImmediate stops fits⟩
    · cases isImmediate with
      | label free sums =>
        obtain ⟨token, rest, rfl, named⟩ := sums.cons_of_symbol
        exact .inl ⟨_, _, after, whole, .label (.label free sums), .inl stops⟩
    · exact .inr ⟨_, .shape other read⟩
    · exact .inr ⟨diagnostic, .operand refused⟩
  inside := by
    intro tokens word isItem
    cases isItem with
    | number isImmediate fits => exact isImmediate.inside
    | label isImmediate => exact isImmediate.inside

end

/-- Each word takes two bytes, and the label of word number `index` is for byte `2 * index`. -/
theorem Encoding.of_words_eq (first : Nat) (words : List (UInt16 × Option Target)) :
    Encoding.ofWords (2 * first) words =
      ⟨words.flatMap fun (word, _) => wordBytes word,
        (words.zipIdx first).filterMap fun ((_, target), index) =>
          target.map fun target => target.reference .absolute (2 * index)⟩ := by
  induction words generalizing first with
  | nil => rfl
  | cons item words induction =>
    obtain ⟨word, target⟩ := item
    rw [Encoding.ofWords, show 2 * first + 2 = 2 * (first + 1) from rfl, induction]
    cases target <;> rfl

/-! ### Directives -/

/-- A directive takes exactly the lines whose pieces are all items, and blames the first piece that
is none. -/
theorem Statement.parse_items (symbols : Symbols) {pieces : List (List Token)} {body : List Token}
    (separated : Token.Separated pieces body) (plain : ∀ token ∈ body, token.kind.endsLine = false)
    {stop : Cursor} (ends : stop.peek.kind.endsLine = true) {head : Token} {name : String}
    (named : head.kind = .text name) :
    (Text.lower name = "db" →
      Parse.TakesItems (IsByteItem symbols) (ByteFault symbols) pieces (stop.before body) stop
        (fun data statement => statement.encoding = ⟨data.flatten, []⟩)
        (Statement.parse symbols head (stop.before body))) ∧
    (Text.lower name = "dw" →
      Parse.TakesItems (IsWordItem symbols) (NumberFault symbols "dw" (-32768) 65535) pieces
        (stop.before body) stop
        (fun words statement => statement.encoding =
          ⟨words.flatMap fun (word, _) => wordBytes word,
            words.zipIdx.filterMap fun ((_, target), index) =>
              target.map fun target => target.reference .absolute (2 * index)⟩)
        (Statement.parse symbols head (stop.before body))) := by
  constructor
  · intro small
    have read : Statement.parse symbols head = (items (byteItem symbols) >>= fun data =>
        (pure (bytes data) : Parse Statement)) := by
      rw [Statement.parse, named]
      simp only [small]
      rfl
    rw [read]
    exact (reads_items_byte_item symbols).takes_items ends separated plain fun data => rfl
  · intro small
    have read : Statement.parse symbols head = (items (wordItem symbols) >>= fun data =>
        (pure (words data) : Parse Statement)) := by
      rw [Statement.parse, named]
      simp only [small]
      rfl
    rw [read]
    exact (reads_items_word_item symbols).takes_items ends separated plain (Encoding.of_words_eq 0)

/-- `Dw go+1,-2` is taken, and the character of `db "€"` is too wide. -/
theorem Statement.parse_items_both :
    let stop : Cursor := ⟨[⟨.newLine, ⟨0, 10⟩⟩], ⟨0, 10⟩⟩
    let euro : Token := ⟨.string "€", ⟨0, 3⟩⟩
    (∃ statement, Statement.parse .empty ⟨.text "Dw", ⟨0, 0⟩⟩ (stop.before
        [⟨.text "go", ⟨0, 3⟩⟩, ⟨.plus, ⟨0, 5⟩⟩, ⟨.integer 1, ⟨0, 6⟩⟩, ⟨.comma, ⟨0, 7⟩⟩,
          ⟨.minus, ⟨0, 8⟩⟩, ⟨.integer 2, ⟨0, 9⟩⟩]) = (.ok statement, stop) ∧
      statement.encoding = ⟨[0, 0, 0xFE, 0xFF], [⟨"go", 0, .absolute, 1, ⟨0, 3⟩⟩]⟩) ∧
    Parse.complaint? (Statement.parse .empty ⟨.text "db", ⟨0, 0⟩⟩ (stop.before [euro])) =
      some (.atToken euro (.valueOutOfRange 0x20AC)) := by
  intro stop euro
  constructor
  · have separated : Token.Separated
        [[⟨.text "go", ⟨0, 3⟩⟩, ⟨.plus, ⟨0, 5⟩⟩, ⟨.integer 1, ⟨0, 6⟩⟩],
          [⟨.minus, ⟨0, 8⟩⟩, ⟨.integer 2, ⟨0, 9⟩⟩]]
        [⟨.text "go", ⟨0, 3⟩⟩, ⟨.plus, ⟨0, 5⟩⟩, ⟨.integer 1, ⟨0, 6⟩⟩, ⟨.comma, ⟨0, 7⟩⟩,
          ⟨.minus, ⟨0, 8⟩⟩, ⟨.integer 2, ⟨0, 9⟩⟩] :=
      @Token.Separated.more [_, _, _] _ _ _ (by decide) rfl (.last (by decide))
    have label := @Sums.sum .empty true [⟨.text "go", ⟨0, 3⟩⟩] [⟨.plus, ⟨0, 5⟩⟩, ⟨.integer 1, ⟨0, 6⟩⟩]
      (.symbol "go" 0) [1] (.label rfl rfl)
      (@Summands.cons _ _ 1 1 [_] [] [] rfl (.integer rfl) .nil) ⟨by decide, trivial⟩ rfl
    have number := @Sums.sum .empty false [⟨.minus, ⟨0, 8⟩⟩, ⟨.integer 2, ⟨0, 9⟩⟩] [] (.value (-2)) []
      (.term (.negated rfl rfl)) .nil trivial (by decide)
    have taken := (@Statement.parse_items .empty _ _ separated (by decide) stop rfl
      ⟨.text "Dw", ⟨0, 0⟩⟩ "Dw" rfl).2 (by decide)
    exact taken.yields (.cons (.label (.label (by decide) label))
      (.cons (.number (.value number) (by decide)) .nil))
  · have taken := (@Statement.parse_items .empty _ [euro] (.last (by decide)) (by decide) stop rfl
      ⟨.text "db", ⟨0, 0⟩⟩ "db" rfl).1 (by decide)
    have none (bytes : List UInt8) : ¬ IsByteItem .empty [euro] bytes := by
      rintro (⟨quoted, narrow⟩ | ⟨isImmediate, -⟩)
      · cases quoted
        exact absurd (narrow '€' (by decide)) (by decide)
      · exact isImmediate.unquoted stop "€" rfl
    obtain ⟨reached, behind, joined, whole, blamed⟩ := @taken.blames [] [euro] [] rfl (by simp) none
    exact (blamed _).mpr (.item (@ByteFault.wide _ _ "€" [] [] '€' rfl rfl (by simp) (by decide)))

end Z80Toolchain
