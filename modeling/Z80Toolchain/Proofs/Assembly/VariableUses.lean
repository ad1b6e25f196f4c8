import Z80Toolchain.Proofs.Assembly.ExactSums
import Z80Toolchain.Proofs.Assembly.LineByLine

/-!
Uses of variables. A line that is accepted does the same with the value of each variable written in
its place, and it uses no variable that has none. What a line that is refused would do with values
is left open: a minus sign in front of a first variable is refused, and one in front of a first
number is not. A refused instruction is never refused because of a symbol.
-/
namespace Z80Toolchain

/-! ### Values in place of variables -/

namespace Token

/-- The value of a variable in its place. No statement takes the bad token that stands in place of a
variable without a value. -/
def Kind.valued (known : String → Option Int) : Kind → Kind
  | atName name =>
    match known name with
    | some number => integer number
    | none => bad name
  | kind => kind

def valued (known : String → Option Int) (token : Token) : Token :=
  ⟨token.kind.valued known, token.position⟩

def valuedBehind (known : String → Option Int) : List Token → List Token
  | [] => []
  | head :: rest => head :: rest.map (valued known)

def valuedLine (known : String → Option Int) (line : List Token) : List Token :=
  labels line ++ valuedBehind known (line.dropWhile isLabel)

variable {known : String → Option Int}

theorem Kind.ends_line_valued (kind : Kind) : (kind.valued known).endsLine = kind.endsLine := by
  cases kind with
  | atName name => cases seen : known name <;> simp only [valued, seen] <;> rfl
  | _ => rfl

theorem Kind.sign?_valued (kind : Kind) : (kind.valued known).sign? = kind.sign? := by
  cases kind with
  | atName name => cases seen : known name <;> simp [valued, seen, sign?]
  | _ => rfl

theorem Kind.valued_eq_iff {kind mark : Kind} (isMark : mark = .comma ∨ mark = .rightParen) :
    kind.valued known = mark ↔ kind = mark := by
  cases kind with
  | atName name => rcases isMark with rfl | rfl <;> cases seen : known name <;> simp [valued, seen]
  | _ => rfl

end Token

namespace Cursor

def valued (known : String → Option Int) (cursor : Cursor) : Cursor :=
  ⟨cursor.ahead.map (Token.valued known), cursor.final⟩

variable {known : String → Option Int} (cursor : Cursor)

theorem peek_valued : (cursor.valued known).peek = cursor.peek.valued known := by
  obtain ⟨ahead, final⟩ := cursor
  cases ahead <;> rfl

theorem skip_valued : (cursor.valued known).skip = cursor.skip.valued known := by
  simp [skip, valued]

theorem before_valued (tokens : List Token) :
    (cursor.before tokens).valued known =
      (cursor.valued known).before (tokens.map (Token.valued known)) := by
  simp [before, valued]

theorem at_line_end_valued : (cursor.valued known).atLineEnd = cursor.atLineEnd := by
  rw [atLineEnd, peek_valued, Token.valued, Token.Kind.ends_line_valued, atLineEnd]

theorem length_line_ahead_valued :
    (cursor.valued known).lineAhead.length = cursor.lineAhead.length := by
  simp [lineAhead, valued, List.takeWhile_map, Function.comp_def, Token.valued,
    Token.Kind.ends_line_valued]

theorem cause_complain (cause : Cause) : (cursor.complain cause).cause = cause := by
  rw [complain_eq, Diagnostic.atToken]

end Cursor

/-! ### Choices -/

namespace Rewording

def valuing (known : String → Option Int) : Rewording :=
  ⟨id, Token.Kind.valued known, id⟩

def anonymous : Rewording :=
  ⟨id, fun _ => .comma, id⟩

theorem valuing_expression (known : String → Option Int) (expression : Expression) :
    (valuing known).expression expression = expression := by
  cases expression <;> rfl

theorem valuing_operand (known : String → Option Int) (operand : Operand) :
    (valuing known).operand operand = operand := by
  cases operand with
  | memory address => exact congrArg Operand.memory (valuing_expression known address)
  | immediate value => exact congrArg Operand.immediate (valuing_expression known value)
  | _ => rfl

theorem valuing_selection (known : String → Option Int) (selection : Selection) :
    (valuing known).selection selection = selection := by
  obtain ⟨instruction, target⟩ := selection
  cases target <;> rfl

end Rewording

open Rewording (valuing anonymous)

/-- The second result is accepted as the first one is, and the first is not refused because of a
symbol. -/
structure Settled {α : Type} (result settled : Except Diagnostic α) : Prop where
  accepted : ∀ value, result = .ok value → settled = .ok value
  refused : ∀ diagnostic, result = .error diagnostic → diagnostic.cause.concernsSymbol = false

/-- A choice that is the same for tokens of any kind is settled. It complains about no symbol, since
only the token of a variable can be blamed for one. -/
theorem settled_of_reworded {α : Type} {known : String → Option Int} {result : Except Diagnostic α}
    {reworded : Rewording → Except Diagnostic α} {change : Rewording → α → α}
    (same : ∀ rewording, reworded rewording = rewording.result (change rewording) result)
    (kept : ∀ value, change (valuing known) value = value) (arguments : List Argument)
    (blames : Blames (arguments.map fun argument => (anonymous.argument argument).token)
      (reworded anonymous)) : Settled result (reworded (valuing known)) := by
  constructor
  · intro value accepted
    rw [same, accepted, Rewording.result, kept]
  · intro diagnostic refused
    have complaint : reworded anonymous = .error (anonymous.diagnostic diagnostic) := by
      rw [same, refused, Rewording.result]
    obtain ⟨token, member, cause, found, apart | ⟨name, named, -⟩⟩ := blames _ complaint
    · have equal : diagnostic.cause = cause := congrArg Diagnostic.cause found
      rw [equal, apart]
    · obtain ⟨argument, -, rfl⟩ := List.mem_map.mp member
      cases named

namespace Selection

variable {known : String → Option Int}

theorem settled_byte (argument : Argument) (value : Expression) :
    Settled (byte argument value) (byte ((valuing known).argument argument) value) := by
  have settled : Settled (byte argument value)
      (byte ((valuing known).argument argument) ((valuing known).expression value)) :=
    settled_of_reworded (fun rewording => @byte_reworded rewording argument value) (fun _ => rfl)
      [argument] (blames_byte (by simp) _)
  rwa [Rewording.valuing_expression] at settled

theorem settled_word (argument : Argument) (number : Int) :
    Settled (word argument number) (word ((valuing known).argument argument) number) :=
  settled_of_reworded (fun rewording => @word_reworded rewording argument number) (fun _ => rfl)
    [argument] (blames_word (by simp) _)

theorem IsChoice.settled {choose : Argument → Except Diagnostic Selection}
    (isChoice : IsChoice choose) (argument : Argument) :
    Settled (choose argument) (choose ((valuing known).argument argument)) :=
  settled_of_reworded (fun rewording => isChoice.reworded rewording argument)
    (Rewording.valuing_selection known) [argument] (isChoice.blames _ (by simp))

theorem IsChoiceOfTwo.settled {choose : Argument → Argument → Except Diagnostic Selection}
    (isChoice : IsChoiceOfTwo choose) (first second : Argument) :
    Settled (choose first second)
      (choose ((valuing known).argument first) ((valuing known).argument second)) :=
  settled_of_reworded (fun rewording => isChoice.reworded rewording first second)
    (Rewording.valuing_selection known) [first, second] (isChoice.blames _ _ (by simp) (by simp))

end Selection

/-! ### Readers -/

/-- What the first reader accepts the second accepts with values in place of variables, where
`change` does the same to a result. What the first refuses it does not refuse because of a symbol. -/
structure Parse.Settles {α : Type} (known : String → Option Int) (change : α → α)
    (reader settled : Parse α) : Prop where
  accepted : ∀ {cursor after : Cursor} {value : α}, reader cursor = (.ok value, after) →
    settled (cursor.valued known) = (.ok (change value), after.valued known)
  refused : ∀ {cursor after : Cursor} {diagnostic : Diagnostic},
    reader cursor = (.error diagnostic, after) → diagnostic.cause.concernsSymbol = false

namespace Parse

variable {α β : Type} {known : String → Option Int} {change : α → α} {finish : β → β}

theorem settles_pure {value settled : α} (same : settled = change value) :
    Settles known change (pure value) (pure settled) := by
  subst same
  constructor
  · rintro cursor after found ⟨⟩
    rfl
  · rintro cursor after diagnostic ⟨⟩

theorem settles_fail {diagnostic : Diagnostic} (apart : diagnostic.cause.concernsSymbol = false)
    (settled : Parse α) : Settles known change (fail diagnostic) settled := by
  constructor
  · rintro cursor after found ⟨⟩
  · rintro cursor after complaint ⟨⟩
    exact apart

theorem settles_refuse {cause : Cause} (apart : cause.concernsSymbol = false) (settled : Parse α) :
    Settles known change (refuse cause) settled := by
  constructor
  · rintro cursor after found ⟨⟩
  · rintro cursor after complaint ⟨⟩
    rwa [cursor.cause_complain]

theorem settles_of_except {result settled : Except Diagnostic α} (same : Settled result settled) :
    Settles known id (ofExcept result) (ofExcept settled) := by
  cases result with
  | ok value =>
    rw [same.accepted value rfl]
    exact settles_pure rfl
  | error diagnostic => exact settles_fail (same.refused diagnostic rfl) _

theorem settles_bind {reader settled : Parse α} {next nextSettled : α → Parse β}
    (first : Settles known change reader settled)
    (second : ∀ value, Settles known finish (next value) (nextSettled (change value))) :
    Settles known finish (reader >>= next) (settled >>= nextSettled) := by
  constructor
  · intro cursor after value read
    obtain ⟨found, middle, start, rest⟩ := bind_eq_ok.mp read
    rw [bind_of_ok (first.accepted start), (second found).accepted rest]
  · intro cursor after diagnostic read
    rw [bind_apply] at read
    rcases start : reader cursor with ⟨complaint | found, middle⟩
    · rw [start] at read
      cases read
      exact first.refused start
    · rw [start] at read
      exact (second found).refused read

theorem settles_peek {next nextSettled : Token → Parse β}
    (found : ∀ token, Settles known finish (next token) (nextSettled (token.valued known))) :
    Settles known finish (peek >>= next) (peek >>= nextSettled) := by
  constructor
  · intro cursor after value read
    have settled := (found cursor.peek).accepted read
    rwa [← cursor.peek_valued] at settled
  · intro cursor after diagnostic read
    exact (found cursor.peek).refused read

theorem settles_take {next nextSettled : Parse β} (rest : Settles known finish next nextSettled) :
    Settles known finish (take >>= fun _ => next) (take >>= fun _ => nextSettled) := by
  constructor
  · intro cursor after value read
    have behind : next cursor.skip = (.ok value, after) := read
    have settled := rest.accepted behind
    rwa [← cursor.skip_valued] at settled
  · intro cursor after diagnostic read
    have behind : next cursor.skip = (.error diagnostic, after) := read
    exact rest.refused behind

theorem settles_at_line_end : Settles known id atLineEnd atLineEnd := by
  constructor
  · rintro cursor after ends ⟨⟩
    rw [atLineEnd, cursor.at_line_end_valued]
    rfl
  · rintro cursor after diagnostic ⟨⟩

section

variable {mark : Token.Kind} (isMark : mark = .comma ∨ mark = .rightParen)

include isMark

theorem kind_peek_valued (cursor : Cursor) :
    (cursor.valued known).peek.kind = mark ↔ cursor.peek.kind = mark := by
  rw [cursor.peek_valued]
  exact Token.Kind.valued_eq_iff isMark

theorem settles_eat : Settles known id (eat mark) (eat mark) := by
  constructor
  · intro cursor after found read
    by_cases here : cursor.peek.kind = mark
    · rw [eat_eq_true here] at read
      cases read
      rw [eat_eq_true ((kind_peek_valued isMark cursor).mpr here), cursor.skip_valued]
      rfl
    · rw [eat_eq_false here] at read
      cases read
      rw [eat_eq_false (mt (kind_peek_valued isMark cursor).mp here)]
      rfl
  · intro cursor after diagnostic read
    unfold eat at read
    split at read <;> cases read

theorem settles_expect (what : String) : Settles known id (expect mark what) (expect mark what) := by
  constructor
  · intro cursor after found read
    obtain ⟨here, rfl⟩ := expect_eq_ok.mp read
    rw [expect_of_kind ((kind_peek_valued isMark cursor).mpr here), cursor.skip_valued]
  · intro cursor after diagnostic read
    unfold expect at read
    split at read <;> cases read
    exact congrArg Cause.concernsSymbol (cursor.cause_complain _)

end

end Parse

open Parse

variable (symbols : Symbols)

namespace Expression

variable {symbols}

theorem IsTerm.valued {tokens : List Token} {number : Int} (isTerm : IsTerm symbols tokens number) :
    IsTerm symbols (tokens.map (Token.valued symbols.constant?)) number := by
  cases isTerm with
  | integer digits => exact .integer (by simp [Token.valued, Token.Kind.valued, digits])
  | negated minus digits =>
    exact .negated (by simp [Token.valued, Token.Kind.valued, minus])
      (by simp [Token.valued, Token.Kind.valued, digits])
  | constant named known => exact .integer (by simp [Token.valued, Token.Kind.valued, named, known])

theorem Summands.valued {tokens : List Token} {values : List Int}
    (summands : Summands symbols tokens values) :
    Summands symbols (tokens.map (Token.valued symbols.constant?)) values := by
  induction summands with
  | nil => exact .nil
  | cons signed term others induction =>
    rw [List.map_cons, List.map_append]
    exact .cons ((Token.Kind.sign?_valued _).trans signed) term.valued induction

theorem Opens.valued {labels : Bool} {tokens : List Token} {head : Expression}
    (opens : Opens symbols labels tokens head) :
    Opens symbols labels (tokens.map (Token.valued symbols.constant?)) head := by
  cases opens with
  | term isTerm => exact .term isTerm.valued
  | label allowed named =>
    exact .label allowed (by simp [Token.valued, Token.Kind.valued, named])

theorem Sums.valued {labels : Bool} {tokens : List Token} {expression : Expression}
    (sums : Sums symbols labels tokens expression) :
    Sums symbols labels (tokens.map (Token.valued symbols.constant?)) expression := by
  cases sums with
  | sum opens summands inRange fits =>
    rw [List.map_append]
    exact .sum opens.valued summands.valued inRange fits

theorem NoTerm.apart {taken : List Token} {after : Cursor} {diagnostic : Diagnostic}
    (stuck : NoTerm symbols taken after diagnostic) :
    diagnostic.cause.concernsSymbol = false := by
  cases stuck with
  | unknown named missing => rfl
  | loneMinus minus other => exact congrArg Cause.concernsSymbol (after.cause_complain _)
  | nothing noInteger noMinus noName => exact congrArg Cause.concernsSymbol (after.cause_complain _)

theorem Stumbles.apart {labels : Bool} {taken : List Token} {after : Cursor} {diagnostic : Diagnostic}
    (stumbles : Stumbles symbols labels taken after diagnostic) :
    diagnostic.cause.concernsSymbol = false := by
  cases stumbles with
  | opening noLabel stuck => exact stuck.apart
  | chain opens summands inRange breaks =>
    cases breaks with
    | term signed stuck => exact stuck.apart
    | range signed term beyond => rfl
  | whole opens summands inRange stops beyond => rfl

theorem settles_parse (labels : Bool) :
    Settles symbols.constant? id (parse symbols labels) (parse symbols labels) := by
  constructor
  · intro cursor after expression read
    obtain ⟨tokens, rfl, sums, stops⟩ := sums_of_read read
    rw [after.before_valued]
    apply sums.valued.read
    rw [after.peek_valued]
    exact (Token.Kind.sign?_valued _).trans stops
  · intro cursor after diagnostic read
    obtain ⟨taken, -, stumbles⟩ := stumbles_of_read read
    exact stumbles.apart

/-- No expression starts with a variable that has no value. -/
theorem known_of_read {labels : Bool} {cursor after : Cursor} {expression : Expression} {name : String}
    (read : parse symbols labels cursor = (.ok expression, after))
    (named : cursor.peek.kind = .atName name) : symbols.constant? name ≠ none := by
  intro missing
  rw [parse_of_no_label symbols (by simp [named])] at read
  obtain ⟨head, middle, started, -⟩ := bind_eq_ok.mp read
  simp [term, named, missing] at started

end Expression

namespace Operand

theorem settles_distance : Settles symbols.constant? id (distance symbols) (distance symbols) := by
  refine settles_peek fun start => ?_
  refine settles_bind (Expression.settles_parse false) fun expression => ?_
  cases expression with
  | value number => exact settles_pure rfl
  | symbol name addend => exact settles_fail rfl _

theorem settles_indexed_by (register : Index) :
    Settles symbols.constant? id (indexedBy symbols register) (indexedBy symbols register) := by
  have far : Settles symbols.constant? id
      (distance symbols >>= fun found => pure (indexed register found))
      (distance symbols >>= fun found => pure (indexed register found)) :=
    settles_bind (settles_distance symbols) fun found => settles_pure rfl
  refine settles_peek fun sign => ?_
  obtain ⟨kind, position⟩ := sign
  cases kind with
  | plus => exact settles_take far
  | minus => exact far
  | atName name =>
    cases seen : symbols.constant? name <;> simp only [Token.valued, Token.Kind.valued, seen] <;>
      exact settles_pure rfl
  | _ => exact settles_pure rfl

theorem settles_enclosed :
    Settles symbols.constant? id (enclosed symbols) (enclosed symbols) := by
  have address : Settles symbols.constant? id
      (Expression.parse symbols true >>= fun found => pure (memory found))
      (Expression.parse symbols true >>= fun found => pure (memory found)) :=
    settles_bind (Expression.settles_parse true) fun found => settles_pure rfl
  refine settles_peek fun token => ?_
  obtain ⟨kind, position⟩ := token
  cases kind with
  | text name =>
    simp only [Token.valued, Token.Kind.valued]
    split
    · exact settles_take (settles_pure rfl)
    · exact settles_take (settles_indexed_by symbols _)
    · exact address
  | atName name =>
    cases seen : symbols.constant? name <;> simp only [Token.valued, Token.Kind.valued, seen] <;>
      exact address
  | _ => exact address

theorem settles_immediate (labels : Bool) : Settles symbols.constant? id
    (Expression.parse symbols labels >>= fun found => pure (immediate found))
    (Expression.parse symbols labels >>= fun found => pure (immediate found)) :=
  settles_bind (Expression.settles_parse labels) fun _ => settles_pure rfl

theorem settles_starting_with {kind : Token.Kind}
    (seen : ∀ name, kind = .atName name → symbols.constant? name ≠ none) :
    Settles symbols.constant? id (startingWith symbols kind)
      (startingWith symbols (kind.valued symbols.constant?)) := by
  cases kind with
  | text name =>
    unfold startingWith
    simp only [Token.Kind.valued]
    split
    · exact settles_take (settles_pure rfl)
    · exact settles_immediate symbols true
  | leftParen =>
    refine settles_take (settles_bind (settles_enclosed symbols) fun operand => ?_)
    exact settles_bind (settles_expect (.inr rfl) _) fun _ => settles_pure rfl
  | integer number | minus => exact settles_immediate symbols false
  | atName name =>
    obtain ⟨number, known⟩ := Option.ne_none_iff_exists'.mp (seen name rfl)
    simp only [Token.Kind.valued, known]
    exact settles_immediate symbols false
  | _ => exact settles_refuse rfl _

section

variable {symbols} {cursor after : Cursor}

/-- An operand that starts with a variable is accepted only if this has a value. -/
theorem known_of_starting_with {operand : Operand}
    (read : startingWith symbols cursor.peek.kind cursor = (.ok operand, after)) {name : String}
    (named : cursor.peek.kind = .atName name) : symbols.constant? name ≠ none := by
  rw [named] at read
  obtain ⟨expression, middle, first, -⟩ := bind_eq_ok.mp read
  exact Expression.known_of_read first named

theorem apart_of_starting_with {kind : Token.Kind} {diagnostic : Diagnostic}
    (read : startingWith symbols kind cursor = (.error diagnostic, after)) :
    diagnostic.cause.concernsSymbol = false := by
  cases kind with
  | atName name => exact (settles_immediate symbols false).refused read
  | _ => exact (settles_starting_with symbols (by simp)).refused read

end

end Operand

theorem Argument.settles_parse :
    Settles symbols.constant? (valuing symbols.constant?).argument (Argument.parse symbols)
      (Argument.parse symbols) := by
  constructor
  · intro cursor after argument read
    rw [Argument.parse, bind_of_ok (by rfl)] at read ⊢
    obtain ⟨operand, middle, started, built⟩ := bind_eq_ok.mp read
    cases built
    have seen (name : String) : cursor.peek.kind = .atName name → symbols.constant? name ≠ none :=
      Operand.known_of_starting_with started
    have settled := (Operand.settles_starting_with symbols seen).accepted started
    rw [cursor.peek_valued]
    refine (bind_of_ok settled).trans ?_
    rw [Rewording.argument, Rewording.valuing_operand]
    rfl
  · intro cursor after diagnostic read
    rw [Argument.parse, bind_of_ok (by rfl), bind_apply] at read
    rcases started : Operand.startingWith symbols cursor.peek.kind cursor with
      ⟨complaint | operand, middle⟩
    · rw [started] at read
      cases read
      exact Operand.apart_of_starting_with started
    · rw [started] at read
      cases read

namespace Selection

theorem settles_of_one {choose : Argument → Except Diagnostic Selection} (isChoice : IsChoice choose) :
    Settles symbols.constant? id (ofOne symbols choose) (ofOne symbols choose) :=
  settles_bind (Argument.settles_parse symbols) fun argument =>
    settles_of_except (isChoice.settled argument)

theorem settles_of_two {choose : Argument → Argument → Except Diagnostic Selection}
    (isChoice : IsChoiceOfTwo choose) :
    Settles symbols.constant? id (ofTwo symbols choose) (ofTwo symbols choose) := by
  have pair : Settles symbols.constant?
      (Prod.map (valuing symbols.constant?).argument (valuing symbols.constant?).argument)
      (two symbols) (two symbols) := by
    refine settles_bind (Argument.settles_parse symbols) fun first => ?_
    refine settles_bind (settles_expect (.inl rfl) _) fun _ => ?_
    refine settles_bind (Argument.settles_parse symbols) fun second => ?_
    exact settles_pure rfl
  exact settles_bind pair fun found => settles_of_except (isChoice.settled found.1 found.2)

theorem settles_of_one_or_two {one : Argument → Except Diagnostic Selection}
    {both : Argument → Argument → Except Diagnostic Selection} (alone : IsChoice one)
    (ofBoth : IsChoiceOfTwo both) :
    Settles symbols.constant? id (ofOneOrTwo symbols one both) (ofOneOrTwo symbols one both) := by
  have found : Settles symbols.constant?
      (Prod.map (valuing symbols.constant?).argument (Option.map (valuing symbols.constant?).argument))
      (oneOrTwo symbols) (oneOrTwo symbols) := by
    refine settles_bind (Argument.settles_parse symbols) fun first => ?_
    refine settles_bind (settles_eat (.inl rfl)) fun comma => ?_
    cases comma with
    | true =>
      refine settles_bind (Argument.settles_parse symbols) fun second => ?_
      exact settles_pure rfl
    | false => exact settles_pure rfl
  refine settles_bind found fun arguments => ?_
  obtain ⟨first, _ | second⟩ := arguments
  · exact settles_of_except (alone.settled first)
  · exact settles_of_except (ofBoth.settled first second)

theorem settles_of_none_or_one (alone : Selection) {one : Argument → Except Diagnostic Selection}
    (isChoice : IsChoice one) :
    Settles symbols.constant? id (ofNoneOrOne symbols alone one) (ofNoneOrOne symbols alone one) := by
  have found : Settles symbols.constant? (Option.map (valuing symbols.constant?).argument)
      (noneOrOne symbols) (noneOrOne symbols) := by
    refine settles_bind settles_at_line_end fun ends => ?_
    cases ends with
    | true => exact settles_pure rfl
    | false => exact settles_bind (Argument.settles_parse symbols) fun argument => settles_pure rfl
  refine settles_bind found fun argument => ?_
  cases argument with
  | none => exact settles_pure rfl
  | some argument => exact settles_of_except (isChoice.settled argument)

theorem settles_parse (mnemonic : Mnemonic) :
    Settles symbols.constant? id (Selection.parse symbols mnemonic)
      (Selection.parse symbols mnemonic) := by
  apply parse_cases (motive := fun reader => Settles symbols.constant? id reader reader)
  · exact fun _ _ => settles_pure rfl
  · exact fun _ isChoice => settles_of_one symbols isChoice
  · exact fun _ isChoice => settles_of_two symbols isChoice
  · exact fun _ _ alone ofBoth => settles_of_one_or_two symbols alone ofBoth
  · exact fun _ _ _ isChoice => settles_of_none_or_one symbols _ isChoice

end Selection

theorem settles_byte_number :
    Settles symbols.constant? id (byteNumber symbols) (byteNumber symbols) := by
  refine settles_bind (Argument.settles_parse symbols) fun argument => ?_
  simp only [Rewording.argument, Rewording.valuing_operand]
  split
  · exact settles_bind (settles_of_except (Selection.settled_byte argument _)) fun _ => settles_pure rfl
  · exact settles_fail rfl _

theorem settles_byte_item : Settles symbols.constant? id (byteItem symbols) (byteItem symbols) := by
  have number := settles_byte_number symbols
  refine settles_peek fun token => ?_
  obtain ⟨kind, position⟩ := token
  cases kind with
  | string text =>
    refine settles_take (settles_of_except ⟨fun _ accepted => accepted, ?_⟩)
    intro diagnostic refused
    obtain ⟨token, member, cause, rfl, apart | ⟨name, named, -⟩⟩ :=
      blames_string_bytes (List.mem_singleton_self _) _ diagnostic refused
    · exact apart
    · obtain rfl := List.mem_singleton.mp member
      cases named
  | atName name =>
    cases seen : symbols.constant? name <;> simp only [Token.valued, Token.Kind.valued, seen] <;>
      exact number
  | _ => exact number

theorem settles_word_item : Settles symbols.constant? id (wordItem symbols) (wordItem symbols) := by
  refine settles_bind (Argument.settles_parse symbols) fun argument => ?_
  simp only [Rewording.argument, Rewording.valuing_operand]
  split
  · exact settles_bind (settles_of_except (Selection.settled_word argument _)) fun _ => settles_pure rfl
  · exact settles_pure rfl
  · exact settles_fail rfl _

section

variable {α : Type} {known : String → Option Int} {item : Parse α}
  (each : Settles known id item item)

include each

theorem settles_items_up_to (count : Nat) :
    Settles known id (itemsUpTo item count) (itemsUpTo item count) := by
  induction count with
  | zero => exact settles_pure rfl
  | succ count induction =>
    refine settles_bind each fun first => ?_
    refine settles_bind (settles_eat (.inl rfl)) fun comma => ?_
    cases comma with
    | true => exact settles_bind induction fun rest => settles_pure rfl
    | false => exact settles_pure rfl

theorem settles_items : Settles known id (items item) (items item) := by
  constructor
  · intro cursor after found read
    rw [items, cursor.length_line_ahead_valued]
    exact (settles_items_up_to each _).accepted read
  · intro cursor after diagnostic read
    exact (settles_items_up_to each _).refused read

end

/-- A statement is read in the same way with values in place of the variables behind its first token,
and none is refused because of a symbol. -/
theorem Statement.settles_parse (head : Token) :
    Settles symbols.constant? id (Statement.parse symbols head) (Statement.parse symbols head) := by
  unfold Statement.parse
  split
  · unfold parseNamed
    split
    · exact settles_bind (settles_items (settles_byte_item symbols)) fun items => settles_pure rfl
    · exact settles_bind (settles_items (settles_word_item symbols)) fun items => settles_pure rfl
    · exact settles_bind (Selection.settles_parse symbols _) fun selection => settles_pure rfl
    · exact settles_fail rfl _
  · exact settles_fail rfl _

/-! ### Lines -/

namespace Token

/-- The variables that the statement of a line uses. Its first token is no use: it defines. -/
def uses (line : List Token) : List String :=
  (statement line).tail.filterMap fun token =>
    match token.kind with
    | .atName name => some name
    | _ => none

theorem exists_of_mem_uses {line : List Token} {name : String} (used : name ∈ uses line) :
    ∃ token ∈ (statement line).tail, token.kind = .atName name := by
  obtain ⟨token, member, found⟩ := List.mem_filterMap.mp used
  refine ⟨token, member, ?_⟩
  split at found
  · next other named =>
    cases found
    exact named
  · cases found

variable (known : String → Option Int) (line : List Token)

theorem take_while_valued_behind :
    (valuedBehind known (line.dropWhile isLabel)).takeWhile isLabel = [] := by
  cases rest : line.dropWhile isLabel with
  | nil => rfl
  | cons head more =>
    have some : line.dropWhile isLabel ≠ [] := by simp [rest]
    have unlabelled := List.head_dropWhile_not isLabel some
    simp only [rest, List.head_cons] at unlabelled
    simp [valuedBehind, unlabelled]

theorem labels_valued_line : labels (valuedLine known line) = labels line := by
  have inside : ∀ token ∈ labels line, token.isLabel = true := is_label_of_mem_labels
  rw [labels, valuedLine, List.takeWhile_append_of_pos inside, take_while_valued_behind,
    List.append_nil]

theorem drop_while_valued_line :
    (valuedLine known line).dropWhile isLabel = valuedBehind known (line.dropWhile isLabel) := by
  have whole : labels (valuedLine known line) ++ (valuedLine known line).dropWhile isLabel =
      valuedLine known line := List.takeWhile_append_dropWhile
  rw [labels_valued_line] at whole
  exact List.append_cancel_left whole

theorem map_position_valued_line :
    (valuedLine known line).map Token.position = line.map Token.position := by
  have behind (rest : List Token) :
      (valuedBehind known rest).map Token.position = rest.map Token.position := by
    cases rest <;> simp [valuedBehind, valued]
  rw [valuedLine, List.map_append, behind, ← List.map_append, labels,
    List.takeWhile_append_dropWhile]

/-- Values change the kinds of tokens only. -/
theorem is_line_valued_line {line : List Token} (isLine : IsLine line) :
    IsLine (valuedLine known line) := by
  have behind {rest : List Token} (plain : ∀ token ∈ rest, token.kind.endsLine = false) :
      ∀ token ∈ valuedBehind known rest, token.kind.endsLine = false := by
    cases rest with
    | nil => simp [valuedBehind]
    | cons head more =>
      simpa [valuedBehind, valued, Kind.ends_line_valued] using plain
  have inside {body : List Token} (plain : ∀ token ∈ body, token.kind.endsLine = false) :
      ∀ token ∈ valuedLine known body, token.kind.endsLine = false :=
    List.forall_mem_append.mpr ⟨fun token member => plain token ((List.takeWhile_subset _) member),
      behind fun token member => plain token ((List.dropWhile_subset _) member)⟩
  cases isLine with
  | unclosed plain => exact .unclosed (inside plain)
  | @closed body feed plain ends =>
    have last : valuedBehind known (body.dropWhile isLabel ++ [feed]) =
        valuedBehind known (body.dropWhile isLabel) ++ [feed] := by
      have same : valued known feed = feed := by
        obtain ⟨kind, position⟩ := feed
        cases ends
        rfl
      cases body.dropWhile isLabel <;> simp [valuedBehind, same]
    have ending : IsEnding [feed] := .feed ends
    rw [valuedLine, labels_append ending, drop_while_is_label_append ending, last,
      ← List.append_assoc]
    exact .closed (inside plain) ends

end Token

namespace Cursor

variable (known : String → Option Int) (line : List Token)

theorem behind_labels_valued_line : behindLabels (Token.valuedLine known line) =
    ⟨Token.valuedBehind known (line.dropWhile Token.isLabel), (ofTokens line).final⟩ := by
  have final : (ofTokens (Token.valuedLine known line)).final = (ofTokens line).final := by
    simp only [ofTokens, ← List.getLast?_map, Token.map_position_valued_line]
  rw [behindLabels, Token.drop_while_valued_line, final]

theorem peek_behind_labels_valued_line :
    (behindLabels (Token.valuedLine known line)).peek = (behindLabels line).peek := by
  rw [behind_labels_valued_line, behindLabels]
  cases line.dropWhile Token.isLabel <;> rfl

theorem skip_behind_labels_valued_line :
    (behindLabels (Token.valuedLine known line)).skip = (behindLabels line).skip.valued known := by
  rw [behind_labels_valued_line, behindLabels]
  cases line.dropWhile Token.isLabel <;> rfl

end Cursor

namespace Draft

theorem Takes.valued {draft after : Draft} {line : List Token}
    (takes : draft.Takes (.behindLabels line) after) :
    draft.Takes (.behindLabels (Token.valuedLine draft.symbols.constant? line)) after := by
  have peek := Cursor.peek_behind_labels_valued_line draft.symbols.constant? line
  have skip := Cursor.skip_behind_labels_valued_line draft.symbols.constant? line
  cases takes with
  | @constant name number rest kind read ends fresh =>
    have settled := (Expression.settles_parse false).accepted read
    rw [← peek] at kind ⊢
    rw [← skip] at settled
    exact .constant kind settled (rest.at_line_end_valued.trans ends) fresh
  | @code statement rest after read ends fits appends =>
    have settled := (Statement.settles_parse draft.symbols _).accepted read
    rw [← peek] at settled appends
    rw [← skip] at settled
    exact .code settled (rest.at_line_end_valued.trans ends) fits appends

theorem Takes.unique {draft after other : Draft} {cursor : Cursor} (takes : draft.Takes cursor after)
    (again : draft.Takes cursor other) : after = other := by
  have first := (takes_iff.mp takes).1
  rw [(takes_iff.mp again).1] at first
  cases first
  rfl

end Draft

theorem Symbols.constant?_append_label (symbols : Symbols) {symbol : Symbol}
    (label : symbol.kind = .label) :
    Symbols.constant? ⟨symbols.entries ++ [symbol]⟩ = symbols.constant? := by
  funext name
  unfold constant? find?
  rw [List.find?_append]
  cases symbols.entries.find? (·.name == name) with
  | some found => rfl
  | none =>
    by_cases same : symbol.name = name <;> simp [same, label]

namespace Draft

/-- No variable sees a label. -/
theorem Labels.constant?_eq {draft labelled : Draft} {tokens : List Token}
    (defined : draft.Labels tokens labelled) :
    labelled.symbols.constant? = draft.symbols.constant? := by
  induction defined with
  | nil draft => rfl
  | define kind fresh later induction => exact induction.trans (Symbols.constant?_append_label _ rfl)
  | report kind taken later induction => exact induction

variable {draft : Draft} {line : List Token} (isLine : Token.IsLine line)
  (accepted : ¬ draft.Rejects line)

include isLine accepted

/-- A line that is accepted does the same with values in place of its variables, and holds no bad
token then. -/
theorem line_valued :
    draft.line (Token.valuedLine draft.symbols.constant? line) = draft.line line ∧
      ∀ token ∈ Token.valuedLine draft.symbols.constant? line, ¬ token.IsBad := by
  simp only [Rejects, Classical.not_forall, Classical.not_not] at accepted
  obtain ⟨labelled, defined, after, takes⟩ := accepted
  have settled := takes.valued
  rw [defined.constant?_eq] at settled
  have same : draft.line line = after := by
    have effect := line_effect isLine defined
    generalize draft.line line = found at effect
    cases effect with
    | taken others => exact others.unique takes
    | passed refused => exact absurd takes (refused _)
    | reported refused => exact absurd takes (refused _)
  have again := defined
  rw [← Token.labels_valued_line draft.symbols.constant? line] at again
  have effect := line_effect (Token.is_line_valued_line draft.symbols.constant? isLine) again
  generalize draft.line (Token.valuedLine draft.symbols.constant? line) = found at effect
  cases effect with
  | taken others sound => exact ⟨(others.unique settled).trans same.symm, sound⟩
  | passed refused => exact absurd settled (refused _)
  | reported refused => exact absurd settled (refused _)

/-- A line that is accepted uses no variable without a value. -/
theorem known_of_uses {name : String} (used : name ∈ Token.uses line) :
    draft.symbols.constant? name ≠ none := by
  intro missing
  obtain ⟨token, member, named⟩ := Token.exists_of_mem_uses used
  have inside : token ∈ (line.dropWhile Token.isLabel).tail :=
    (List.takeWhile_sublist _).tail.subset member
  refine (line_valued isLine accepted).2 (token.valued draft.symbols.constant?) ?_ ⟨name, ?_⟩
  · apply List.mem_append_right
    cases rest : line.dropWhile Token.isLabel with
    | nil => simp [rest] at inside
    | cons head more =>
      rw [rest] at inside
      exact List.mem_cons_of_mem _ (List.mem_map_of_mem inside)
  · simp [Token.valued, Token.Kind.valued, named, missing]

end Draft

end Z80Toolchain
