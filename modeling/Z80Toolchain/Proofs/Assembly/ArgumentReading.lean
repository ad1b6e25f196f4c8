import Z80Toolchain.Assembly.Statement
import Z80Toolchain.Proofs.Assembly.OperandReading

/-!
An instruction is read in two parts: the operands behind the mnemonic, and the choice that the
mnemonic makes from them. The readers of all mnemonics take their operands in the same way, so what
they accept is a list of operands between two cursors, which these cursors determine.
-/
namespace Z80Toolchain

/-! ### Lists of operands -/

inductive ArgumentList (symbols : Symbols) : Cursor → List Argument → Cursor → Prop
  | one {cursor after : Cursor} {argument : Argument} :
      Argument.parse symbols cursor = (.ok argument, after) →
        ArgumentList symbols cursor [argument] after
  | more {cursor middle after : Cursor} {argument : Argument} {others : List Argument} :
      Argument.parse symbols cursor = (.ok argument, middle) → middle.peek.kind = .comma →
        ArgumentList symbols middle.skip others after →
          ArgumentList symbols cursor (argument :: others) after

inductive ArgumentsBetween (symbols : Symbols) : Cursor → List Argument → Cursor → Prop
  | none (cursor : Cursor) : ArgumentsBetween symbols cursor [] cursor
  | some {cursor after : Cursor} {arguments : List Argument} :
      ArgumentList symbols cursor arguments after → ArgumentsBetween symbols cursor arguments after

namespace Parse

/-- A result that needs no tokens leaves the cursor where it is. -/
theorem of_except_eq_ok {α : Type} {result : Except Diagnostic α} {cursor after : Cursor} {value : α} :
    ofExcept result cursor = (.ok value, after) ↔ result = .ok value ∧ after = cursor := by
  cases result with
  | ok found =>
    simp only [ofExcept, pure_apply, Prod.mk.injEq, Except.ok.injEq]
    exact and_congr_right fun _ => eq_comm
  | error diagnostic => simp [ofExcept, fail]

theorem expect_eq_ok {kind : Token.Kind} {what : String} {cursor after : Cursor} {value : Unit} :
    expect kind what cursor = (.ok value, after) ↔
      cursor.peek.kind = kind ∧ after = cursor.skip := by
  unfold expect
  split <;> rename_i found <;> simp [found, eq_comm]

theorem expect_of_kind {kind : Token.Kind} {cursor : Cursor} (found : cursor.peek.kind = kind)
    (what : String) : expect kind what cursor = (.ok (), cursor.skip) :=
  expect_eq_ok.mpr ⟨found, rfl⟩

theorem eat_eq_true {kind : Token.Kind} {cursor : Cursor} (found : cursor.peek.kind = kind) :
    eat kind cursor = (.ok true, cursor.skip) := by
  rw [eat, if_pos found]

theorem eat_eq_false {kind : Token.Kind} {cursor : Cursor} (other : cursor.peek.kind ≠ kind) :
    eat kind cursor = (.ok false, cursor) := by
  rw [eat, if_neg other]

end Parse

namespace Selection

/-! ### Operands of one mnemonic -/

section

variable {symbols : Symbols} {cursor after : Cursor} {selection : Selection}

theorem of_one_inversion {one : Argument → Except Diagnostic Selection}
    (read : ofOne symbols one cursor = (.ok selection, after)) :
    ∃ argument, ArgumentsBetween symbols cursor [argument] after ∧ one argument = .ok selection := by
  obtain ⟨argument, middle, parsed, chosen⟩ := Parse.bind_eq_ok.mp read
  obtain ⟨found, rfl⟩ := Parse.of_except_eq_ok.mp chosen
  exact ⟨argument, .some (.one parsed), found⟩

theorem two_inversion {first second : Argument}
    (read : two symbols cursor = (.ok (first, second), after)) :
    ArgumentList symbols cursor [first, second] after := by
  obtain ⟨left, middle, parsed, read⟩ := Parse.bind_eq_ok.mp read
  obtain ⟨_, behind, expected, read⟩ := Parse.bind_eq_ok.mp read
  obtain ⟨comma, rfl⟩ := Parse.expect_eq_ok.mp expected
  obtain ⟨right, final, parsedRight, read⟩ := Parse.bind_eq_ok.mp read
  cases read
  exact .more parsed comma (.one parsedRight)

theorem of_two_inversion {both : Argument → Argument → Except Diagnostic Selection}
    (read : ofTwo symbols both cursor = (.ok selection, after)) :
    ∃ first second, ArgumentsBetween symbols cursor [first, second] after ∧
      both first second = .ok selection := by
  obtain ⟨⟨first, second⟩, middle, parsed, chosen⟩ := Parse.bind_eq_ok.mp read
  obtain ⟨found, rfl⟩ := Parse.of_except_eq_ok.mp chosen
  exact ⟨first, second, .some (two_inversion parsed), found⟩

theorem of_one_or_two_inversion {one : Argument → Except Diagnostic Selection}
    {both : Argument → Argument → Except Diagnostic Selection}
    (read : ofOneOrTwo symbols one both cursor = (.ok selection, after)) :
    (∃ argument, ArgumentsBetween symbols cursor [argument] after ∧ one argument = .ok selection) ∨
      ∃ first second, ArgumentsBetween symbols cursor [first, second] after ∧
        both first second = .ok selection := by
  obtain ⟨⟨first, second⟩, middle, parsed, chosen⟩ := Parse.bind_eq_ok.mp read
  obtain ⟨argument, behind, parsedFirst, parsed⟩ := Parse.bind_eq_ok.mp parsed
  by_cases comma : behind.peek.kind = .comma
  · rw [Parse.bind_of_ok (Parse.eat_eq_true comma)] at parsed
    obtain ⟨right, final, parsedRight, parsed⟩ := Parse.bind_eq_ok.mp parsed
    cases parsed
    obtain ⟨found, rfl⟩ := Parse.of_except_eq_ok.mp chosen
    exact .inr ⟨first, right, .some (.more parsedFirst comma (.one parsedRight)), found⟩
  · rw [Parse.bind_of_ok (Parse.eat_eq_false comma)] at parsed
    cases parsed
    obtain ⟨found, rfl⟩ := Parse.of_except_eq_ok.mp chosen
    exact .inl ⟨first, .some (.one parsedFirst), found⟩

theorem of_none_or_one_inversion {alone : Selection} {one : Argument → Except Diagnostic Selection}
    (read : ofNoneOrOne symbols alone one cursor = (.ok selection, after)) :
    (ArgumentsBetween symbols cursor [] after ∧ alone = selection) ∨
      ∃ argument, ArgumentsBetween symbols cursor [argument] after ∧ one argument = .ok selection := by
  obtain ⟨found, middle, parsed, chosen⟩ := Parse.bind_eq_ok.mp read
  obtain ⟨ends, same, looked, parsed⟩ := Parse.bind_eq_ok.mp parsed
  cases looked
  by_cases final : cursor.atLineEnd
  · rw [if_pos final] at parsed
    cases parsed
    cases chosen
    exact .inl ⟨.none cursor, rfl⟩
  · rw [if_neg final] at parsed
    obtain ⟨argument, behind, parsedOne, parsed⟩ := Parse.bind_eq_ok.mp parsed
    cases parsed
    obtain ⟨found, rfl⟩ := Parse.of_except_eq_ok.mp chosen
    exact .inr ⟨argument, .some (.one parsedOne), found⟩

end

/-! ### The choice of a mnemonic -/

/-- The selection for operands that have been read, if the mnemonic accepts them. -/
def choose? : Mnemonic → List Argument → Option Selection
  | .implied operation, [] => some (plain (.implied operation))
  | .ld, [target, source] => (load target source).toOption
  | .ex, [first, second] => (exchange first second).toOption
  | .push, [argument] => (stacked .push argument .push).toOption
  | .pop, [argument] => (stacked .pop argument .pop).toOption
  | .arith operation, [source] => (arith8 operation source).toOption
  | .arith operation, [first, second] => (arith operation first second).toOption
  | .inc, [argument] => (counted .inc argument .incrementWord .increment).toOption
  | .dec, [argument] => (counted .dec argument .decrementWord .decrement).toOption
  | .shift operation, [argument] => (shift operation argument).toOption
  | .bit operation, [index, argument] => (bit operation index argument).toOption
  | .jp, [argument] => (jump argument).toOption
  | .jp, [first, second] => (conditional .jp first second .jumpIf).toOption
  | .jr, [argument] => (withDistance .jr argument .jumpRelative).toOption
  | .jr, [first, second] => (relativeConditional first second).toOption
  | .djnz, [argument] => (withDistance .djnz argument .countDown).toOption
  | .call, [argument] => (call argument).toOption
  | .call, [first, second] => (conditional .call first second .callIf).toOption
  | .ret, [] => some (plain .ret)
  | .ret, [argument] => (returnIf argument).toOption
  | .rst, [argument] => (restart argument).toOption
  | .im, [argument] => (interruptMode argument).toOption
  | .input, [argument] => (inputAlone argument).toOption
  | .input, [first, second] => (input first second).toOption
  | .output, [first, second] => (output first second).toOption
  | _, _ => none

theorem to_option_eq_some {result : Except Diagnostic Selection} {selection : Selection} :
    result.toOption = some selection ↔ result = .ok selection := by
  cases result <;> simp [Except.toOption]

/-- A mnemonic reads operands and chooses from them. -/
theorem parse_inversion {symbols : Symbols} {mnemonic : Mnemonic} {cursor after : Cursor}
    {selection : Selection} (read : parse symbols mnemonic cursor = (.ok selection, after)) :
    ∃ arguments, ArgumentsBetween symbols cursor arguments after ∧
      choose? mnemonic arguments = some selection := by
  cases mnemonic with
  | implied operation =>
    cases read
    exact ⟨[], .none cursor, rfl⟩
  | push | pop | inc | dec | shift operation | djnz | rst | im =>
    obtain ⟨argument, between, chosen⟩ := of_one_inversion read
    exact ⟨[argument], between, to_option_eq_some.mpr chosen⟩
  | ld | ex | bit operation | output =>
    obtain ⟨first, second, between, chosen⟩ := of_two_inversion read
    exact ⟨[first, second], between, to_option_eq_some.mpr chosen⟩
  | arith operation | jp | jr | call | input =>
    rcases of_one_or_two_inversion read with
      ⟨argument, between, chosen⟩ | ⟨first, second, between, chosen⟩
    · exact ⟨[argument], between, to_option_eq_some.mpr chosen⟩
    · exact ⟨[first, second], between, to_option_eq_some.mpr chosen⟩
  | ret =>
    rcases of_none_or_one_inversion read with ⟨between, rfl⟩ | ⟨argument, between, chosen⟩
    · exact ⟨[], between, rfl⟩
    · exact ⟨[argument], between, to_option_eq_some.mpr chosen⟩

end Selection

/-! ### Reading takes tokens -/

def Parse.Advances {α : Type} (reader : Parse α) : Prop :=
  ∀ cursor value after, reader cursor = (.ok value, after) →
    after.ahead.length ≤ cursor.ahead.length

namespace Cursor

theorem length_skip_le (cursor : Cursor) : cursor.skip.ahead.length ≤ cursor.ahead.length := by
  simp [skip]

theorem length_skip_lt {cursor : Cursor} (found : cursor.peek.kind ≠ .endOfInput) :
    cursor.skip.ahead.length < cursor.ahead.length := by
  obtain ⟨ahead, final⟩ := cursor
  cases ahead with
  | nil => exact absurd rfl found
  | cons token rest => simp [skip]

end Cursor

namespace Parse

theorem advances_bind {α β : Type} {reader : Parse α} {next : α → Parse β}
    (first : Advances reader) (second : ∀ value, Advances (next value)) :
    Advances (reader >>= next) := by
  intro cursor result after read
  obtain ⟨value, middle, taken, read⟩ := bind_eq_ok.mp read
  exact Nat.le_trans (second value middle result after read) (first cursor value middle taken)

theorem advances_pure {α : Type} (value : α) : Advances (pure value : Parse α) := by
  intro cursor result after read
  cases read
  exact Nat.le_refl _

theorem advances_fail {α : Type} (diagnostic : Diagnostic) :
    Advances (fail diagnostic : Parse α) := by
  intro cursor result after read
  cases read

theorem advances_peek : Advances peek := by
  intro cursor result after read
  cases read
  exact Nat.le_refl _

theorem advances_take : Advances take := by
  intro cursor result after read
  cases read
  exact cursor.length_skip_le

theorem advances_expect (kind : Token.Kind) (what : String) : Advances (expect kind what) := by
  intro cursor result after read
  obtain ⟨-, rfl⟩ := expect_eq_ok.mp read
  exact cursor.length_skip_le

end Parse

namespace Expression

theorem term_shorter {symbols : Symbols} {cursor after : Cursor} {number : Int}
    (read : term symbols cursor = (.ok number, after)) :
    after.ahead.length < cursor.ahead.length := by
  unfold term at read
  split at read
  · rename_i digits integer
    cases read
    exact Cursor.length_skip_lt (by simp [integer])
  · rename_i minus
    split at read
    · cases read
      have first := cursor.length_skip_lt (by simp [minus])
      have second := cursor.skip.length_skip_le
      omega
    · cases read
  · rename_i name constant
    split at read
    · cases read
      exact Cursor.length_skip_lt (by simp [constant])
    · cases read
  · cases read

theorem advances_chain (symbols : Symbols) (sum : Int) :
    Parse.Advances (chain symbols sum : Parse Int) := by
  intro cursor total after read
  fun_induction chain symbols sum cursor with
  | case1 sum cursor unsigned =>
    cases read
    exact Nat.le_refl _
  | case2 => cases read
  | case3 sum cursor sign signed number middle term fits induction =>
    have shorter := term_shorter term
    have skipped := cursor.length_skip_le
    have rest := induction read
    omega
  | case4 => cases read

/-- A label is taken where one is allowed, with the terms behind it. -/
theorem parse_of_label (symbols : Symbols) {cursor : Cursor} {name : String}
    (named : cursor.peek.kind = .text name) :
    parse symbols true cursor =
      ((chain symbols 0 : Parse Int) >>= fun addend =>
        (pure (.symbol name addend) : Parse Expression)) cursor.skip := by
  rw [parse, Parse.bind_of_ok (by rfl)]
  simp only [named]
  rfl

theorem parse_shorter {symbols : Symbols} {labels : Bool} {cursor after : Cursor}
    {expression : Expression} (read : parse symbols labels cursor = (.ok expression, after)) :
    after.ahead.length < cursor.ahead.length := by
  by_cases label : ∃ name, cursor.peek.kind = .text name ∧ labels = true
  · obtain ⟨name, named, rfl⟩ := label
    rw [parse_of_label symbols named] at read
    obtain ⟨addend, middle, chained, read⟩ := Parse.bind_eq_ok.mp read
    cases read
    have skipped : cursor.skip.ahead.length < cursor.ahead.length :=
      Cursor.length_skip_lt (by simp [named])
    have rest := advances_chain symbols 0 _ _ _ chained
    omega
  · have noLabel : ∀ name, cursor.peek.kind = .text name → labels = false := by
      intro name named
      exact eq_false_of_ne_true fun allowed => label ⟨name, named, allowed⟩
    rw [parse_of_no_label symbols noLabel] at read
    obtain ⟨head, middle, first, read⟩ := Parse.bind_eq_ok.mp read
    obtain ⟨addend, behind, chained, read⟩ := Parse.bind_eq_ok.mp read
    have shorter := term_shorter first
    have rest := advances_chain symbols 0 _ _ _ chained
    split at read <;> cases read
    omega

theorem advances_parse (symbols : Symbols) (labels : Bool) :
    Parse.Advances (parse symbols labels) := by
  intro cursor expression after read
  exact Nat.le_of_lt (parse_shorter read)

end Expression

namespace Operand

open Parse

theorem advances_distance (symbols : Symbols) : Advances (distance symbols) := by
  refine advances_bind advances_peek fun start => ?_
  refine advances_bind (Expression.advances_parse symbols false) fun expression => ?_
  cases expression with
  | value number => exact advances_pure number
  | symbol name addend => exact advances_fail _

theorem advances_indexed_by (symbols : Symbols) (register : Index) :
    Advances (indexedBy symbols register) := by
  refine advances_bind advances_peek fun sign => ?_
  split
  · exact advances_bind advances_take fun _ =>
      advances_bind (advances_distance symbols) fun _ => advances_pure _
  · exact advances_bind (advances_distance symbols) fun _ => advances_pure _
  · exact advances_pure _

theorem advances_enclosed (symbols : Symbols) : Advances (enclosed symbols) := by
  have address : Advances (do return memory (← Expression.parse symbols true)) :=
    advances_bind (Expression.advances_parse symbols true) fun _ => advances_pure _
  refine advances_bind advances_peek fun token => ?_
  split
  · split
    · exact advances_bind advances_take fun _ => advances_pure _
    · exact advances_bind advances_take fun _ => advances_indexed_by symbols _
    · exact address
  · exact address

/-- An operand takes at least its first token. -/
theorem starting_with_shorter {symbols : Symbols} {cursor after : Cursor} {operand : Operand}
    (read : startingWith symbols cursor.peek.kind cursor = (.ok operand, after)) :
    after.ahead.length < cursor.ahead.length := by
  have value : ∀ labels, (do return immediate (← Expression.parse symbols labels) : Parse Operand)
      cursor = (.ok operand, after) → after.ahead.length < cursor.ahead.length := by
    intro labels read
    obtain ⟨expression, middle, first, read⟩ := bind_eq_ok.mp read
    cases read
    exact Expression.parse_shorter first
  generalize first : cursor.peek.kind = kind at read
  cases kind with
  | text name =>
    cases found : ofName? name with
    | some register =>
      simp only [startingWith, found] at read
      cases read
      exact Cursor.length_skip_lt (by simp [first])
    | none =>
      simp only [startingWith, found] at read
      exact value true read
  | leftParen =>
    obtain ⟨token, middle, taken, read⟩ := bind_eq_ok.mp read
    cases taken
    have skipped : cursor.skip.ahead.length < cursor.ahead.length :=
      Cursor.length_skip_lt (by simp [first])
    have rest := advances_bind (advances_enclosed symbols) (fun inside =>
      advances_bind (advances_expect .rightParen "`)`") fun _ => advances_pure inside) _ _ _ read
    omega
  | integer | minus | atName => exact value false read
  | _ => cases read

end Operand

theorem Argument.parse_shorter {symbols : Symbols} {cursor after : Cursor} {argument : Argument}
    (read : Argument.parse symbols cursor = (.ok argument, after)) :
    after.ahead.length < cursor.ahead.length := by
  rw [Argument.parse, Parse.bind_of_ok (by rfl)] at read
  obtain ⟨operand, middle, started, read⟩ := Parse.bind_eq_ok.mp read
  cases read
  exact Operand.starting_with_shorter started

theorem ArgumentList.shorter {symbols : Symbols} {cursor after : Cursor}
    {arguments : List Argument} (listed : ArgumentList symbols cursor arguments after) :
    after.ahead.length < cursor.ahead.length := by
  induction listed with
  | one read => exact Argument.parse_shorter read
  | @more cursor middle after argument others read comma rest induction =>
    have first := Argument.parse_shorter read
    have skipped := middle.length_skip_le
    omega

theorem ArgumentList.unique {symbols : Symbols} {cursor after : Cursor}
    {arguments others : List Argument} (listed : ArgumentList symbols cursor arguments after)
    (again : ArgumentList symbols cursor others after) : arguments = others := by
  induction listed generalizing others with
  | one read =>
    cases again with
    | one readAgain => simp_all
    | more readAgain comma rest =>
      -- The second list goes on behind a comma at which the first one stops.
      obtain ⟨rfl, rfl⟩ : _ ∧ _ := by simpa using read.symm.trans readAgain
      exact absurd (Nat.lt_of_lt_of_le rest.shorter (Cursor.length_skip_le _)) (Nat.lt_irrefl _)
  | more read comma rest induction =>
    cases again with
    | one readAgain =>
      obtain ⟨rfl, rfl⟩ : _ ∧ _ := by simpa using read.symm.trans readAgain
      exact absurd (Nat.lt_of_lt_of_le rest.shorter (Cursor.length_skip_le _)) (Nat.lt_irrefl _)
    | more readAgain commaAgain restAgain =>
      obtain ⟨rfl, rfl⟩ : _ ∧ _ := by simpa using read.symm.trans readAgain
      rw [induction restAgain]

/-- The cursors before and behind operands determine them. -/
theorem ArgumentsBetween.unique {symbols : Symbols} {cursor after : Cursor}
    {arguments others : List Argument} (between : ArgumentsBetween symbols cursor arguments after)
    (again : ArgumentsBetween symbols cursor others after) : arguments = others := by
  cases between with
  | none =>
    cases again with
    | none => rfl
    | some listed => exact absurd listed.shorter (Nat.lt_irrefl _)
  | some listed =>
    cases again with
    | none => exact absurd listed.shorter (Nat.lt_irrefl _)
    | some listedAgain => exact listed.unique listedAgain

/-! ### Reading chosen operands -/

/-- No operand starts at the end of a line. -/
theorem Argument.at_line_end_of_parse {symbols : Symbols} {cursor after : Cursor}
    {argument : Argument} (read : Argument.parse symbols cursor = (.ok argument, after)) :
    cursor.atLineEnd = false := by
  rw [Argument.parse, Parse.bind_of_ok (by rfl)] at read
  obtain ⟨operand, middle, started, -⟩ := Parse.bind_eq_ok.mp read
  unfold Cursor.atLineEnd
  generalize cursor.peek.kind = kind at started
  cases kind <;> first | rfl | cases started

theorem Cursor.no_comma_of_at_line_end {cursor : Cursor} (ends : cursor.atLineEnd = true) :
    cursor.peek.kind ≠ .comma := by
  intro comma
  simp [Cursor.atLineEnd, comma, Token.Kind.endsLine] at ends

namespace Selection

section

variable {symbols : Symbols} {cursor after : Cursor} {selection : Selection}

theorem of_one_of_arguments {one : Argument → Except Diagnostic Selection} {argument : Argument}
    (listed : ArgumentList symbols cursor [argument] after) (chosen : one argument = .ok selection) :
    ofOne symbols one cursor = (.ok selection, after) := by
  cases listed with
  | one read => exact Parse.bind_eq_ok.mpr ⟨_, _, read, Parse.of_except_eq_ok.mpr ⟨chosen, rfl⟩⟩
  | more _ _ rest => cases rest

theorem of_two_of_arguments {both : Argument → Argument → Except Diagnostic Selection}
    {first second : Argument} (listed : ArgumentList symbols cursor [first, second] after)
    (chosen : both first second = .ok selection) :
    ofTwo symbols both cursor = (.ok selection, after) := by
  cases listed with
  | more read comma rest =>
    cases rest with
    | one readSecond =>
      have pair : two symbols cursor = (.ok (first, second), after) := by
        rw [two, Parse.bind_of_ok read,
          Parse.bind_of_ok (Parse.expect_of_kind comma _), Parse.bind_of_ok readSecond]
        rfl
      exact Parse.bind_eq_ok.mpr ⟨_, _, pair, Parse.of_except_eq_ok.mpr ⟨chosen, rfl⟩⟩
    | more _ _ none => cases none

theorem of_one_or_two_of_argument {one : Argument → Except Diagnostic Selection}
    {both : Argument → Argument → Except Diagnostic Selection} {argument : Argument}
    (listed : ArgumentList symbols cursor [argument] after) (ends : after.atLineEnd = true)
    (chosen : one argument = .ok selection) :
    ofOneOrTwo symbols one both cursor = (.ok selection, after) := by
  cases listed with
  | one read =>
    have alone : oneOrTwo symbols cursor = (.ok (argument, none), after) := by
      rw [oneOrTwo, Parse.bind_of_ok read,
        Parse.bind_of_ok (Parse.eat_eq_false (Cursor.no_comma_of_at_line_end ends))]
      rfl
    exact Parse.bind_eq_ok.mpr ⟨_, _, alone, Parse.of_except_eq_ok.mpr ⟨chosen, rfl⟩⟩
  | more _ _ rest => cases rest

theorem of_one_or_two_of_arguments {one : Argument → Except Diagnostic Selection}
    {both : Argument → Argument → Except Diagnostic Selection} {first second : Argument}
    (listed : ArgumentList symbols cursor [first, second] after)
    (chosen : both first second = .ok selection) :
    ofOneOrTwo symbols one both cursor = (.ok selection, after) := by
  cases listed with
  | more read comma rest =>
    cases rest with
    | one readSecond =>
      have pair : oneOrTwo symbols cursor = (.ok (first, some second), after) := by
        rw [oneOrTwo, Parse.bind_of_ok read, Parse.bind_of_ok (Parse.eat_eq_true comma), if_pos rfl,
          Parse.bind_of_ok readSecond]
        rfl
      exact Parse.bind_eq_ok.mpr ⟨_, _, pair, Parse.of_except_eq_ok.mpr ⟨chosen, rfl⟩⟩
    | more _ _ none => cases none

theorem of_none_or_one_of_argument {alone : Selection} {one : Argument → Except Diagnostic Selection}
    {argument : Argument} (listed : ArgumentList symbols cursor [argument] after)
    (chosen : one argument = .ok selection) :
    ofNoneOrOne symbols alone one cursor = (.ok selection, after) := by
  cases listed with
  | one read =>
    have looked : Parse.atLineEnd cursor = (.ok false, cursor) := by
      rw [Parse.atLineEnd, Argument.at_line_end_of_parse read]
    have found : noneOrOne symbols cursor = (.ok (some argument), after) := by
      rw [noneOrOne, Parse.bind_of_ok looked, if_neg (by decide), Parse.bind_of_ok read]
      rfl
    exact Parse.bind_eq_ok.mpr ⟨_, _, found, Parse.of_except_eq_ok.mpr ⟨chosen, rfl⟩⟩
  | more _ _ rest => cases rest

end

/-- Operands up to the end of a line are read as what the mnemonic chooses from them. -/
theorem parse_of_choose? {symbols : Symbols} {mnemonic : Mnemonic} {cursor after : Cursor}
    {arguments : List Argument} {selection : Selection}
    (between : ArgumentsBetween symbols cursor arguments after)
    (chosen : choose? mnemonic arguments = some selection) (ends : after.atLineEnd = true) :
    parse symbols mnemonic cursor = (.ok selection, after) := by
  unfold choose? at chosen
  split at chosen
  case h_1 =>
    cases chosen
    cases between with
    | none => rfl
    | some listed => cases listed
  case h_19 =>
    cases chosen
    cases between with
    | none =>
      have looked : Parse.atLineEnd cursor = (.ok true, cursor) := by
        rw [Parse.atLineEnd, ends]
      have found : noneOrOne symbols cursor = (.ok none, cursor) := by
        rw [noneOrOne, Parse.bind_of_ok looked]
        rfl
      exact Parse.bind_eq_ok.mpr ⟨_, _, found, rfl⟩
    | some listed => cases listed
  case h_26 => cases chosen
  all_goals
    cases between with
    | some listed =>
      rw [to_option_eq_some] at chosen
      first
        | exact of_one_of_arguments listed chosen
        | exact of_two_of_arguments listed chosen
        | exact of_one_or_two_of_argument listed ends chosen
        | exact of_one_or_two_of_arguments listed chosen
        | exact of_none_or_one_of_argument listed chosen

end Selection

end Z80Toolchain
