import Z80Toolchain.Proofs.Assembly.Complaints

/-!
Arguments in other words. The choice of an instruction looks at the operands of its arguments, and
at their tokens only to say which one it refuses. So arguments whose tokens have other places, other
kinds and other spellings of the labels get the same instruction, or the same complaint about the
other token. One lemma says so for each function that chooses, and one lists them by mnemonics, so
that a statement about all readers of instructions is proved by the number of their operands.
-/
namespace Z80Toolchain

/-! ### Rewordings -/

/-- A new place and a new kind for every token, and a new spelling for every label. -/
structure Rewording where
  place : Position → Position
  kind : Token.Kind → Token.Kind
  word : String → String

namespace Rewording

variable (rewording : Rewording)

def token (token : Token) : Token :=
  ⟨rewording.kind token.kind, rewording.place token.position⟩

def diagnostic (diagnostic : Diagnostic) : Diagnostic :=
  ⟨rewording.place diagnostic.position, diagnostic.cause, diagnostic.token.map rewording.kind⟩

def expression : Expression → Expression
  | .value number => .value number
  | .symbol name addend => .symbol (rewording.word name) addend

def operand : Operand → Operand
  | .memory address => .memory (rewording.expression address)
  | .immediate value => .immediate (rewording.expression value)
  | operand => operand

def argument (argument : Argument) : Argument :=
  ⟨rewording.operand argument.operand, rewording.token argument.token⟩

def target (target : Target) : Target :=
  ⟨rewording.word target.name, target.addend, rewording.place target.position⟩

def selection (selection : Selection) : Selection :=
  ⟨selection.instruction, selection.target.map (Prod.map id rewording.target)⟩

def result {α β : Type} (change : α → β) : Except Diagnostic α → Except Diagnostic β
  | .ok value => .ok (change value)
  | .error diagnostic => .error (rewording.diagnostic diagnostic)

theorem result_bind {rewording : Rewording} {α β γ δ : Type} {change : α → γ} {finish : β → δ}
    {result : Except Diagnostic α} {reworded : Except Diagnostic γ} {next : α → Except Diagnostic β}
    {nextReworded : γ → Except Diagnostic δ} (start : reworded = rewording.result change result)
    (rest : ∀ value, nextReworded (change value) = rewording.result finish (next value)) :
    reworded >>= nextReworded = rewording.result finish (result >>= next) := by
  subst start
  cases result with
  | error diagnostic => rfl
  | ok value => exact rest value

end Rewording

/-! ### Functions that choose -/

namespace Selection

open Rewording (result_bind)

variable {rewording : Rewording} {argument first second : Argument}

theorem byte_reworded (value : Expression) :
    byte (rewording.argument argument) (rewording.expression value) =
      rewording.result id (byte argument value) := by
  cases value with
  | value number =>
    simp only [byte, Rewording.expression]
    split <;> rfl
  | symbol name addend => rfl

theorem number_reworded (mnemonic : Mnemonic) :
    number mnemonic (rewording.argument argument) =
      rewording.result id (number mnemonic argument) := by
  obtain ⟨operand, token⟩ := argument
  cases operand with
  | immediate value => cases value <;> rfl
  | _ => rfl

theorem word_reworded (number : Int) :
    word (rewording.argument argument) number = rewording.result id (word argument number) := by
  unfold word
  split <;> rfl

theorem with_word_reworded (value : Expression) (build : UInt16 → Instruction) :
    withWord (rewording.argument argument) (rewording.expression value) build =
      rewording.result rewording.selection (withWord argument value build) := by
  cases value with
  | value number => exact result_bind (word_reworded number) fun _ => rfl
  | symbol name addend => rfl

theorem with_distance_reworded (mnemonic : Mnemonic) (build : UInt8 → Instruction) :
    withDistance mnemonic (rewording.argument argument) build =
      rewording.result rewording.selection (withDistance mnemonic argument build) := by
  obtain ⟨operand, token⟩ := argument
  cases operand with
  | immediate value =>
    cases value with
    | value number =>
      simp only [withDistance, Rewording.argument, Rewording.operand, Rewording.expression]
      split <;> rfl
    | symbol name addend => rfl
  | _ => rfl

theorem place_reworded (mnemonic : Mnemonic) :
    place mnemonic (rewording.argument argument) = rewording.result id (place mnemonic argument) := by
  obtain ⟨operand, token⟩ := argument
  cases operand with
  | indexed register distance =>
    simp only [place, Rewording.argument, Rewording.operand]
    split <;> rfl
  | _ => rfl

theorem cell_reworded (mnemonic : Mnemonic) :
    cell mnemonic (rewording.argument argument) = rewording.result id (cell mnemonic argument) := by
  refine result_bind (place_reworded mnemonic) fun found => ?_
  cases found <;> rfl

theorem wide_reworded (mnemonic : Mnemonic) (pair : Pair) :
    wide mnemonic (rewording.argument argument) pair =
      rewording.result id (wide mnemonic argument pair) := by
  cases pair <;> rfl

theorem addend_reworded (mnemonic : Mnemonic) (pair : Pair) :
    addend mnemonic (rewording.argument argument) pair =
      rewording.result id (addend mnemonic argument pair) := by
  cases pair <;> rfl

theorem cond?_reworded : (rewording.argument argument).cond? = argument.cond? := by
  obtain ⟨operand, token⟩ := argument
  cases operand <;> rfl

theorem condition_reworded (mnemonic : Mnemonic) :
    condition mnemonic (rewording.argument argument) =
      rewording.result id (condition mnemonic argument) := by
  unfold condition
  rw [cond?_reworded]
  cases argument.cond? <;> rfl

theorem load_reworded :
    load (rewording.argument first) (rewording.argument second) =
      rewording.result rewording.selection (load first second) := by
  -- the two forms that any other operands fall back on
  have places : (do
      let into ← place .ld (rewording.argument first)
      let out ← place .ld (rewording.argument second)
      if into.compatible out then return plain (.load into out)
      else invalid .ld (rewording.argument second)) =
      rewording.result rewording.selection (do
        let into ← place .ld first
        let out ← place .ld second
        if into.compatible out then return plain (.load into out)
        else invalid .ld second) := by
    refine result_bind (place_reworded _) fun into => result_bind (place_reworded _) fun out => ?_
    simp only [id]
    split <;> rfl
  have immediate (value : Expression) : (do
      let target ← place .ld (rewording.argument first)
      return plain (.loadByte target
        (← byte (rewording.argument second) (rewording.expression value)))) =
      rewording.result rewording.selection (do
        let target ← place .ld first
        return plain (.loadByte target (← byte second value))) :=
    result_bind (place_reworded _) fun _ => result_bind (byte_reworded _) fun _ => rfl
  obtain ⟨into, start⟩ := first
  obtain ⟨out, other⟩ := second
  cases into with
  | reg register =>
    cases register <;> cases out <;>
      first | exact places | exact immediate _ | rfl | exact with_word_reworded _ _
  | pair pair =>
    cases pair <;> cases out <;>
      first
      | exact places
      | rfl
      | exact result_bind (wide_reworded _ _) fun _ => with_word_reworded _ _
      | (rename_i pair; cases pair <;> rfl)
  | _ =>
    cases out <;>
      first
      | exact places
      | exact immediate _
      | exact with_word_reworded _ _
      | exact result_bind (wide_reworded _ _) fun _ => with_word_reworded _ _
      | (rename_i register; cases register <;> first | rfl | exact places | exact with_word_reworded _ _)

theorem exchange_reworded :
    exchange (rewording.argument first) (rewording.argument second) =
      rewording.result rewording.selection (exchange first second) := by
  obtain ⟨into, start⟩ := first
  obtain ⟨out, other⟩ := second
  cases into with
  | pair pair =>
    cases pair <;> cases out <;> first | rfl | (rename_i pair; cases pair <;> rfl)
  | atSp => cases out <;> first | rfl | (rename_i pair; cases pair <;> rfl)
  | _ => rfl

theorem stacked_reworded (mnemonic : Mnemonic) (build : StackWide → Instruction) :
    stacked mnemonic (rewording.argument argument) build =
      rewording.result rewording.selection (stacked mnemonic argument build) := by
  obtain ⟨operand, token⟩ := argument
  cases operand with
  | pair pair => cases pair <;> rfl
  | _ => rfl

theorem arith8_reworded (operation : Arith) :
    arith8 operation (rewording.argument argument) =
      rewording.result rewording.selection (arith8 operation argument) := by
  have placed : (do return plain (.arith operation
      (← place (.arith operation) (rewording.argument argument)))) =
      rewording.result rewording.selection (do
        return plain (.arith operation (← place (.arith operation) argument))) :=
    result_bind (place_reworded _) fun _ => rfl
  obtain ⟨operand, token⟩ := argument
  cases operand with
  | immediate value => exact result_bind (byte_reworded value) fun _ => rfl
  | _ => exact placed

theorem index_addend_reworded (register : Index) :
    indexAddend register (rewording.argument argument) =
      rewording.result id (indexAddend register argument) := by
  obtain ⟨operand, token⟩ := argument
  cases operand with
  | index other =>
    simp only [indexAddend, Rewording.argument, Rewording.operand]
    split <;> rfl
  | pair pair => cases pair <;> rfl
  | _ => rfl

theorem arith_reworded (operation : Arith) :
    arith operation (rewording.argument first) (rewording.argument second) =
      rewording.result rewording.selection (arith operation first second) := by
  have byByte := @arith8_reworded rewording second operation
  have indexed (register : Index) : (do return plain (.addWord (.index register)
      (← indexAddend register (rewording.argument second)))) =
      rewording.result rewording.selection (do
        return plain (.addWord (.index register) (← indexAddend register second))) :=
    result_bind (index_addend_reworded register) fun _ => rfl
  obtain ⟨into, start⟩ := first
  cases into with
  | reg register => cases register <;> cases operation <;> first | exact byByte | rfl
  | pair pair =>
    obtain ⟨out, other⟩ := second
    cases pair <;> cases operation <;> first | rfl | skip
    all_goals
      cases out <;> first | rfl | exact result_bind (addend_reworded _ _) fun _ => rfl
  | index register => cases operation <;> first | exact indexed register | rfl
  | _ => cases operation <;> rfl

theorem counted_reworded (mnemonic : Mnemonic) (onWide : Wide → Instruction)
    (onPlace : Place → Instruction) :
    counted mnemonic (rewording.argument argument) onWide onPlace =
      rewording.result rewording.selection (counted mnemonic argument onWide onPlace) := by
  have placed : (do return plain (onPlace (← place mnemonic (rewording.argument argument)))) =
      rewording.result rewording.selection (do
        return plain (onPlace (← place mnemonic argument))) :=
    result_bind (place_reworded _) fun _ => rfl
  obtain ⟨operand, token⟩ := argument
  cases operand with
  | pair pair => exact result_bind (wide_reworded mnemonic pair) fun _ => rfl
  | index register => rfl
  | _ => exact placed

theorem shift_reworded (operation : Shift) :
    shift operation (rewording.argument argument) =
      rewording.result rewording.selection (shift operation argument) :=
  result_bind (cell_reworded _) fun _ => rfl

theorem bit_reworded (operation : BitOp) :
    bit operation (rewording.argument first) (rewording.argument second) =
      rewording.result rewording.selection (bit operation first second) := by
  refine result_bind (number_reworded _) fun index => ?_
  simp only [id]
  split
  · exact result_bind (cell_reworded _) fun _ => rfl
  · rfl

theorem jump_reworded :
    jump (rewording.argument argument) =
      rewording.result rewording.selection (jump argument) := by
  obtain ⟨operand, token⟩ := argument
  cases operand with
  | immediate address => exact with_word_reworded _ _
  | _ => rfl

theorem call_reworded :
    call (rewording.argument argument) =
      rewording.result rewording.selection (call argument) := by
  obtain ⟨operand, token⟩ := argument
  cases operand with
  | immediate address => exact with_word_reworded _ _
  | _ => rfl

theorem conditional_reworded (mnemonic : Mnemonic) (build : Cond → UInt16 → Instruction) :
    conditional mnemonic (rewording.argument first) (rewording.argument second) build =
      rewording.result rewording.selection (conditional mnemonic first second build) := by
  refine result_bind (condition_reworded mnemonic) fun cond => ?_
  obtain ⟨operand, token⟩ := second
  cases operand with
  | immediate address => exact with_word_reworded _ _
  | _ => rfl

theorem relative_conditional_reworded :
    relativeConditional (rewording.argument first) (rewording.argument second) =
      rewording.result rewording.selection (relativeConditional first second) := by
  unfold relativeConditional
  rw [cond?_reworded]
  split
  · exact with_distance_reworded _ _
  · rfl

theorem return_if_reworded :
    returnIf (rewording.argument argument) =
      rewording.result rewording.selection (returnIf argument) :=
  result_bind (condition_reworded _) fun _ => rfl

theorem restart_reworded :
    restart (rewording.argument argument) =
      rewording.result rewording.selection (restart argument) := by
  refine result_bind (number_reworded _) fun number => ?_
  simp only [id]
  split <;> rfl

theorem interrupt_mode_reworded :
    interruptMode (rewording.argument argument) =
      rewording.result rewording.selection (interruptMode argument) := by
  refine result_bind (number_reworded _) fun number => ?_
  simp only [id]
  split <;> rfl

theorem input_alone_reworded :
    inputAlone (rewording.argument argument) =
      rewording.result rewording.selection (inputAlone argument) := by
  obtain ⟨operand, token⟩ := argument
  cases operand <;> rfl

theorem input_reworded :
    input (rewording.argument first) (rewording.argument second) =
      rewording.result rewording.selection (input first second) := by
  obtain ⟨into, start⟩ := first
  obtain ⟨out, other⟩ := second
  cases into with
  | reg register =>
    cases register <;> cases out <;> first | rfl | exact result_bind (byte_reworded _) fun _ => rfl
  | _ => rfl

theorem output_reworded :
    output (rewording.argument first) (rewording.argument second) =
      rewording.result rewording.selection (output first second) := by
  obtain ⟨into, start⟩ := first
  obtain ⟨out, other⟩ := second
  cases into with
  | atC =>
    cases out with
    | immediate value =>
      cases value with
      | value number =>
        by_cases zero : number = 0
        · subst zero
          rfl
        · simp [output, Rewording.argument, Rewording.operand, Rewording.expression, zero]
          rfl
      | symbol name addend => rfl
    | _ => rfl
  | memory address =>
    cases out <;> first
      | rfl
      | (rename_i register
         cases register <;> first | rfl | exact result_bind (byte_reworded _) fun _ => rfl)
  | _ => rfl

/-! ### Choices by mnemonic -/

/-- A choice by one argument, which looks at its token only to complain about it. -/
structure IsChoice (choose : Argument → Except Diagnostic Selection) : Prop where
  reworded : ∀ (rewording : Rewording) (argument : Argument),
    choose (rewording.argument argument) = rewording.result rewording.selection (choose argument)
  blames : ∀ {scope : List Token} (argument : Argument), argument.token ∈ scope →
    Blames scope (choose argument)

structure IsChoiceOfTwo (choose : Argument → Argument → Except Diagnostic Selection) : Prop where
  reworded : ∀ (rewording : Rewording) (first second : Argument),
    choose (rewording.argument first) (rewording.argument second) =
      rewording.result rewording.selection (choose first second)
  blames : ∀ {scope : List Token} (first second : Argument), first.token ∈ scope →
    second.token ∈ scope → Blames scope (choose first second)

theorem is_choice_with_distance (mnemonic : Mnemonic) (build : UInt8 → Instruction) :
    IsChoice (withDistance mnemonic · build) :=
  ⟨fun _ _ => with_distance_reworded _ _, fun _ here => blames_with_distance here _ _⟩

theorem is_choice_stacked (mnemonic : Mnemonic) (build : StackWide → Instruction) :
    IsChoice (stacked mnemonic · build) :=
  ⟨fun _ _ => stacked_reworded _ _, fun _ here => blames_stacked here _ _⟩

theorem is_choice_counted (mnemonic : Mnemonic) (onWide : Wide → Instruction)
    (onPlace : Place → Instruction) : IsChoice (counted mnemonic · onWide onPlace) :=
  ⟨fun _ _ => counted_reworded _ _ _, fun _ here => blames_counted here _ _ _⟩

theorem is_choice_of_two_conditional (mnemonic : Mnemonic) (build : Cond → UInt16 → Instruction) :
    IsChoiceOfTwo (conditional mnemonic · · build) :=
  ⟨fun _ _ _ => conditional_reworded _ _, fun _ _ left right => blames_conditional left right _ _⟩

/-- What holds of every reader of operands that ends in a choice holds of every instruction. -/
theorem parse_cases (symbols : Symbols) {motive : Parse Selection → Prop}
    (implied : ∀ selection : Selection, selection.target = none → motive (pure selection))
    (one : ∀ choose, IsChoice choose → motive (ofOne symbols choose))
    (two : ∀ choose, IsChoiceOfTwo choose → motive (ofTwo symbols choose))
    (oneOrTwo : ∀ alone both, IsChoice alone → IsChoiceOfTwo both →
      motive (ofOneOrTwo symbols alone both))
    (noneOrOne : ∀ (alone : Selection) choose, alone.target = none → IsChoice choose →
      motive (ofNoneOrOne symbols alone choose))
    (mnemonic : Mnemonic) : motive (parse symbols mnemonic) := by
  cases mnemonic with
  | implied operation => exact implied _ rfl
  | ld => exact two _ ⟨fun _ _ _ => load_reworded, fun _ _ => blames_load⟩
  | ex => exact two _ ⟨fun _ _ _ => exchange_reworded, fun _ _ => blames_exchange⟩
  | push | pop => exact one _ (is_choice_stacked _ _)
  | arith operation =>
    exact oneOrTwo _ _
      ⟨fun _ _ => arith8_reworded operation, fun _ here => blames_arith8 here operation⟩
      ⟨fun _ _ _ => arith_reworded operation, fun _ _ left right => blames_arith left right operation⟩
  | inc | dec => exact one _ (is_choice_counted _ _ _)
  | shift operation =>
    exact one _ ⟨fun _ _ => shift_reworded operation, fun _ here => blames_shift here operation⟩
  | bit operation =>
    exact two _
      ⟨fun _ _ _ => bit_reworded operation, fun _ _ left right => blames_bit left right operation⟩
  | jp =>
    exact oneOrTwo _ _ ⟨fun _ _ => jump_reworded, fun _ => blames_jump⟩
      (is_choice_of_two_conditional _ _)
  | jr =>
    exact oneOrTwo _ _ (is_choice_with_distance _ _)
      ⟨fun _ _ _ => relative_conditional_reworded, fun _ _ => blames_relative_conditional⟩
  | djnz => exact one _ (is_choice_with_distance _ _)
  | call =>
    exact oneOrTwo _ _ ⟨fun _ _ => call_reworded, fun _ => blames_call⟩
      (is_choice_of_two_conditional _ _)
  | ret => exact noneOrOne _ _ rfl ⟨fun _ _ => return_if_reworded, fun _ => blames_return_if⟩
  | rst => exact one _ ⟨fun _ _ => restart_reworded, fun _ => blames_restart⟩
  | im => exact one _ ⟨fun _ _ => interrupt_mode_reworded, fun _ => blames_interrupt_mode⟩
  | input =>
    exact oneOrTwo _ _ ⟨fun _ _ => input_alone_reworded, fun _ => blames_input_alone⟩
      ⟨fun _ _ _ => input_reworded, fun _ _ => blames_input⟩
  | output => exact two _ ⟨fun _ _ _ => output_reworded, fun _ _ => blames_output⟩

end Selection

end Z80Toolchain
