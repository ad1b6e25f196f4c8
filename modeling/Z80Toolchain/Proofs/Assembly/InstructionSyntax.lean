import Z80Toolchain.Proofs.Assembly.ArgumentReading
import Z80Toolchain.Proofs.Assembly.Canonical

/-!
The operands of an instruction, as a listing writes them. A mnemonic chooses the instruction again
from these operands, wherever they were read; and they are in canonical form, so a listing writes
them as they are.
-/
namespace Z80Toolchain

/-! ### Operands of an instruction -/

def Base.operand : Base → Operand
  | .hl => .pair .hl
  | .index register => .index register

def Base.pointer : Base → Operand
  | .hl => .atHl
  | .index register => .atIndex register

def Place.operand : Place → Operand
  | .cell (.reg register) => .reg register
  | .cell (.memory .hl) => .atHl
  | .cell (.memory (.indexed register distance)) => .indexed register (signedByte distance)
  | .half register part => .half register part

def Wide.operand : Wide → Operand
  | .bc => .pair .bc
  | .de => .pair .de
  | .sp => .pair .sp
  | .base register => register.operand

def StackWide.operand : StackWide → Operand
  | .bc => .pair .bc
  | .de => .pair .de
  | .af => .pair .af
  | .base register => register.operand

def Addend.operand (target : Base) : Addend → Operand
  | .bc => .pair .bc
  | .de => .pair .de
  | .sp => .pair .sp
  | .itself => target.operand

def Operand.byte (value : UInt8) : Operand := .immediate (.value value.toNat)

def Operand.word (value : UInt16) : Operand := .immediate (.value value.toNat)

def Operand.port (number : UInt8) : Operand := .memory (.value number.toNat)

def Operand.address (target : UInt16) : Operand := .memory (.value target.toNat)

def Operand.target (distance : UInt8) : Operand := .immediate (.value (signedByte distance + 2))

def Pointer.operand : Pointer → Operand
  | .bc => .atBc
  | .de => .atDe
  | .address target => .address target

/-- The condition `c` is written, and read, as the register of this name. -/
def Cond.operand : Cond → Operand
  | .c => .reg .c
  | cond => .cond cond

def Opcode.InterruptMode.number : Opcode.InterruptMode → Int
  | .zero => 0
  | .one => 1
  | .two => 2

namespace Instruction

def mnemonic : Instruction → Mnemonic
  | implied operation => .implied operation
  | load _ _ | loadByte _ _ | loadAccumulator _ | storeAccumulator _ | readControl _
  | writeControl _ | loadWord _ _ | loadWordAt _ _ | storeWordAt _ _ | loadStackPointer _ => .ld
  | push _ => .push
  | pop _ => .pop
  | exchangeAf | exchangeDeHl | exchangeStack _ => .ex
  | arith operation _ | arithByte operation _ => .arith operation
  | addWord _ _ => .arith .add
  | addWithCarry _ => .arith .adc
  | subtractWithCarry _ => .arith .sbc
  | increment _ | incrementWord _ => .inc
  | decrement _ | decrementWord _ => .dec
  | shift operation _ => .shift operation
  | bit operation _ _ => .bit operation
  | jump _ | jumpIf _ _ | jumpTo _ => .jp
  | jumpRelative _ | jumpRelativeIf _ _ => .jr
  | countDown _ => .djnz
  | call _ | callIf _ _ => .call
  | ret | retIf _ => .ret
  | restart _ => .rst
  | interruptMode _ => .im
  | inputPort _ | input _ => .input
  | outputPort _ | output _ => .output

def arithOperands (operation : Arith) (source : Operand) : List Operand :=
  if operation.namesAccumulator then [.reg .a, source] else [source]

def operands : Instruction → List Operand
  | implied _ | ret => []
  | load target source => [target.operand, source.operand]
  | loadByte target value => [target.operand, .byte value]
  | loadAccumulator source => [.reg .a, source.operand]
  | storeAccumulator target => [target.operand, .reg .a]
  | readControl source => [.reg .a, .control source]
  | writeControl target => [.control target, .reg .a]
  | loadWord target value => [target.operand, .word value]
  | loadWordAt target address => [target.operand, .address address]
  | storeWordAt address source => [.address address, source.operand]
  | loadStackPointer source => [.pair .sp, source.operand]
  | push source => [source.operand]
  | pop target => [target.operand]
  | exchangeAf => [.pair .af, .shadowAf]
  | exchangeDeHl => [.pair .de, .pair .hl]
  | exchangeStack register => [.atSp, register.operand]
  | arith operation source => arithOperands operation source.operand
  | arithByte operation value => arithOperands operation (.byte value)
  | addWord target source => [target.operand, source.operand target]
  | addWithCarry source => [.pair .hl, source.operand .hl]
  | subtractWithCarry source => [.pair .hl, source.operand .hl]
  | increment target | decrement target => [target.operand]
  | incrementWord target | decrementWord target => [target.operand]
  | shift _ target => [(Place.cell target).operand]
  | bit _ number target => [.immediate (.value number.val), (Place.cell target).operand]
  | jump address | call address => [.word address]
  | jumpIf cond address | callIf cond address => [cond.operand, .word address]
  | jumpTo register => [register.pointer]
  | jumpRelative distance | countDown distance => [.target distance]
  | jumpRelativeIf cond distance => [cond.toCond.operand, .target distance]
  | retIf cond => [cond.operand]
  | restart vector => [.immediate (.value (8 * vector.val : Nat))]
  | interruptMode mode => [.immediate (.value mode.number)]
  | inputPort number => [.reg .a, .port number]
  | outputPort number => [.port number, .reg .a]
  | input none => [.atC]
  | input (some target) => [.reg target, .atC]
  | output none => [.atC, .immediate (.value 0)]
  | output (some source) => [.atC, .reg source]

end Instruction

/-! ### Canonical operands -/

@[simp] theorem Base.explicit_operand (register : Base) :
    register.operand.explicit = register.operand := by
  cases register <;> rfl

@[simp] theorem Place.explicit_operand (place : Place) : place.operand.explicit = place.operand := by
  cases place with
  | half register part => rfl
  | cell content =>
    cases content with
    | reg register => rfl
    | memory address => cases address <;> rfl

@[simp] theorem Wide.explicit_operand (wide : Wide) : wide.operand.explicit = wide.operand := by
  cases wide with
  | base register => exact register.explicit_operand
  | _ => rfl

@[simp] theorem StackWide.explicit_operand (wide : StackWide) :
    wide.operand.explicit = wide.operand := by
  cases wide with
  | base register => exact register.explicit_operand
  | _ => rfl

@[simp] theorem Addend.explicit_operand (target : Base) (addend : Addend) :
    (addend.operand target).explicit = addend.operand target := by
  cases addend with
  | itself => exact target.explicit_operand
  | _ => rfl

@[simp] theorem Pointer.explicit_operand (pointer : Pointer) :
    pointer.operand.explicit = pointer.operand := by
  cases pointer <;> rfl

@[simp] theorem Cond.explicit_operand (cond : Cond) : cond.operand.explicit = cond.operand := by
  cases cond <;> rfl

namespace Instruction

theorem canonical_operands_arith (operation : Arith) (source : Operand) :
    operation.canonicalOperands (arithOperands operation source) =
      arithOperands operation source := by
  unfold arithOperands
  split <;> rename_i named <;> simp [Arith.canonicalOperands, named]

theorem explicit_arith_operands (operation : Arith) {source : Operand}
    (plain : source.explicit = source) :
    (arithOperands operation source).map Operand.explicit = arithOperands operation source := by
  unfold arithOperands
  split
  · rw [List.map_cons, List.map_cons, plain]
    rfl
  · rw [List.map_cons, plain]
    rfl

/-- The operands of an instruction are written without change. -/
theorem canonical_operands_operands (instruction : Instruction) :
    instruction.mnemonic.canonicalOperands instruction.operands = instruction.operands := by
  cases instruction with
  | jump | jumpIf | jumpTo => rfl
  | arith operation source =>
    simp only [mnemonic, operands, Mnemonic.canonicalOperands, canonical_operands_arith]
    exact explicit_arith_operands operation source.explicit_operand
  | arithByte operation value =>
    simp only [mnemonic, operands, Mnemonic.canonicalOperands, canonical_operands_arith]
    exact explicit_arith_operands operation rfl
  | addWord target source =>
    have other : target.operand ≠ .reg .a := by
      cases target <;> simp [Base.operand]
    simp [mnemonic, operands, Mnemonic.canonicalOperands, Arith.canonical_operands_other _ _ other]
  | addWithCarry source | subtractWithCarry source =>
    have other : Operand.pair .hl ≠ .reg .a := by decide
    simp only [mnemonic, operands, Mnemonic.canonicalOperands,
      Arith.canonical_operands_other _ _ other, List.map_cons, List.map_nil,
      Addend.explicit_operand]
    rfl
  | input register | output register => cases register <;> rfl
  | _ =>
    simp only [mnemonic, operands, Mnemonic.canonicalOperands, List.map_cons, List.map_nil,
      Base.explicit_operand, Place.explicit_operand, Wide.explicit_operand,
      StackWide.explicit_operand, Pointer.explicit_operand, Cond.explicit_operand] <;> rfl

end Instruction

/-! ### Values and their bytes -/

theorem of_int_to_nat_byte (value : UInt8) : UInt8.ofInt value.toNat = value := by
  rw [← UInt8.toNat_inj, to_nat_byte_of_int]
  have := value.toNat_lt
  omega

theorem of_int_to_nat_word (value : UInt16) : UInt16.ofInt value.toNat = value := by
  rw [← UInt16.toNat_inj, to_nat_word_of_int]
  have := value.toNat_lt
  omega

theorem signed_byte_bounds (byte : UInt8) : -128 ≤ signedByte byte ∧ signedByte byte ≤ 127 := by
  have := byte.toNat_lt
  unfold signedByte
  split <;> omega

theorem of_int_signed_byte (byte : UInt8) : UInt8.ofInt (signedByte byte) = byte := by
  rw [← UInt8.toNat_inj, to_nat_byte_of_int]
  have := byte.toNat_lt
  unfold signedByte
  split <;> omega

/-! ### Choosing the instruction again -/

namespace Selection

variable {argument first second : Argument}

theorem byte_operand (value : UInt8) : byte argument (.value value.toNat) = .ok value := by
  have bound := value.toNat_lt
  rw [byte, if_pos (by omega), of_int_to_nat_byte]

theorem with_word_operand (value : UInt16) (build : UInt16 → Instruction) :
    withWord argument (.value value.toNat) build = .ok (plain (build value)) := by
  have bound := value.toNat_lt
  rw [withWord, word, if_pos (by omega), of_int_to_nat_word]
  rfl

theorem with_distance_operand {mnemonic : Mnemonic} {distance : UInt8}
    (operand : argument.operand = .target distance) (build : UInt8 → Instruction) :
    withDistance mnemonic argument build = .ok (plain (build distance)) := by
  have bounds := signed_byte_bounds distance
  simp only [withDistance, operand, Operand.target]
  rw [if_pos (by omega), Int.add_sub_cancel, of_int_signed_byte]

theorem place_operand {mnemonic : Mnemonic} {found : Place}
    (operand : argument.operand = found.operand) : place mnemonic argument = .ok found := by
  cases found with
  | half register part => simp only [place, operand, Place.operand]
  | cell content =>
    cases content with
    | reg register => simp only [place, operand, Place.operand]
    | memory address =>
      cases address with
      | hl => simp only [place, operand, Place.operand]
      | indexed register distance =>
        simp only [place, operand, Place.operand]
        rw [if_pos (signed_byte_bounds distance), of_int_signed_byte]

theorem cell_operand {mnemonic : Mnemonic} {found : Cell}
    (operand : argument.operand = (Place.cell found).operand) :
    cell mnemonic argument = .ok found := by
  rw [cell, place_operand operand]
  rfl

theorem condition_operand {mnemonic : Mnemonic} {cond : Cond}
    (operand : argument.operand = cond.operand) : condition mnemonic argument = .ok cond := by
  cases cond <;> simp only [condition, Argument.cond?, operand, Cond.operand]

/-! ### Loads -/

def isPlace : Operand → Bool
  | .reg _ | .half _ _ | .atHl | .indexed _ _ => true
  | _ => false

theorem is_place_operand (found : Place) : isPlace found.operand = true := by
  cases found with
  | half register part => rfl
  | cell content =>
    cases content with
    | reg register => rfl
    | memory address => cases address <;> rfl

/-- Between two places there is only the eight-bit form. -/
theorem load_of_places (into : isPlace first.operand = true) (out : isPlace second.operand = true) :
    load first second = (do
      let into ← place .ld first
      let out ← place .ld second
      if into.compatible out then return plain (.load into out) else invalid .ld second) := by
  unfold load
  split
  case h_17 value immediate _ _ =>
    rw [immediate] at out
    cases out
  case h_18 => rfl
  -- Every other form has an operand that is no place.
  all_goals
    rename_i left right
    simp [left, right, isPlace] at into out

theorem load_places {target source : Place} (into : first.operand = target.operand)
    (out : second.operand = source.operand) (compatible : target.compatible source = true) :
    load first second = .ok (plain (.load target source)) := by
  rw [load_of_places (into ▸ is_place_operand target) (out ▸ is_place_operand source),
    place_operand into, place_operand out]
  simp only [bind, Except.bind, compatible, if_true]
  rfl

theorem load_byte {target : Place} {value : UInt8} (into : first.operand = target.operand)
    (out : second.operand = .byte value) :
    load first second = .ok (plain (.loadByte target value)) := by
  have fallback : load first second = (do
      let target ← place .ld first
      return plain (.loadByte target (← byte second (.value value.toNat)))) := by
    have placed := into ▸ is_place_operand target
    cases left : first.operand <;> simp only [left, isPlace, Bool.false_eq_true] at placed
    all_goals simp only [load, left, out, Operand.byte]
  rw [fallback, place_operand into, byte_operand]
  rfl

/-- A base register is a pair or an index register. -/
theorem load_word {target : Wide} {value : UInt16} (into : first.operand = target.operand)
    (out : second.operand = .word value) :
    load first second = .ok (plain (.loadWord target value)) := by
  cases target with
  | base register =>
    cases register <;> simp only [load, into, out, Wide.operand, Base.operand, Operand.word] <;>
      exact with_word_operand value _
  | _ =>
    simp only [load, into, out, Wide.operand, Operand.word]
    exact with_word_operand value _

theorem load_word_at {target : Wide} {address : UInt16} (into : first.operand = target.operand)
    (out : second.operand = .address address) :
    load first second = .ok (plain (.loadWordAt target address)) := by
  cases target with
  | base register =>
    cases register <;> simp only [load, into, out, Wide.operand, Base.operand, Operand.address] <;>
      exact with_word_operand address _
  | _ =>
    simp only [load, into, out, Wide.operand, Operand.address]
    exact with_word_operand address _

theorem load_store_word_at {address : UInt16} {source : Wide} (into : first.operand = .address address)
    (out : second.operand = source.operand) :
    load first second = .ok (plain (.storeWordAt address source)) := by
  cases source with
  | base register =>
    cases register <;> simp only [load, into, out, Wide.operand, Base.operand, Operand.address] <;>
      exact with_word_operand address _
  | _ =>
    simp only [load, into, out, Wide.operand, Operand.address]
    exact with_word_operand address _

theorem load_accumulator {source : Pointer} (into : first.operand = .reg .a)
    (out : second.operand = source.operand) :
    load first second = .ok (plain (.loadAccumulator source)) := by
  cases source with
  | address target =>
    simp only [load, into, out, Pointer.operand, Operand.address]
    exact with_word_operand target _
  | _ => simp only [load, into, out, Pointer.operand]

theorem load_store_accumulator {target : Pointer} (into : first.operand = target.operand)
    (out : second.operand = .reg .a) :
    load first second = .ok (plain (.storeAccumulator target)) := by
  cases target with
  | address target =>
    simp only [load, into, out, Pointer.operand, Operand.address]
    exact with_word_operand target _
  | _ => simp only [load, into, out, Pointer.operand]

/-! ### Arithmetic -/

theorem stacked_operand {mnemonic : Mnemonic} {pair : StackWide}
    (operand : argument.operand = pair.operand) (build : StackWide → Instruction) :
    stacked mnemonic argument build = .ok (plain (build pair)) := by
  cases pair with
  | base register => cases register <;> simp only [stacked, operand, StackWide.operand, Base.operand]
  | _ => simp only [stacked, operand, StackWide.operand]

theorem arith8_place {operation : Arith} {source : Place}
    (operand : argument.operand = source.operand) :
    arith8 operation argument = .ok (plain (.arith operation source)) := by
  have placed := operand ▸ is_place_operand source
  unfold arith8
  split
  · rename_i value immediate
    simp [immediate, isPlace] at placed
  · rw [place_operand operand]
    rfl

theorem arith8_byte {operation : Arith} {value : UInt8} (operand : argument.operand = .byte value) :
    arith8 operation argument = .ok (plain (.arithByte operation value)) := by
  simp only [arith8, operand, Operand.byte, byte_operand]
  rfl

theorem index_addend_operand {register : Index} {source : Addend}
    (operand : argument.operand = source.operand (.index register)) :
    indexAddend register argument = .ok source := by
  cases source <;> simp [indexAddend, operand, Addend.operand, Base.operand, addend]

theorem counted_wide {mnemonic : Mnemonic} {pair : Wide} {onWide : Wide → Instruction}
    {onPlace : Place → Instruction} (operand : argument.operand = pair.operand) :
    counted mnemonic argument onWide onPlace = .ok (plain (onWide pair)) := by
  cases pair with
  | base register =>
    cases register with
    | hl =>
      simp only [counted, operand, Wide.operand, Base.operand, wide]
      rfl
    | index register => simp only [counted, operand, Wide.operand, Base.operand]
  | _ =>
    simp only [counted, operand, Wide.operand, wide]
    rfl

theorem counted_place {mnemonic : Mnemonic} {found : Place} {onWide : Wide → Instruction}
    {onPlace : Place → Instruction} (operand : argument.operand = found.operand) :
    counted mnemonic argument onWide onPlace = .ok (plain (onPlace found)) := by
  have placed := operand ▸ is_place_operand found
  unfold counted
  split
  · rename_i pair other
    simp [other, isPlace] at placed
  · rename_i register other
    simp [other, isPlace] at placed
  · rw [place_operand operand]
    rfl

theorem shift_operand {operation : Shift} {found : Cell}
    (operand : argument.operand = (Place.cell found).operand) :
    shift operation argument = .ok (plain (.shift operation found)) := by
  rw [shift, cell_operand operand]
  rfl

theorem bit_operand {operation : BitOp} {number : Fin 8} {found : Cell}
    (index : first.operand = .immediate (.value number.val))
    (operand : second.operand = (Place.cell found).operand) :
    bit operation first second = .ok (plain (.bit operation number found)) := by
  have bound := number.isLt
  simp only [bit, Selection.number, index]
  simp [bind, Except.bind, cell_operand operand]
  rfl

/-! ### Jumps -/

theorem conditional_operand {mnemonic : Mnemonic} {cond : Cond} {address : UInt16}
    (tested : first.operand = cond.operand) (operand : second.operand = .word address)
    (build : Cond → UInt16 → Instruction) :
    conditional mnemonic first second build = .ok (plain (build cond address)) := by
  simp only [conditional, condition_operand tested, operand, Operand.word]
  exact with_word_operand address _

theorem relative_conditional_operand {cond : ShortCond} {distance : UInt8}
    (tested : first.operand = cond.toCond.operand) (operand : second.operand = .target distance) :
    relativeConditional first second = .ok (plain (.jumpRelativeIf cond distance)) := by
  have short : first.cond?.bind Cond.short? = some cond := by
    cases cond <;> simp [Argument.cond?, tested, ShortCond.toCond, Cond.operand, Cond.short?]
  simp only [relativeConditional, short]
  exact with_distance_operand operand _

theorem restart_operand {vector : Fin 8}
    (operand : argument.operand = .immediate (.value (8 * vector.val : Nat))) :
    restart argument = .ok (plain (.restart vector)) := by
  have found : Opcode.restartVector? (8 * vector.val : Nat) = some vector := by
    clear operand
    revert vector
    decide
  simp only [restart, Selection.number, operand, bind, Except.bind, found]
  rfl

theorem interrupt_mode_operand {mode : Opcode.InterruptMode}
    (operand : argument.operand = .immediate (.value mode.number)) :
    interruptMode argument = .ok (plain (.interruptMode mode)) := by
  cases mode <;>
    simp only [interruptMode, Selection.number, operand, bind, Except.bind,
      Opcode.InterruptMode.number, Opcode.InterruptMode.ofNumber?] <;> rfl

/-! ### Every instruction -/

theorem one_argument {arguments : List Argument} {operand : Operand}
    (same : arguments.map Argument.operand = [operand]) :
    ∃ argument, arguments = [argument] ∧ argument.operand = operand :=
  List.map_eq_singleton_iff.mp same

theorem two_arguments {arguments : List Argument} {first second : Operand}
    (same : arguments.map Argument.operand = [first, second]) :
    ∃ left right, arguments = [left, right] ∧ left.operand = first ∧ right.operand = second := by
  obtain ⟨left, others, rfl, leftOperand, same⟩ := List.map_eq_cons_iff.mp same
  obtain ⟨right, rfl, rightOperand⟩ := one_argument same
  exact ⟨left, right, rfl, leftOperand, rightOperand⟩

/-- With or without the accumulator, eight-bit arithmetic looks at its source. -/
theorem choose?_arith {operation : Arith} {source : Operand} {arguments : List Argument}
    {instruction : Instruction}
    (same : arguments.map Argument.operand = Instruction.arithOperands operation source)
    (chosen : ∀ argument : Argument, argument.operand = source →
      arith8 operation argument = .ok (plain instruction)) :
    choose? (.arith operation) arguments = some (plain instruction) := by
  unfold Instruction.arithOperands at same
  split at same
  · obtain ⟨left, right, rfl, accumulator, operand⟩ := two_arguments same
    rw [choose?, to_option_eq_some, ← chosen right operand]
    simp only [Selection.arith, accumulator]
  · obtain ⟨argument, rfl, operand⟩ := one_argument same
    rw [choose?, to_option_eq_some, chosen argument operand]

theorem choose?_add_word {target : Base} {source : Addend} {arguments : List Argument}
    (same : arguments.map Argument.operand = [target.operand, source.operand target]) :
    choose? (.arith .add) arguments = some (plain (.addWord target source)) := by
  obtain ⟨left, right, rfl, into, out⟩ := two_arguments same
  rw [choose?, to_option_eq_some]
  cases target with
  | index register =>
    simp only [Selection.arith, into, Base.operand, index_addend_operand out]
    rfl
  | hl =>
    cases source <;>
      simp only [Selection.arith, into, out, Base.operand, Addend.operand, addend] <;> rfl

end Selection

open Selection

namespace Instruction

/-- The operands of the instruction, wherever they were read, choose it. -/
def Chosen (instruction : Instruction) : Prop :=
  ∀ arguments : List Argument, arguments.map Argument.operand = instruction.operands →
    choose? instruction.mnemonic arguments = some (plain instruction)

variable {instruction : Instruction}

theorem chosen_of_none (operands : instruction.operands = [])
    (chosen : choose? instruction.mnemonic [] = some (plain instruction)) :
    instruction.Chosen := by
  intro arguments same
  obtain rfl := List.map_eq_nil_iff.mp (same.trans operands)
  exact chosen

theorem chosen_of_one {operand : Operand} {select : Argument → Except Diagnostic Selection}
    (operands : instruction.operands = [operand])
    (selects : ∀ argument, choose? instruction.mnemonic [argument] = (select argument).toOption)
    (chosen : ∀ argument, argument.operand = operand → select argument = .ok (plain instruction)) :
    instruction.Chosen := by
  intro arguments same
  obtain ⟨argument, rfl, out⟩ := one_argument (same.trans operands)
  rw [selects, to_option_eq_some]
  exact chosen argument out

theorem chosen_of_two {first second : Operand}
    {select : Argument → Argument → Except Diagnostic Selection}
    (operands : instruction.operands = [first, second])
    (selects : ∀ left right,
      choose? instruction.mnemonic [left, right] = (select left right).toOption)
    (chosen : ∀ left right, left.operand = first → right.operand = second →
      select left right = .ok (plain instruction)) :
    instruction.Chosen := by
  intro arguments same
  obtain ⟨left, right, rfl, into, out⟩ := two_arguments (same.trans operands)
  rw [selects, to_option_eq_some]
  exact chosen left right into out

/-! ### Loads and exchanges -/

theorem chosen_load_stack_pointer (source : Base) : (loadStackPointer source).Chosen := by
  refine chosen_of_two rfl (fun _ _ => rfl) ?_
  intro left right into out
  cases source <;> simp only [Selection.load, into, out, Base.operand]

theorem chosen_exchange_stack (register : Base) : (exchangeStack register).Chosen := by
  refine chosen_of_two rfl (fun _ _ => rfl) ?_
  intro left right into out
  cases register <;> simp only [exchange, into, out, Base.operand]

/-! ### Jumps and returns -/

theorem chosen_jump_to (register : Base) : (jumpTo register).Chosen := by
  refine chosen_of_one rfl (fun _ => rfl) ?_
  intro argument operand
  cases register <;> simp only [Selection.jump, operand, Base.pointer]

theorem chosen_ret_if (cond : Cond) : (retIf cond).Chosen := by
  refine chosen_of_one rfl (fun _ => rfl) ?_
  intro argument operand
  rw [returnIf, condition_operand operand]
  rfl

/-! ### Ports -/

theorem chosen_input_port (number : UInt8) : (inputPort number).Chosen := by
  refine chosen_of_two rfl (fun _ _ => rfl) ?_
  intro left right into out
  simp only [Selection.input, into, out, Operand.port, byte_operand]
  rfl

theorem chosen_output_port (number : UInt8) : (outputPort number).Chosen := by
  refine chosen_of_two rfl (fun _ _ => rfl) ?_
  intro left right into out
  simp only [Selection.output, into, out, Operand.port, byte_operand]
  rfl

theorem chosen_input (target : Option Reg8) : (input target).Chosen := by
  cases target with
  | none =>
    refine chosen_of_one rfl (fun _ => rfl) ?_
    intro argument operand
    simp only [inputAlone, operand]
  | some register =>
    refine chosen_of_two rfl (fun _ _ => rfl) ?_
    intro left right into out
    simp only [Selection.input, into, out]

theorem chosen_output (source : Option Reg8) : (output source).Chosen := by
  cases source with
  | none | some register =>
    refine chosen_of_two rfl (fun _ _ => rfl) ?_
    intro left right into out
    simp only [Selection.output, into, out]

theorem chosen_of_well_formed (wellFormed : instruction.WellFormed) : instruction.Chosen := by
  cases instruction with
  | implied _ | ret => exact chosen_of_none rfl rfl
  | arith operation source => exact fun _ same => choose?_arith same fun _ => arith8_place
  | arithByte operation value => exact fun _ same => choose?_arith same fun _ => arith8_byte
  | addWord target source => exact fun _ same => choose?_add_word same
  | load target source =>
    exact chosen_of_two rfl (fun _ _ => rfl) fun _ _ into out => load_places into out wellFormed
  | loadByte _ _ => exact chosen_of_two rfl (fun _ _ => rfl) fun _ _ => load_byte
  | loadWord _ _ => exact chosen_of_two rfl (fun _ _ => rfl) fun _ _ => load_word
  | loadWordAt _ _ => exact chosen_of_two rfl (fun _ _ => rfl) fun _ _ => load_word_at
  | storeWordAt _ _ => exact chosen_of_two rfl (fun _ _ => rfl) fun _ _ => load_store_word_at
  | loadAccumulator _ => exact chosen_of_two rfl (fun _ _ => rfl) fun _ _ => load_accumulator
  | storeAccumulator _ => exact chosen_of_two rfl (fun _ _ => rfl) fun _ _ => load_store_accumulator
  | readControl _ | writeControl _ =>
    refine chosen_of_two rfl (fun _ _ => rfl) ?_
    intro left right into out
    simp only [Selection.load, into, out]
  | loadStackPointer source => exact chosen_load_stack_pointer source
  | exchangeAf | exchangeDeHl =>
    refine chosen_of_two rfl (fun _ _ => rfl) ?_
    intro left right into out
    simp only [exchange, into, out]
  | exchangeStack register => exact chosen_exchange_stack register
  | push _ | pop _ =>
    exact chosen_of_one rfl (fun _ => rfl) fun _ operand => stacked_operand operand _
  | addWithCarry source | subtractWithCarry source =>
    refine chosen_of_two rfl (fun _ _ => rfl) ?_
    intro left right into out
    cases source <;>
      simp only [Selection.arith, into, out, Base.operand, Addend.operand, addend] <;> rfl
  | increment _ | decrement _ => exact chosen_of_one rfl (fun _ => rfl) fun _ => counted_place
  | incrementWord _ | decrementWord _ => exact chosen_of_one rfl (fun _ => rfl) fun _ => counted_wide
  | shift _ _ => exact chosen_of_one rfl (fun _ => rfl) fun _ => shift_operand
  | bit _ _ _ => exact chosen_of_two rfl (fun _ _ => rfl) fun _ _ => bit_operand
  | jump address | call address =>
    refine chosen_of_one rfl (fun _ => rfl) ?_
    intro argument operand
    simp only [Selection.jump, Selection.call, operand, Operand.word]
    exact with_word_operand address _
  | jumpTo register => exact chosen_jump_to register
  | jumpIf _ _ | callIf _ _ =>
    exact chosen_of_two rfl (fun _ _ => rfl) fun _ _ tested operand =>
      conditional_operand tested operand _
  | jumpRelative _ | countDown _ =>
    exact chosen_of_one rfl (fun _ => rfl) fun _ operand => with_distance_operand operand _
  | jumpRelativeIf _ _ =>
    exact chosen_of_two rfl (fun _ _ => rfl) fun _ _ => relative_conditional_operand
  | retIf cond => exact chosen_ret_if cond
  | restart _ => exact chosen_of_one rfl (fun _ => rfl) fun _ => restart_operand
  | interruptMode _ => exact chosen_of_one rfl (fun _ => rfl) fun _ => interrupt_mode_operand
  | inputPort number => exact chosen_input_port number
  | outputPort number => exact chosen_output_port number
  | input target => exact chosen_input target
  | output source => exact chosen_output source

/-- The operands of an instruction, wherever they were read, choose the instruction. -/
theorem choose?_operands (wellFormed : instruction.WellFormed) {arguments : List Argument}
    (same : arguments.map Argument.operand = instruction.operands) :
    choose? instruction.mnemonic arguments = some (plain instruction) :=
  chosen_of_well_formed wellFormed arguments same

end Instruction

end Z80Toolchain
