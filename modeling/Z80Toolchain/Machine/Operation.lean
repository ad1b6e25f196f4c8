import Z80Toolchain.Machine.Register

/-!
Operation families: the arithmetic of the accumulator, the shifts, and the three operations on
single bits. A family shares one opcode block, in which a field holds the operation's code.
-/
namespace Z80Toolchain

open Text (lower)

inductive Arith
  | add | adc | sub | sbc | and | xor | or | cp
deriving DecidableEq, Repr

namespace Arith

def all : List Arith := [add, adc, sub, sbc, and, xor, or, cp]

def name : Arith → String
  | add => "add" | adc => "adc" | sub => "sub" | sbc => "sbc"
  | and => "and" | xor => "xor" | or => "or" | cp => "cp"

def ofName? (text : String) : Option Arith :=
  all.find? (·.name == lower text)

def code : Arith → Fin 8
  | add => 0 | adc => 1 | sub => 2 | sbc => 3 | and => 4 | xor => 5 | or => 6 | cp => 7

def ofCode : Fin 8 → Arith
  | 0 => add | 1 => adc | 2 => sub | 3 => sbc | 4 => and | 5 => xor | 6 => or | 7 => cp

def ofNumber (number : Nat) : Arith :=
  all[number]?.getD add

/-- Operations whose text names the accumulator, because a sixteen-bit form exists as well. -/
def namesAccumulator (operation : Arith) : Bool :=
  operation == add || operation == adc || operation == sbc

theorem of_code_code (operation : Arith) : ofCode operation.code = operation := by
  cases operation <;> rfl

end Arith

inductive Shift
  | rlc | rrc | rl | rr | sla | sra | sll | srl
deriving DecidableEq, Repr

namespace Shift

def all : List Shift := [rlc, rrc, rl, rr, sla, sra, sll, srl]

def name : Shift → String
  | rlc => "rlc" | rrc => "rrc" | rl => "rl" | rr => "rr"
  | sla => "sla" | sra => "sra" | sll => "sll" | srl => "srl"

def ofName? (text : String) : Option Shift :=
  all.find? (·.name == lower text)

def code : Shift → Fin 8
  | rlc => 0 | rrc => 1 | rl => 2 | rr => 3 | sla => 4 | sra => 5 | sll => 6 | srl => 7

def ofCode : Fin 8 → Shift
  | 0 => rlc | 1 => rrc | 2 => rl | 3 => rr | 4 => sla | 5 => sra | 6 => sll | 7 => srl

def ofNumber (number : Nat) : Shift :=
  all[number]?.getD rlc

theorem of_code_code (operation : Shift) : ofCode operation.code = operation := by
  cases operation <;> rfl

end Shift

inductive BitOp
  | bit | res | set
deriving DecidableEq, Repr

namespace BitOp

def all : List BitOp := [bit, res, set]

def name : BitOp → String
  | bit => "bit" | res => "res" | set => "set"

def ofName? (text : String) : Option BitOp :=
  all.find? (·.name == lower text)

/-- The code of a bit operation; the code 0 belongs to the shifts. -/
def code : BitOp → Fin 4
  | bit => 1 | res => 2 | set => 3

def ofNumber : Nat → BitOp
  | 2 => res
  | 3 => set
  | _ => bit

theorem of_number_code (operation : BitOp) : ofNumber operation.code = operation := by
  cases operation <;> rfl

end BitOp

end Z80Toolchain
