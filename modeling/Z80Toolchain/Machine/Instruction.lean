import Z80Toolchain.Machine.Implied
import Z80Toolchain.Machine.Opcode

/-!
Instructions as values: what stands between bytes and text. The operands have types of their own, so
that almost every value is an instruction of the processor; only an eight-bit load between two
places asks that one prefix byte serves both, which `Place.Compatible` states.
-/
namespace Z80Toolchain

/-! ### Operands -/

/-- The register `hl`, or the index register that a prefix byte puts in its place. -/
inductive Base
  | hl
  | index (register : Index)
deriving DecidableEq, Repr

/-- A memory cell that `hl` points to, or one at a distance from an index register. The distance is
the operand byte, a two's complement number. -/
inductive Memory
  | hl
  | indexed (register : Index) (distance : UInt8)
deriving DecidableEq, Repr

/-- An eight-bit register or a memory cell. -/
inductive Cell
  | reg (register : Reg8)
  | memory (address : Memory)
deriving DecidableEq, Repr

/-- Whatever fits the three-bit operand field: a cell or a half of an index register. -/
inductive Place
  | cell (content : Cell)
  | half (register : Index) (part : Half)
deriving DecidableEq, Repr

/-- A sixteen-bit register of loads and counting. -/
inductive Wide
  | bc
  | de
  | sp
  | base (register : Base)
deriving DecidableEq, Repr

inductive StackWide
  | bc
  | de
  | af
  | base (register : Base)
deriving DecidableEq, Repr

/-- What sixteen-bit arithmetic adds to its target. -/
inductive Addend
  | bc
  | de
  | sp
  | itself
deriving DecidableEq, Repr

inductive Pointer
  | bc
  | de
  | address (address : UInt16)
deriving DecidableEq, Repr

inductive Control
  | i
  | r
deriving DecidableEq, Repr

namespace Base

def markers : Base → List UInt8
  | hl => []
  | index register => [register.marker]

end Base

namespace Memory

def base : Memory → Base
  | hl => .hl
  | indexed register _ => .index register

def distances : Memory → List UInt8
  | hl => []
  | indexed _ distance => [distance]

end Memory

namespace Cell

def slot : Cell → Fin 8
  | reg register => register.slot
  | memory _ => memorySlot

def base : Cell → Base
  | reg _ => .hl
  | memory address => address.base

def distances : Cell → List UInt8
  | reg _ => []
  | memory address => address.distances

end Cell

namespace Place

def slot : Place → Fin 8
  | cell content => content.slot
  | half _ part => part.register.slot

def base : Place → Base
  | cell content => content.base
  | half register _ => .index register

def distances : Place → List UInt8
  | cell content => content.distances
  | half _ _ => []

/-- Whether one opcode can name both places. Two memory cells have no opcode. A half of an index
register stands with the other half and with the registers that the prefix byte leaves alone; an
indexed memory cell stands with every plain register, since there `h` and `l` keep their meaning. -/
def compatible : Place → Place → Bool
  | cell (.memory _), cell (.memory _) => false
  | cell _, cell _ => true
  | half left _, half right _ => left == right
  | half _ _, cell (.reg register) => !register.isHalfOfHl
  | cell (.reg register), half _ _ => !register.isHalfOfHl
  | half _ _, cell (.memory _) => false
  | cell (.memory _), half _ _ => false

/-- Of two compatible places, the prefix byte belongs to the one that needs it. -/
def sharedBase (left right : Place) : Base :=
  match left.base with
  | .hl => right.base
  | base => base

end Place

namespace Wide

def field : Wide → Fin 4
  | bc => 0
  | de => 1
  | base _ => 2
  | sp => 3

def markers : Wide → List UInt8
  | base register => register.markers
  | _ => []

end Wide

namespace StackWide

def field : StackWide → Fin 4
  | bc => 0
  | de => 1
  | base _ => 2
  | af => 3

def markers : StackWide → List UInt8
  | base register => register.markers
  | _ => []

end StackWide

namespace Addend

def field : Addend → Fin 4
  | bc => 0
  | de => 1
  | itself => 2
  | sp => 3

def ofField : Fin 4 → Addend
  | 0 => bc
  | 1 => de
  | 2 => itself
  | 3 => sp

end Addend

/-! ### Instructions -/

/-- An instruction with all its operands. Relative jumps hold the operand byte, the distance from
the end of the two-byte instruction. -/
inductive Instruction
  | implied (operation : Implied)
  | load (target source : Place)
  | loadByte (target : Place) (value : UInt8)
  | loadAccumulator (source : Pointer)
  | storeAccumulator (target : Pointer)
  | readControl (source : Control)
  | writeControl (target : Control)
  | loadWord (target : Wide) (value : UInt16)
  | loadWordAt (target : Wide) (address : UInt16)
  | storeWordAt (address : UInt16) (source : Wide)
  | loadStackPointer (source : Base)
  | push (source : StackWide)
  | pop (target : StackWide)
  | exchangeAf
  | exchangeDeHl
  | exchangeStack (register : Base)
  | arith (operation : Arith) (source : Place)
  | arithByte (operation : Arith) (value : UInt8)
  | addWord (target : Base) (source : Addend)
  | addWithCarry (source : Addend)
  | subtractWithCarry (source : Addend)
  | increment (target : Place)
  | decrement (target : Place)
  | incrementWord (target : Wide)
  | decrementWord (target : Wide)
  | shift (operation : Shift) (target : Cell)
  | bit (operation : BitOp) (number : Fin 8) (target : Cell)
  | jump (address : UInt16)
  | jumpIf (cond : Cond) (address : UInt16)
  | jumpTo (register : Base)
  | jumpRelative (distance : UInt8)
  | jumpRelativeIf (cond : ShortCond) (distance : UInt8)
  | countDown (distance : UInt8)
  | call (address : UInt16)
  | callIf (cond : Cond) (address : UInt16)
  | ret
  | retIf (cond : Cond)
  | restart (vector : Fin 8)
  | interruptMode (mode : Opcode.InterruptMode)
  | inputPort (number : UInt8)
  | outputPort (number : UInt8)
  | input (target : Option Reg8)
  | output (source : Option Reg8)
deriving DecidableEq, Repr

/-- An instruction that the processor has: the two places of a load share one opcode. -/
def Instruction.WellFormed : Instruction → Prop
  | .load target source => target.compatible source = true
  | _ => True

instance : DecidablePred Instruction.WellFormed := fun instruction => by
  cases instruction <;> simp only [Instruction.WellFormed] <;> infer_instance

end Z80Toolchain
