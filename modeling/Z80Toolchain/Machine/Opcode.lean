import Z80Toolchain.Machine.Register
import Z80Toolchain.Machine.Operation

/-!
Opcode bytes. An opcode block starts at a base byte, and fields of two or three bits select the
instruction inside it.
-/
namespace Z80Toolchain.Opcode

/-- The opcode of an eight-bit operand field in bits 3 to 5. -/
def atSlot (base : UInt8) (slot : Fin 8) : UInt8 :=
  base + UInt8.ofNat (8 * slot)

/-- The opcode of a pair field in bits 4 and 5. -/
def atPair (base : UInt8) (field : Fin 4) : UInt8 :=
  base + UInt8.ofNat (16 * field)

/-! ### Eight-bit loads and arithmetic -/

def load (target source : Fin 8) : UInt8 :=
  atSlot 0x40 target + UInt8.ofNat source

def loadByte (target : Fin 8) : UInt8 := atSlot 0x06 target

def increment (slot : Fin 8) : UInt8 := atSlot 0x04 slot

def decrement (slot : Fin 8) : UInt8 := atSlot 0x05 slot

def arith (operation : Arith) (slot : Fin 8) : UInt8 :=
  atSlot 0x80 operation.code + UInt8.ofNat slot

def arithByte (operation : Arith) : UInt8 := atSlot 0xC6 operation.code

/-! ### Sixteen-bit loads and arithmetic -/

def loadWord (field : Fin 4) : UInt8 := atPair 0x01 field

def incrementWord (field : Fin 4) : UInt8 := atPair 0x03 field

def decrementWord (field : Fin 4) : UInt8 := atPair 0x0B field

def addWord (field : Fin 4) : UInt8 := atPair 0x09 field

def subtractWithCarry (field : Fin 4) : UInt8 := atPair 0x42 field

def addWithCarry (field : Fin 4) : UInt8 := atPair 0x4A field

def storeWordAt (field : Fin 4) : UInt8 := atPair 0x43 field

def loadWordAt (field : Fin 4) : UInt8 := atPair 0x4B field

def push (field : Fin 4) : UInt8 := atPair 0xC5 field

def pop (field : Fin 4) : UInt8 := atPair 0xC1 field

/-! ### Jumps -/

def jumpIf (cond : Cond) : UInt8 := atSlot 0xC2 cond.code

def callIf (cond : Cond) : UInt8 := atSlot 0xC4 cond.code

def returnIf (cond : Cond) : UInt8 := atSlot 0xC0 cond.code

def jumpRelativeIf (cond : ShortCond) : UInt8 :=
  0x20 + UInt8.ofNat (8 * cond.code)

def restart (vector : Fin 8) : UInt8 := atSlot 0xC7 vector

/-- The vector of a restart address: the multiples of eight from `0x00` to `0x38`. -/
def restartVector? (address : Int) : Option (Fin 8) :=
  if 0 ≤ address ∧ address % 8 = 0 then
    if h : (address / 8).toNat < 8 then some ⟨(address / 8).toNat, h⟩ else none
  else none

/-! ### Interrupts, ports and bits -/

inductive InterruptMode
  | zero | one | two
deriving DecidableEq, Repr

def InterruptMode.ofNumber? : Int → Option InterruptMode
  | 0 => some .zero
  | 1 => some .one
  | 2 => some .two
  | _ => none

def interruptMode : InterruptMode → UInt8
  | .zero => 0x46
  | .one => 0x56
  | .two => 0x5E

def input (slot : Fin 8) : UInt8 := atSlot 0x40 slot

def output (slot : Fin 8) : UInt8 := atSlot 0x41 slot

def shift (operation : Shift) (slot : Fin 8) : UInt8 :=
  atSlot 0x00 operation.code + UInt8.ofNat slot

def bit (operation : BitOp) (number slot : Fin 8) : UInt8 :=
  atSlot (UInt8.ofNat (0x40 * operation.code)) number + UInt8.ofNat slot

/-- The byte that opens the bit table. -/
def bitMarker : UInt8 := 0xCB

/-! ### Fields -/

def lowSlot (byte : UInt8) : Fin 8 := ⟨byte.toNat % 8, by omega⟩

def lowPair (byte : UInt8) : Fin 4 := ⟨byte.toNat % 4, by omega⟩

/-- The fields of an opcode: two bits, three bits, three bits. -/
structure Fields where
  block : Fin 4
  middle : Fin 8
  low : Fin 8
deriving DecidableEq, Repr

namespace Fields

def ofByte (byte : UInt8) : Fields where
  block := lowPair (byte / 64)
  middle := lowSlot (byte / 8)
  low := lowSlot byte

/-- The upper two bits of the middle field, which name a register pair. -/
def pair (fields : Fields) : Fin 4 := ⟨fields.middle / 2, by omega⟩

def odd (fields : Fields) : Bool := fields.middle.val % 2 == 1

end Fields

end Z80Toolchain.Opcode
