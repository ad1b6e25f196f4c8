import Z80Toolchain.Machine.Instruction

/-!
The bytes of an instruction: a prefix byte if an index register takes part, the opcode, the distance
of an indexed cell, and the value or address. In the bit table the distance stands before the
opcode.
-/
namespace Z80Toolchain

/-- Low byte first. -/
def wordBytes (word : UInt16) : List UInt8 :=
  [UInt8.ofNat (word.toNat % 256), UInt8.ofNat (word.toNat / 256)]

def wordOfBytes (low high : UInt8) : UInt16 :=
  UInt16.ofNat (low.toNat + 256 * high.toNat)

namespace Instruction

open Opcode

def placed (place : Place) (opcode : UInt8) : List UInt8 :=
  place.base.markers ++ opcode :: place.distances

def bitPlaced (cell : Cell) (opcode : UInt8) : List UInt8 :=
  cell.base.markers ++ bitMarker :: (cell.distances ++ [opcode])

/-- The operand field of an input or output; without a register it has the slot of memory. -/
def portSlot (register : Option Reg8) : Fin 8 :=
  (register.map Reg8.slot).getD memorySlot

def encode : Instruction → List UInt8
  | implied operation => operation.bytes
  | load target source =>
    (target.sharedBase source).markers ++
      Opcode.load target.slot source.slot :: (target.distances ++ source.distances)
  | loadByte target value => placed target (Opcode.loadByte target.slot) ++ [value]
  | loadAccumulator .bc => [0x0A]
  | loadAccumulator .de => [0x1A]
  | loadAccumulator (.address address) => 0x3A :: wordBytes address
  | storeAccumulator .bc => [0x02]
  | storeAccumulator .de => [0x12]
  | storeAccumulator (.address address) => 0x32 :: wordBytes address
  | writeControl .i => [extendedMarker, 0x47]
  | writeControl .r => [extendedMarker, 0x4F]
  | readControl .i => [extendedMarker, 0x57]
  | readControl .r => [extendedMarker, 0x5F]
  | loadWord target value => target.markers ++ Opcode.loadWord target.field :: wordBytes value
  | loadWordAt (.base base) address => base.markers ++ 0x2A :: wordBytes address
  | loadWordAt target address =>
    extendedMarker :: Opcode.loadWordAt target.field :: wordBytes address
  | storeWordAt address (.base base) => base.markers ++ 0x22 :: wordBytes address
  | storeWordAt address source =>
    extendedMarker :: Opcode.storeWordAt source.field :: wordBytes address
  | loadStackPointer source => source.markers ++ [0xF9]
  | push source => source.markers ++ [Opcode.push source.field]
  | pop target => target.markers ++ [Opcode.pop target.field]
  | exchangeAf => [0x08]
  | exchangeDeHl => [0xEB]
  | exchangeStack register => register.markers ++ [0xE3]
  | arith operation source => placed source (Opcode.arith operation source.slot)
  | arithByte operation value => [Opcode.arithByte operation, value]
  | addWord target source => target.markers ++ [Opcode.addWord source.field]
  | addWithCarry source => [extendedMarker, Opcode.addWithCarry source.field]
  | subtractWithCarry source => [extendedMarker, Opcode.subtractWithCarry source.field]
  | increment target => placed target (Opcode.increment target.slot)
  | decrement target => placed target (Opcode.decrement target.slot)
  | incrementWord target => target.markers ++ [Opcode.incrementWord target.field]
  | decrementWord target => target.markers ++ [Opcode.decrementWord target.field]
  | shift operation target => bitPlaced target (Opcode.shift operation target.slot)
  | bit operation number target => bitPlaced target (Opcode.bit operation number target.slot)
  | jump address => 0xC3 :: wordBytes address
  | jumpIf cond address => Opcode.jumpIf cond :: wordBytes address
  | jumpTo register => register.markers ++ [0xE9]
  | jumpRelative distance => [0x18, distance]
  | jumpRelativeIf cond distance => [Opcode.jumpRelativeIf cond, distance]
  | countDown distance => [0x10, distance]
  | call address => 0xCD :: wordBytes address
  | callIf cond address => Opcode.callIf cond :: wordBytes address
  | ret => [0xC9]
  | retIf cond => [Opcode.returnIf cond]
  | restart vector => [Opcode.restart vector]
  | interruptMode mode => [extendedMarker, Opcode.interruptMode mode]
  | inputPort number => [0xDB, number]
  | outputPort number => [0xD3, number]
  | input target => [extendedMarker, Opcode.input (portSlot target)]
  | output source => [extendedMarker, Opcode.output (portSlot source)]

end Instruction

end Z80Toolchain
