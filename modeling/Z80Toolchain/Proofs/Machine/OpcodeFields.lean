import Z80Toolchain.Machine.Opcode

/-!
Opcodes as fields. A byte and its three fields determine each other, and every opcode block is a
fixed choice of two fields with an operand code in the third. Reading an opcode back is then a look
at its fields; no block is enumerated twice.
-/
namespace Z80Toolchain.Opcode

namespace Fields

def toByte (fields : Fields) : UInt8 :=
  UInt8.ofNat (64 * fields.block + 8 * fields.middle + fields.low)

theorem to_byte_to_nat (fields : Fields) :
    fields.toByte.toNat = 64 * fields.block + 8 * fields.middle + fields.low := by
  have block := fields.block.isLt
  have middle := fields.middle.isLt
  have low := fields.low.isLt
  simp only [toByte, UInt8.toNat_ofNat']
  omega

theorem to_nat_div_64 (byte : UInt8) : (byte / 64).toNat = byte.toNat / 64 :=
  UInt8.toNat_div byte 64

theorem to_nat_div_8 (byte : UInt8) : (byte / 8).toNat = byte.toNat / 8 :=
  UInt8.toNat_div byte 8

@[simp] theorem of_byte_to_byte (fields : Fields) : ofByte fields.toByte = fields := by
  have value := to_byte_to_nat fields
  obtain ⟨⟨block, _⟩, ⟨middle, _⟩, ⟨low, _⟩⟩ := fields
  simp only [ofByte, lowPair, lowSlot, to_nat_div_64, to_nat_div_8, mk.injEq, Fin.mk.injEq] at value ⊢
  omega

@[simp] theorem to_byte_of_byte (byte : UInt8) : (ofByte byte).toByte = byte := by
  apply UInt8.toNat_inj.mp
  have bounded := byte.toNat_lt
  rw [to_byte_to_nat]
  simp only [ofByte, lowPair, lowSlot, to_nat_div_64, to_nat_div_8]
  omega

/-- The middle field that holds a pair field and a lowest bit. -/
def joined (field : Fin 4) (bit : Fin 2) : Fin 8 :=
  ⟨2 * field + bit, by omega⟩

@[simp] theorem pair_joined (block field : Fin 4) (bit : Fin 2) (low : Fin 8) :
    pair ⟨block, joined field bit, low⟩ = field := by
  apply Fin.ext
  simp only [pair, joined]
  omega

@[simp] theorem odd_joined (block field : Fin 4) (bit : Fin 2) (low : Fin 8) :
    odd ⟨block, joined field bit, low⟩ = (bit == 1) := by
  simp only [odd, joined]
  revert field bit
  decide

/-- Every middle field holds its own pair field and lowest bit. -/
theorem joined_pair_odd (fields : Fields) :
    fields.middle = joined fields.pair (if fields.odd then 1 else 0) := by
  apply Fin.ext
  have remainder := Nat.mod_two_eq_zero_or_one fields.middle.val
  simp only [pair, odd, joined, beq_iff_eq]
  split <;> simp <;> omega

end Fields

open Fields

/-! ### Operand codes in their block -/

theorem at_slot_to_byte (block : Fin 4) (low slot : Fin 8) :
    atSlot (toByte ⟨block, 0, low⟩) slot = toByte ⟨block, slot, low⟩ := by
  revert block low slot
  decide

theorem at_pair_to_byte (block field : Fin 4) (bit : Fin 2) (low : Fin 8) :
    atPair (toByte ⟨block, joined 0 bit, low⟩) field = toByte ⟨block, joined field bit, low⟩ := by
  revert block field bit low
  decide

/-! ### The fields of each opcode block -/

theorem load_eq_to_byte (target source : Fin 8) :
    load target source = toByte ⟨1, target, source⟩ := by
  revert target source
  decide

theorem load_byte_eq_to_byte (target : Fin 8) : loadByte target = toByte ⟨0, target, 6⟩ :=
  at_slot_to_byte 0 6 target

theorem increment_eq_to_byte (slot : Fin 8) : increment slot = toByte ⟨0, slot, 4⟩ :=
  at_slot_to_byte 0 4 slot

theorem decrement_eq_to_byte (slot : Fin 8) : decrement slot = toByte ⟨0, slot, 5⟩ :=
  at_slot_to_byte 0 5 slot

theorem arith_eq_to_byte (operation : Arith) (slot : Fin 8) :
    arith operation slot = toByte ⟨2, operation.code, slot⟩ := by
  cases operation <;> revert slot <;> decide

theorem arith_byte_eq_to_byte (operation : Arith) :
    arithByte operation = toByte ⟨3, operation.code, 6⟩ :=
  at_slot_to_byte 3 6 operation.code

theorem load_word_eq_to_byte (field : Fin 4) : loadWord field = toByte ⟨0, joined field 0, 1⟩ :=
  at_pair_to_byte 0 field 0 1

theorem add_word_eq_to_byte (field : Fin 4) : addWord field = toByte ⟨0, joined field 1, 1⟩ :=
  at_pair_to_byte 0 field 1 1

theorem increment_word_eq_to_byte (field : Fin 4) :
    incrementWord field = toByte ⟨0, joined field 0, 3⟩ :=
  at_pair_to_byte 0 field 0 3

theorem decrement_word_eq_to_byte (field : Fin 4) :
    decrementWord field = toByte ⟨0, joined field 1, 3⟩ :=
  at_pair_to_byte 0 field 1 3

theorem subtract_with_carry_eq_to_byte (field : Fin 4) :
    subtractWithCarry field = toByte ⟨1, joined field 0, 2⟩ :=
  at_pair_to_byte 1 field 0 2

theorem add_with_carry_eq_to_byte (field : Fin 4) :
    addWithCarry field = toByte ⟨1, joined field 1, 2⟩ :=
  at_pair_to_byte 1 field 1 2

theorem jump_if_eq_to_byte (cond : Cond) : jumpIf cond = toByte ⟨3, cond.code, 2⟩ :=
  at_slot_to_byte 3 2 cond.code

theorem call_if_eq_to_byte (cond : Cond) : callIf cond = toByte ⟨3, cond.code, 4⟩ :=
  at_slot_to_byte 3 4 cond.code

theorem return_if_eq_to_byte (cond : Cond) : returnIf cond = toByte ⟨3, cond.code, 0⟩ :=
  at_slot_to_byte 3 0 cond.code

theorem restart_eq_to_byte (vector : Fin 8) : restart vector = toByte ⟨3, vector, 7⟩ :=
  at_slot_to_byte 3 7 vector

theorem input_eq_to_byte (slot : Fin 8) : input slot = toByte ⟨1, slot, 0⟩ :=
  at_slot_to_byte 1 0 slot

theorem output_eq_to_byte (slot : Fin 8) : output slot = toByte ⟨1, slot, 1⟩ :=
  at_slot_to_byte 1 1 slot

theorem shift_eq_to_byte (operation : Shift) (slot : Fin 8) :
    shift operation slot = toByte ⟨0, operation.code, slot⟩ := by
  cases operation <;> revert slot <;> decide

theorem bit_eq_to_byte (operation : BitOp) (number slot : Fin 8) :
    bit operation number slot = toByte ⟨operation.code, number, slot⟩ := by
  cases operation <;> revert number slot <;> decide

end Z80Toolchain.Opcode
