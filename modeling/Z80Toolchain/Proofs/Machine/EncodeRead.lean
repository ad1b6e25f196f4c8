import Mathlib.Data.Fintype.Basic
import Mathlib.Tactic.FinCases
import Z80Toolchain.Proofs.Machine.ReadEncode

/-!
What the decoder reads is an encoding: the bytes of the instruction or of the data it gives, followed
by the bytes it leaves over, are its input. The tables are followed field by field; each form that a
table gives is shown to complete the bytes that selected it.
-/
namespace Z80Toolchain

open Opcode Opcode.Fields

/-! ### Operand codes -/

@[simp] theorem Cond.code_of_code (code : Fin 8) : (Cond.ofCode code).code = code := by
  revert code
  decide

@[simp] theorem Arith.code_of_code (code : Fin 8) : (Arith.ofCode code).code = code := by
  revert code
  decide

@[simp] theorem Shift.code_of_code (code : Fin 8) : (Shift.ofCode code).code = code := by
  revert code
  decide

theorem Implied.bytes_of_bytes? {bytes : List UInt8} {operation : Implied}
    (found : ofBytes? bytes = some operation) : operation.bytes = bytes := by
  simpa using List.find?_some found

/-! ### Forms and the bytes that select them -/

namespace Form

/-- Whatever fills the form is a well-formed instruction, encoded as the header followed by the
bytes that filled the form. -/
def Encodes (header : List UInt8) (form : Form) : Prop :=
  ∀ input instruction rest, form.fill input = some (instruction, rest) →
    instruction.WellFormed ∧ instruction.encode ++ rest = header ++ input

theorem encodes_complete {header : List UInt8} {instruction : Instruction}
    (wellFormed : instruction.WellFormed) (encoded : instruction.encode = header) :
    (complete instruction).Encodes header := by
  rintro input _ rest ⟨⟩
  exact ⟨wellFormed, by rw [encoded]⟩

theorem encodes_byte {header : List UInt8} {build : UInt8 → Instruction}
    (wellFormed : ∀ operand, (build operand).WellFormed)
    (encoded : ∀ operand, (build operand).encode = header ++ [operand]) :
    (byte build).Encodes header := by
  intro input instruction rest filled
  cases input with
  | nil => cases filled
  | cons operand input =>
    cases filled
    exact ⟨wellFormed operand, by simp [encoded]⟩

theorem encodes_word {header : List UInt8} {build : UInt16 → Instruction}
    (wellFormed : ∀ operand, (build operand).WellFormed)
    (encoded : ∀ operand, (build operand).encode = header ++ wordBytes operand) :
    (word build).Encodes header := by
  intro input instruction rest filled
  rcases input with _ | ⟨low, _ | ⟨high, input⟩⟩
  · cases filled
  · cases filled
  · cases filled
    exact ⟨wellFormed _, by simp [encoded]⟩

theorem encodes_distance_and_byte {header : List UInt8} {build : UInt8 → UInt8 → Instruction}
    (wellFormed : ∀ distance operand, (build distance operand).WellFormed)
    (encoded : ∀ distance operand, (build distance operand).encode = header ++ [distance, operand]) :
    (distanceAndByte build).Encodes header := by
  intro input instruction rest filled
  rcases input with _ | ⟨distance, _ | ⟨operand, input⟩⟩
  · cases filled
  · cases filled
  · cases filled
    exact ⟨wellFormed _ _, by simp [encoded]⟩

end Form

namespace Place

/-- Behind a prefix byte that it takes, a register slot names a place of that prefix byte. -/
theorem base_of_register {base : Base} {register : Reg8}
    (leads : ∀ index, base = .index index → slotTakesMarker register.slot = true) :
    (ofRegister base register).base = base := by
  cases base with
  | hl => rw [of_register_hl]; rfl
  | index index =>
    have taken := leads index rfl
    cases register <;> first | rfl | exact absurd taken (by decide)

@[simp] theorem slot_of_register (base : Base) (register : Reg8) :
    (ofRegister base register).slot = register.slot := by
  cases base <;> cases register <;> rfl

@[simp] theorem distances_of_register (base : Base) (register : Reg8) :
    (ofRegister base register).distances = [] := by
  cases base <;> cases register <;> rfl

end Place

namespace Form

/-- The form of one place encodes the instruction on it. -/
theorem on_place_encodes {base : Base} {slot : Fin 8} {opcode : UInt8} {build : Place → Instruction}
    (leads : ∀ index, base = .index index → slotTakesMarker slot = true)
    (wellFormed : ∀ place, (build place).WellFormed)
    (encoded : ∀ place, place.slot = slot → (build place).encode = Instruction.placed place opcode) :
    (onPlace base slot build).Encodes (base.markers ++ [opcode]) := by
  cases found : Reg8.ofSlot? slot with
  | some register =>
    have slotted : register.slot = slot := Reg8.slot_of_slot? found
    simp only [onPlace, found]
    refine encodes_complete (wellFormed _) ?_
    rw [encoded _ (by rw [Place.slot_of_register, slotted]), Instruction.placed,
      Place.base_of_register (by rwa [slotted]), Place.distances_of_register]
  | none =>
    have slotted : memorySlot = slot := (Reg8.slot_of_slot?_none found).symm
    cases base with
    | hl =>
      simp only [onPlace, found]
      exact encodes_complete (wellFormed _) (encoded (.cell (.memory .hl)) slotted)
    | index index =>
      simp only [onPlace, found]
      exact encodes_byte (fun _ => wellFormed _) fun distance =>
        encoded (.cell (.memory (.indexed index distance))) slotted

/-- The fields of an opcode that stands behind the prefix byte of a base: an index register asks that
the opcode takes its prefix byte. -/
def Marked (base : Base) (fields : Fields) : Prop :=
  ∀ index, base = .index index → fieldsTakeMarker fields.toByte fields = true

theorem Marked.eq_hl {base : Base} {fields : Fields} (marked : Marked base fields)
    (refused : fieldsTakeMarker fields.toByte fields = false) : base = .hl := by
  cases base with
  | hl => rfl
  | index index => simp [marked index rfl] at refused

theorem of_load_encodes {base : Base} {target source : Fin 8}
    (marked : Marked base ⟨1, target, source⟩) :
    (ofLoad base target source).Encodes (base.markers ++ [toByte ⟨1, target, source⟩]) := by
  rw [← load_eq_to_byte]
  have taken : ∀ index, base = .index index →
      slotTakesMarker target = true ∨ slotTakesMarker source = true := by
    intro index based
    have takes := marked index based
    simp only [fieldsTakeMarker, Bool.and_eq_true, Bool.or_eq_true] at takes
    exact takes.2
  cases into : Reg8.ofSlot? target with
  | some left =>
    obtain rfl := Reg8.slot_of_slot? into
    cases out : Reg8.ofSlot? source with
    | some right =>
      obtain rfl := Reg8.slot_of_slot? out
      simp only [ofLoad, into, out]
      cases base with
      | hl => exact encodes_complete rfl rfl
      | index index =>
        have some := taken index rfl
        cases left <;> cases right <;>
          first
          | exact encodes_complete (by simp [Instruction.WellFormed, Place.ofRegister, Place.compatible,
              Reg8.isHalfOfHl]) rfl
          | exact absurd some (by decide)
    | none =>
      obtain rfl := Reg8.slot_of_slot?_none out
      simp only [ofLoad, into, out]
      cases base with
      | hl => exact encodes_complete rfl rfl
      | index index => exact encodes_byte (fun _ => rfl) fun _ => rfl
  | none =>
    obtain rfl := Reg8.slot_of_slot?_none into
    cases out : Reg8.ofSlot? source with
    | some right =>
      obtain rfl := Reg8.slot_of_slot? out
      simp only [ofLoad, into, out]
      cases base with
      | hl => exact encodes_complete rfl rfl
      | index index =>
        refine encodes_byte (fun _ => rfl) fun _ => ?_
        simp [Instruction.encode, Place.sharedBase, Place.base, Cell.base, Memory.base, Base.markers,
          Place.slot, Cell.slot, Place.distances, Cell.distances, Memory.distances]
    | none =>
      obtain rfl := Reg8.slot_of_slot?_none out
      obtain rfl := marked.eq_hl rfl
      exact encodes_complete trivial rfl

theorem of_load_byte_encodes {base : Base} {middle : Fin 8} {form : Form}
    (marked : Marked base ⟨0, middle, 6⟩)
    (found : ofLowBlock base (toByte ⟨0, middle, 6⟩) ⟨0, middle, 6⟩ = some form) :
    form.Encodes (base.markers ++ [toByte ⟨0, middle, 6⟩]) := by
  have taken : ∀ index, base = .index index → slotTakesMarker middle = true := marked
  rw [← load_byte_eq_to_byte]
  cases slot : Reg8.ofSlot? middle with
  | some register =>
    obtain rfl := Reg8.slot_of_slot? slot
    simp only [ofLowBlock, slot, Option.some.injEq] at found
    cases found
    refine encodes_byte (fun _ => trivial) fun value => ?_
    simp [Instruction.encode, Instruction.placed, Place.base_of_register taken]
  | none =>
    obtain rfl := Reg8.slot_of_slot?_none slot
    cases base with
    | hl =>
      cases found
      exact encodes_byte (fun _ => trivial) fun _ => rfl
    | index index =>
      simp only [ofLowBlock, slot, Option.some.injEq] at found
      cases found
      exact encodes_distance_and_byte (fun _ _ => trivial) fun _ _ => rfl

theorem of_low_block_encodes {base : Base} {middle low : Fin 8} {form : Form}
    (marked : Marked base ⟨0, middle, low⟩)
    (found : ofLowBlock base (toByte ⟨0, middle, low⟩) ⟨0, middle, low⟩ = some form) :
    form.Encodes (base.markers ++ [toByte ⟨0, middle, low⟩]) := by
  obtain ⟨field, bit, rfl⟩ : ∃ field bit, middle = joined field bit :=
    ⟨_, _, joined_pair_odd ⟨0, middle, low⟩⟩
  fin_cases low
  · obtain rfl := marked.eq_hl rfl
    generalize joined field bit = middle at found
    fin_cases middle <;> cases found <;>
      first
      | exact encodes_complete trivial rfl
      | exact encodes_byte (fun _ => trivial) fun _ => rfl
  · simp only [ofLowBlock, pair_joined, odd_joined] at found
    fin_cases bit <;> cases found
    · have wide : ∀ index, base = .index index → field = 2 := by
        intro index based
        have := marked index based
        simpa [fieldsTakeMarker] using this
      refine encodes_word (fun _ => trivial) fun value => ?_
      simp [Instruction.encode, Wide.markers_of_field wide, Wide.field_of_field, load_word_eq_to_byte]
    · refine encodes_complete trivial ?_
      simp [Instruction.encode, add_word_eq_to_byte]
  · cases base with
    | hl =>
      generalize joined field bit = middle at found
      fin_cases middle <;> cases found <;>
        first
        | exact encodes_complete trivial rfl
        | exact encodes_word (fun _ => trivial) fun _ => rfl
    | index index =>
      obtain rfl : field = 2 := by simpa [fieldsTakeMarker] using marked index rfl
      fin_cases bit <;> cases found <;> exact encodes_word (fun _ => trivial) fun _ => rfl
  · have wide : ∀ index, base = .index index → field = 2 := by
      intro index based
      simpa [fieldsTakeMarker] using marked index based
    simp only [ofLowBlock, pair_joined, odd_joined] at found
    fin_cases bit <;> cases found <;> refine encodes_complete trivial ?_
    · simp [Instruction.encode, Wide.markers_of_field wide, Wide.field_of_field,
        increment_word_eq_to_byte]
    · simp [Instruction.encode, Wide.markers_of_field wide, Wide.field_of_field,
        decrement_word_eq_to_byte]
  · cases found
    refine on_place_encodes marked (fun _ => trivial) fun place slotted => ?_
    simp [Instruction.encode, slotted, increment_eq_to_byte]
  · cases found
    refine on_place_encodes marked (fun _ => trivial) fun place slotted => ?_
    simp [Instruction.encode, slotted, decrement_eq_to_byte]
  · exact of_load_byte_encodes marked found
  · obtain rfl := marked.eq_hl rfl
    generalize joined field bit = middle at found
    fin_cases middle <;> cases found <;> exact encodes_complete trivial rfl

theorem of_high_block_encodes {base : Base} {middle low : Fin 8} {form : Form}
    (marked : Marked base ⟨3, middle, low⟩)
    (found : ofHighBlock base ⟨3, middle, low⟩ = some form) :
    form.Encodes (base.markers ++ [toByte ⟨3, middle, low⟩]) := by
  cases base with
  | index index =>
    have listed : ∀ middle low : Fin 8,
        fieldsTakeMarker (toByte ⟨3, middle, low⟩) ⟨3, middle, low⟩ = true →
        (middle, low) ∈ [(4, 1), (4, 3), (4, 5), (5, 1), (7, 1)] := by decide
    have member := listed middle low (marked index rfl)
    simp only [List.mem_cons, Prod.mk.injEq, List.not_mem_nil, or_false] at member
    rcases member with ⟨rfl, rfl⟩ | ⟨rfl, rfl⟩ | ⟨rfl, rfl⟩ | ⟨rfl, rfl⟩ | ⟨rfl, rfl⟩ <;>
      cases found <;> exact encodes_complete trivial rfl
  | hl =>
    fin_cases low
    · cases found
      exact encodes_complete trivial (by simp [Instruction.encode, return_if_eq_to_byte, Base.markers])
    · fin_cases middle <;> cases found <;> exact encodes_complete trivial rfl
    · cases found
      refine encodes_word (fun _ => trivial) fun _ => ?_
      simp [Instruction.encode, jump_if_eq_to_byte, Base.markers]
    · fin_cases middle <;> cases found <;>
        first
        | exact encodes_complete trivial rfl
        | exact encodes_byte (fun _ => trivial) fun _ => rfl
        | exact encodes_word (fun _ => trivial) fun _ => rfl
    · cases found
      refine encodes_word (fun _ => trivial) fun _ => ?_
      simp [Instruction.encode, call_if_eq_to_byte, Base.markers]
    · fin_cases middle <;> cases found <;>
        first
        | exact encodes_complete trivial rfl
        | exact encodes_word (fun _ => trivial) fun _ => rfl
    · cases found
      refine encodes_byte (fun _ => trivial) fun _ => ?_
      simp [Instruction.encode, arith_byte_eq_to_byte, Base.markers]
    · cases found
      exact encodes_complete trivial (by simp [Instruction.encode, restart_eq_to_byte, Base.markers])

/-- Whatever the unprefixed table gives encodes to the opcode behind the prefix byte of its base. -/
theorem of_opcode_encodes {base : Base} {opcode : UInt8} {form : Form}
    (leads : ∀ index, base = .index index → takesMarker opcode = true)
    (found : ofOpcode base opcode = some form) : form.Encodes (base.markers ++ [opcode]) := by
  obtain ⟨⟨block, middle, low⟩, rfl⟩ : ∃ fields : Fields, opcode = fields.toByte :=
    ⟨_, (to_byte_of_byte opcode).symm⟩
  have marked : Marked base ⟨block, middle, low⟩ := by
    intro index based
    simpa [takesMarker] using leads index based
  simp only [ofOpcode, of_byte_to_byte] at found
  fin_cases block
  · exact of_low_block_encodes marked found
  · cases found
    exact of_load_encodes marked
  · cases found
    refine on_place_encodes marked (fun _ => trivial) fun place slotted => ?_
    simp [Instruction.encode, slotted, arith_eq_to_byte]
  · exact of_high_block_encodes marked found

@[simp] theorem port_slot_of_slot? (slot : Fin 8) :
    Instruction.portSlot (Reg8.ofSlot? slot) = slot := by
  revert slot
  decide

theorem of_extended_fields_encodes {fields : Fields} {form : Form}
    (found : ofExtendedFields fields = some form) :
    form.Encodes [extendedMarker, fields.toByte] := by
  obtain ⟨block, middle, low⟩ := fields
  obtain ⟨field, bit, rfl⟩ : ∃ field bit, middle = joined field bit :=
    ⟨_, _, joined_pair_odd ⟨0, middle, low⟩⟩
  obtain rfl : block = 1 := by
    fin_cases block <;> first | rfl | cases found
  fin_cases low
  · cases found
    exact encodes_complete trivial (by simp [Instruction.encode, input_eq_to_byte])
  · cases found
    exact encodes_complete trivial (by simp [Instruction.encode, output_eq_to_byte])
  · simp only [ofExtendedFields, pair_joined, odd_joined] at found
    fin_cases bit <;> cases found <;> refine encodes_complete trivial ?_
    · simp [Instruction.encode, subtract_with_carry_eq_to_byte]
    · simp [Instruction.encode, add_with_carry_eq_to_byte]
  · fin_cases field <;> fin_cases bit <;> cases found <;>
      exact encodes_word (fun _ => trivial) fun _ => rfl
  · cases found
  · cases found
  · generalize joined field bit = middle at found
    fin_cases middle <;> cases found <;> exact encodes_complete trivial rfl
  · generalize joined field bit = middle at found
    fin_cases middle <;> cases found <;> exact encodes_complete trivial rfl

theorem of_extended_opcode_encodes {opcode : UInt8} {form : Form}
    (found : ofExtendedOpcode opcode = some form) : form.Encodes [extendedMarker, opcode] := by
  obtain ⟨⟨block, middle, low⟩, rfl⟩ : ∃ fields : Fields, opcode = fields.toByte :=
    ⟨_, (to_byte_of_byte opcode).symm⟩
  unfold ofExtendedOpcode at found
  split at found
  · rename_i operation implied
    cases found
    exact encodes_complete trivial (Implied.bytes_of_bytes? implied)
  · simp only [of_byte_to_byte] at found
    exact of_extended_fields_encodes found

end Form

namespace Instruction

theorem well_formed_of_bit_fields (fields : Fields) (cell : Cell) :
    (ofBitFields fields cell).WellFormed := by
  unfold ofBitFields
  split <;> trivial

/-- The bit table encodes to the opcode whose low field is the slot of the cell. -/
theorem encode_of_bit_fields {fields : Fields} {cell : Cell} (slotted : cell.slot = fields.low) :
    (ofBitFields fields cell).encode = bitPlaced cell fields.toByte := by
  obtain ⟨block, middle, low⟩ := fields
  dsimp only at slotted
  subst slotted
  fin_cases block
  · simp [ofBitFields, encode, shift_eq_to_byte]
  · simp [ofBitFields, encode, bit_eq_to_byte, BitOp.ofNumber, BitOp.code]
  · simp [ofBitFields, encode, bit_eq_to_byte, BitOp.ofNumber, BitOp.code]
  · simp [ofBitFields, encode, bit_eq_to_byte, BitOp.ofNumber, BitOp.code]

end Instruction

namespace Cell

@[simp] theorem slot_of_slot (slot : Fin 8) : (ofSlot slot).slot = slot := by
  revert slot
  decide

@[simp] theorem base_of_slot (slot : Fin 8) : (ofSlot slot).base = .hl := by
  revert slot
  decide

@[simp] theorem distances_of_slot (slot : Fin 8) : (ofSlot slot).distances = [] := by
  revert slot
  decide

end Cell

namespace Decoded

def WellFormed : Decoded → Prop
  | instruction found => found.WellFormed
  | data bytes => bytes ≠ []

theorem bytes_of_form {form : Form} {header input rest : List UInt8} {decoded : Decoded}
    (encodes : form.Encodes header) (filled : ofForm form input = some (decoded, rest)) :
    decoded.WellFormed ∧ decoded.bytes ++ rest = header ++ input := by
  simp only [ofForm, Option.map_eq_some_iff, Prod.mk.injEq] at filled
  obtain ⟨⟨found, after⟩, filled, rfl, rfl⟩ := filled
  exact encodes input found after filled

theorem bytes_of_indexed_bit {index : Index} {input rest : List UInt8} {decoded : Decoded}
    (found : indexedBit index input = some (decoded, rest)) :
    decoded.WellFormed ∧ decoded.bytes ++ rest = index.marker :: bitMarker :: input := by
  rcases input with _ | ⟨distance, _ | ⟨opcode, input⟩⟩
  · cases found
  · cases found
  · simp only [indexedBit] at found
    split at found
    · rename_i slotted
      cases found
      refine ⟨Instruction.well_formed_of_bit_fields _ _, ?_⟩
      have slot : (Cell.memory (.indexed index distance)).slot = (ofByte opcode).low := slotted.symm
      rw [bytes, Instruction.encode_of_bit_fields slot, to_byte_of_byte]
      rfl
    · cases found
      exact ⟨List.cons_ne_nil _ _, rfl⟩

theorem bytes_of_indexed {index : Index} {input rest : List UInt8} {decoded : Decoded}
    (found : indexed index input = some (decoded, rest)) :
    decoded.WellFormed ∧ decoded.bytes ++ rest = index.marker :: input := by
  cases input with
  | nil =>
    cases found
    exact ⟨List.cons_ne_nil _ _, rfl⟩
  | cons opcode input =>
    simp only [indexed] at found
    split at found
    · rename_i opened
      rw [opened]
      exact bytes_of_indexed_bit found
    · split at found
      · rename_i taken
        obtain ⟨form, chosen, filled⟩ := Option.bind_eq_some_iff.mp found
        exact bytes_of_form (Form.of_opcode_encodes (fun _ _ => taken) chosen) filled
      · cases found
        exact ⟨List.cons_ne_nil _ _, rfl⟩

theorem bytes_of_bit {input rest : List UInt8} {decoded : Decoded}
    (found : bit input = some (decoded, rest)) :
    decoded.WellFormed ∧ decoded.bytes ++ rest = bitMarker :: input := by
  cases input with
  | nil => cases found
  | cons opcode input =>
    cases found
    refine ⟨Instruction.well_formed_of_bit_fields _ _, ?_⟩
    rw [bytes, Instruction.encode_of_bit_fields (Cell.slot_of_slot _), to_byte_of_byte]
    simp [Instruction.bitPlaced, Cell.base_of_slot, Base.markers, Cell.distances_of_slot]

theorem bytes_of_extended {input rest : List UInt8} {decoded : Decoded}
    (found : extended input = some (decoded, rest)) :
    decoded.WellFormed ∧ decoded.bytes ++ rest = extendedMarker :: input := by
  cases input with
  | nil => cases found
  | cons opcode input =>
    simp only [extended] at found
    split at found
    · rename_i form chosen
      exact bytes_of_form (Form.of_extended_opcode_encodes chosen) found
    · cases found
      exact ⟨List.cons_ne_nil _ _, rfl⟩

/-- Reading splits its input: the bytes of what was read, then the rest. -/
theorem bytes_of_read {input rest : List UInt8} {decoded : Decoded}
    (found : read input = some (decoded, rest)) :
    decoded.WellFormed ∧ decoded.bytes ++ rest = input := by
  cases input with
  | nil => cases found
  | cons first input =>
    simp only [read] at found
    split at found
    · rename_i index marked
      obtain rfl : index.marker = first := by simpa using List.find?_some marked
      exact bytes_of_indexed found
    · split at found
      · rename_i opened
        rw [opened]
        exact bytes_of_bit found
      · split at found
        · rename_i opened
          rw [opened]
          exact bytes_of_extended found
        · obtain ⟨form, chosen, filled⟩ := Option.bind_eq_some_iff.mp found
          exact bytes_of_form (Form.of_opcode_encodes (by simp) chosen) filled

end Decoded

end Z80Toolchain
