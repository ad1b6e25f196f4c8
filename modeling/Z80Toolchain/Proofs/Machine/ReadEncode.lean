import Z80Toolchain.Machine.Instruction.Decode
import Z80Toolchain.Proofs.Machine.OpcodeFields

/-!
The decoder reads every encoded instruction back and leaves over whatever follows it, so encodings
form a prefix code. An opcode selects a form through its fields, and the operand bytes fill that
form. Nothing is said here about bytes that are no encoding.
-/
namespace Z80Toolchain

open Opcode Opcode.Fields

/-! ### Words -/

@[simp] theorem word_of_bytes_word_bytes (word : UInt16) :
    wordOfBytes (UInt8.ofNat (word.toNat % 256)) (UInt8.ofNat (word.toNat / 256)) = word := by
  apply UInt16.toNat_inj.mp
  have bounded := word.toNat_lt
  simp only [wordOfBytes, UInt8.toNat_ofNat', UInt16.toNat_ofNat']
  omega

@[simp] theorem word_bytes_word_of_bytes (low high : UInt8) :
    wordBytes (wordOfBytes low high) = [low, high] := by
  have lowBounded := low.toNat_lt
  have highBounded := high.toNat_lt
  have value : (wordOfBytes low high).toNat = low.toNat + 256 * high.toNat := by
    simp only [wordOfBytes, UInt16.toNat_ofNat']
    omega
  rw [wordBytes, value]
  congr 1
  · apply UInt8.toNat_inj.mp
    rw [UInt8.toNat_ofNat']
    omega
  · congr 1
    apply UInt8.toNat_inj.mp
    rw [UInt8.toNat_ofNat']
    omega

/-! ### Operands behind a prefix byte -/

namespace Wide

def lead : Wide → Base
  | base register => register
  | _ => .hl

theorem markers_lead (wide : Wide) : wide.lead.markers = wide.markers := by
  cases wide <;> rfl

theorem of_field_field (wide : Wide) : ofField wide.lead wide.field = wide := by
  cases wide <;> rfl

theorem field_of_field (base : Base) (field : Fin 4) : (ofField base field).field = field := by
  revert field
  cases base with
  | hl => decide
  | index register => cases register <;> decide

/-- Only the field of `hl` brings a prefix byte with it. -/
theorem markers_of_field {base : Base} {field : Fin 4}
    (leads : ∀ index, base = .index index → field = 2) :
    (ofField base field).markers = base.markers := by
  cases base with
  | hl => clear leads; revert field; decide
  | index index => rw [leads index rfl]; rfl

end Wide

namespace StackWide

def lead : StackWide → Base
  | base register => register
  | _ => .hl

theorem markers_lead (wide : StackWide) : wide.lead.markers = wide.markers := by
  cases wide <;> rfl

theorem of_field_field (wide : StackWide) : ofField wide.lead wide.field = wide := by
  cases wide <;> rfl

end StackWide

namespace Addend

@[simp] theorem of_field_field (addend : Addend) : ofField addend.field = addend := by
  cases addend <;> rfl

@[simp] theorem field_of_field (field : Fin 4) : (ofField field).field = field := by
  revert field
  decide

end Addend

namespace Base

/-- Whether an opcode of the unprefixed table, read for this base, stands behind the base's prefix
byte: without one it must not open another table, with one it has to take it. -/
def leads (base : Base) (opcode : UInt8) : Bool :=
  match base with
  | hl => (Index.ofMarker? opcode).isNone && opcode != bitMarker && opcode != extendedMarker
  | index _ => takesMarker opcode

end Base

namespace Decoded

/-- Behind the prefix byte of its base, an opcode is looked up in the unprefixed table. -/
theorem read_leading {base : Base} {opcode : UInt8} (leads : base.leads opcode = true)
    (rest : List UInt8) :
    read (base.markers ++ opcode :: rest) =
      (Form.ofOpcode base opcode).bind fun form => ofForm form rest := by
  cases base with
  | hl =>
    simp only [Base.leads, Bool.and_eq_true, Option.isNone_iff_eq_none, bne_iff_ne] at leads
    obtain ⟨⟨noMarker, noBit⟩, noExtended⟩ := leads
    simp [Base.markers, read, noMarker, noBit, noExtended]
  | index register =>
    have taken : takesMarker opcode = true := leads
    have noBit : opcode ≠ bitMarker := by
      rintro rfl
      exact absurd taken (by decide)
    have marked : Index.ofMarker? register.marker = some register := by
      cases register <;> decide
    simp [Base.markers, read, indexed, marked, noBit, taken]

/-- One instruction is read once its form is known and the operand bytes fill it. -/
theorem read_of_form (base : Base) (opcode : UInt8) {form : Form} {instruction : Instruction}
    {input rest : List UInt8} (leads : base.leads opcode = true)
    (found : Form.ofOpcode base opcode = some form)
    (filled : form.fill input = some (instruction, rest)) :
    read (base.markers ++ opcode :: input) = some (.instruction instruction, rest) := by
  rw [read_leading leads, found]
  simp [ofForm, filled]

end Decoded

/-! ### Places -/

theorem Reg8.slot_of_slot?_none {slot : Fin 8} (free : ofSlot? slot = none) :
    slot = memorySlot := by
  revert slot
  decide

namespace Place

@[simp] theorem of_register_hl (register : Reg8) : ofRegister .hl register = cell (.reg register) := by
  cases register <;> rfl

theorem of_register_index {register : Reg8} (plain : register.isHalfOfHl = false) (index : Index) :
    ofRegister (.index index) register = cell (.reg register) := by
  cases register <;> first | rfl | simp [Reg8.isHalfOfHl] at plain

@[simp] theorem of_register_half (index : Index) (part : Half) :
    ofRegister (.index index) part.register = half index part := by
  cases part <;> rfl

theorem slot_takes_marker_of_base {place : Place} {index : Index} (based : place.base = .index index) :
    slotTakesMarker place.slot = true := by
  rcases place with (register | address) | ⟨register, part⟩
  · cases based
  · rfl
  · cases part <;> rfl

/-- A block of opcodes on one place stands behind the prefix byte of the place. -/
theorem leads (place : Place) {opcode : Fin 8 → UInt8}
    (plain : ∀ slot, Base.hl.leads (opcode slot) = true)
    (marked : ∀ slot, slotTakesMarker slot = true → takesMarker (opcode slot) = true) :
    place.base.leads (opcode place.slot) = true := by
  cases based : place.base with
  | hl => exact plain place.slot
  | index index => exact marked place.slot (slot_takes_marker_of_base based)

end Place

namespace Form

/-- The distance of a place completes the form of its slot. -/
theorem on_place_fill (place : Place) (build : Place → Instruction) (rest : List UInt8) :
    (onPlace place.base place.slot build).fill (place.distances ++ rest) =
      some (build place, rest) := by
  rcases place with (register | (_ | ⟨index, distance⟩)) | ⟨index, part⟩
  · simp [onPlace, Place.base, Place.slot, Place.distances, Cell.base, Cell.slot, Cell.distances,
      Reg8.of_slot?_slot, fill]
  · rfl
  · rfl
  · simp [onPlace, Place.base, Place.slot, Place.distances, Reg8.of_slot?_slot, fill]

theorem of_opcode_increment (base : Base) (slot : Fin 8) :
    ofOpcode base (Opcode.increment slot) = some (onPlace base slot .increment) := by
  rw [increment_eq_to_byte]
  simp [ofOpcode, ofFields, ofLowBlock]

theorem of_opcode_decrement (base : Base) (slot : Fin 8) :
    ofOpcode base (Opcode.decrement slot) = some (onPlace base slot .decrement) := by
  rw [decrement_eq_to_byte]
  simp [ofOpcode, ofFields, ofLowBlock]

theorem of_opcode_arith (base : Base) (operation : Arith) (slot : Fin 8) :
    ofOpcode base (Opcode.arith operation slot) = some (onPlace base slot (.arith operation)) := by
  rw [arith_eq_to_byte]
  simp [ofOpcode, ofFields, Arith.of_code_code]

theorem of_opcode_load (base : Base) (target source : Fin 8) :
    ofOpcode base (Opcode.load target source) = some (ofLoad base target source) := by
  rw [load_eq_to_byte]
  simp [ofOpcode, ofFields]

theorem of_opcode_load_byte_fill (target : Place) (value : UInt8) (rest : List UInt8) :
    ∃ form, ofOpcode target.base (Opcode.loadByte target.slot) = some form ∧
      form.fill (target.distances ++ value :: rest) = some (.loadByte target value, rest) := by
  rw [load_byte_eq_to_byte]
  rcases target with (register | (_ | ⟨index, distance⟩)) | ⟨index, part⟩
  · refine ⟨byte (.loadByte (.cell (.reg register))), ?_, rfl⟩
    simp [ofOpcode, ofFields, ofLowBlock, Place.base, Cell.base, Place.slot, Cell.slot,
      Reg8.of_slot?_slot]
  · exact ⟨byte (.loadByte (.cell (.memory .hl))), rfl, rfl⟩
  · refine ⟨distanceAndByte fun distance value =>
      .loadByte (.cell (.memory (.indexed index distance))) value, ?_, rfl⟩
    simp [ofOpcode, ofFields, ofLowBlock, Place.base, Cell.base, Memory.base, Place.slot, Cell.slot,
      show Reg8.ofSlot? memorySlot = none from rfl]
  · refine ⟨byte (.loadByte (.half index part)), ?_, rfl⟩
    simp [ofOpcode, ofFields, ofLowBlock, Place.base, Place.slot, Reg8.of_slot?_slot]

/-- Compatible places complete the form of their two slots. -/
theorem of_load_fill {target source : Place} (compatible : target.compatible source = true)
    (rest : List UInt8) :
    (ofLoad (target.sharedBase source) target.slot source.slot).fill
      (target.distances ++ source.distances ++ rest) = some (.load target source, rest) := by
  rcases target with (into | (_ | ⟨index, distance⟩)) | ⟨index, part⟩ <;>
    rcases source with (out | (_ | ⟨other, distance'⟩)) | ⟨other, part'⟩ <;>
    simp [Place.compatible] at compatible <;>
    simp [ofLoad, onMemory, fill, Place.sharedBase, Place.base, Cell.base, Memory.base, Place.slot,
      Cell.slot, Reg8.of_slot?_slot, Place.distances, Cell.distances, Memory.distances,
      Place.of_register_index, compatible, show Reg8.ofSlot? memorySlot = none from rfl]

@[simp] theorem fill_word (build : UInt16 → Instruction) (word : UInt16) (rest : List UInt8) :
    (Form.word build).fill (wordBytes word ++ rest) = some (build word, rest) := by
  simp [fill, wordBytes]

end Form

namespace Place

/-- The opcode of a load stands behind the prefix byte of either place. -/
theorem shared_base_leads {target source : Place} (compatible : target.compatible source = true) :
    (target.sharedBase source).leads (Opcode.load target.slot source.slot) = true := by
  have plain : ∀ target source, Base.hl.leads (Opcode.load target source) = true := by decide
  have marked : ∀ target source : Fin 8, (target ≠ 6 ∨ source ≠ 6) →
      (slotTakesMarker target = true ∨ slotTakesMarker source = true) →
      takesMarker (Opcode.load target source) = true := by decide
  have register : ∀ register : Reg8, register.slot ≠ 6 := by
    intro register
    cases register <;> decide
  have apart : target.slot ≠ 6 ∨ source.slot ≠ 6 := by
    rcases target with (into | address) | ⟨index, part⟩
    · exact .inl (register into)
    · rcases source with (out | other) | ⟨index, part⟩
      · exact .inr (register out)
      · simp [Place.compatible] at compatible
      · exact .inr (register part.register)
    · exact .inl (register part.register)
  cases based : target.base with
  | hl =>
    cases other : source.base with
    | hl => simpa [sharedBase, based, other] using plain target.slot source.slot
    | index index =>
      simpa [sharedBase, based, other, Base.leads] using
        marked target.slot source.slot apart (.inr (slot_takes_marker_of_base other))
  | index index =>
    simpa [sharedBase, based, Base.leads] using
      marked target.slot source.slot apart (.inl (slot_takes_marker_of_base based))

end Place

/-! ### Reading an encoded instruction -/

namespace Decoded

/-- An instruction on one place, followed by operand bytes that complete its form. -/
theorem read_placed (place : Place) {opcode : Fin 8 → UInt8} {build : Place → Instruction}
    (plain : ∀ slot, Base.hl.leads (opcode slot) = true)
    (marked : ∀ slot, slotTakesMarker slot = true → takesMarker (opcode slot) = true)
    (found : ∀ base slot, Form.ofOpcode base (opcode slot) = some (.onPlace base slot build))
    (rest : List UInt8) :
    read (Instruction.placed place (opcode place.slot) ++ rest) =
      some (.instruction (build place), rest) := by
  simp only [Instruction.placed, List.append_assoc, List.cons_append]
  exact read_of_form _ _ (place.leads plain marked) (found place.base place.slot)
    (Form.on_place_fill place build rest)

/-- An instruction of the extended table. -/
theorem read_extended {opcode : UInt8} {form : Form} {instruction : Instruction}
    {input rest : List UInt8} (found : Form.ofExtendedOpcode opcode = some form)
    (filled : form.fill input = some (instruction, rest)) :
    read (extendedMarker :: opcode :: input) = some (.instruction instruction, rest) := by
  have table : read (extendedMarker :: opcode :: input) = extended (opcode :: input) := rfl
  rw [table]
  simp [extended, found, ofForm, filled]

theorem read_bit_placed {opcode : Fin 8 → UInt8} {build : Cell → Instruction} (cell : Cell)
    (low : ∀ slot, (Fields.ofByte (opcode slot)).low = slot)
    (built : ∀ slot cell, Instruction.ofBitFields (.ofByte (opcode slot)) cell = build cell)
    (rest : List UInt8) :
    read (Instruction.bitPlaced cell (opcode cell.slot) ++ rest) =
      some (.instruction (build cell), rest) := by
  rcases cell with register | (_ | ⟨index, distance⟩)
  · have table (input : List UInt8) : read (bitMarker :: input) = bit input := rfl
    simp [Instruction.bitPlaced, Cell.base, Base.markers, Cell.distances, Cell.slot, table, bit, low,
      built, Cell.ofSlot, Reg8.of_slot?_slot]
  · have table (input : List UInt8) : read (bitMarker :: input) = bit input := rfl
    simp [Instruction.bitPlaced, Cell.base, Base.markers, Cell.distances, Memory.distances,
      Memory.base, Cell.slot, table, bit, low, built, Cell.ofSlot,
      show Reg8.ofSlot? memorySlot = none from rfl]
  · have marked : Index.ofMarker? index.marker = some index := by
      cases index <;> decide
    simp [Instruction.bitPlaced, Cell.base, Base.markers, Cell.distances, Memory.distances,
      Memory.base, Cell.slot, read, marked, indexed, indexedBit, low, built]

end Decoded

namespace Wide

/-- A block of opcodes on one pair stands behind the prefix byte of the pair. -/
theorem leads (wide : Wide) {opcode : Fin 4 → UInt8}
    (plain : ∀ field, Base.hl.leads (opcode field) = true)
    (marked : takesMarker (opcode 2) = true) : wide.lead.leads (opcode wide.field) = true := by
  cases wide with
  | base register =>
    cases register with
    | hl => exact plain 2
    | index index => exact marked
  | bc => exact plain 0
  | de => exact plain 1
  | sp => exact plain 3

end Wide

namespace StackWide

/-- A block of opcodes on one pair stands behind the prefix byte of the pair. -/
theorem leads (wide : StackWide) {opcode : Fin 4 → UInt8}
    (plain : ∀ field, Base.hl.leads (opcode field) = true)
    (marked : takesMarker (opcode 2) = true) : wide.lead.leads (opcode wide.field) = true := by
  cases wide with
  | base register =>
    cases register with
    | hl => exact plain 2
    | index index => exact marked
  | bc => exact plain 0
  | de => exact plain 1
  | af => exact plain 3

end StackWide

namespace Base

theorem leads_of {opcode : UInt8} (plain : hl.leads opcode = true)
    (marked : takesMarker opcode = true) (base : Base) : base.leads opcode = true := by
  cases base with
  | hl => exact plain
  | index index => exact marked

end Base

namespace Form

theorem of_opcode_load_word (base : Base) (field : Fin 4) :
    ofOpcode base (Opcode.loadWord field) = some (word (.loadWord (.ofField base field))) := by
  rw [load_word_eq_to_byte]
  simp [ofOpcode, ofFields, ofLowBlock]

theorem of_opcode_increment_word (base : Base) (field : Fin 4) :
    ofOpcode base (Opcode.incrementWord field) =
      some (complete (.incrementWord (.ofField base field))) := by
  rw [increment_word_eq_to_byte]
  simp [ofOpcode, ofFields, ofLowBlock]

theorem of_opcode_decrement_word (base : Base) (field : Fin 4) :
    ofOpcode base (Opcode.decrementWord field) =
      some (complete (.decrementWord (.ofField base field))) := by
  rw [decrement_word_eq_to_byte]
  simp [ofOpcode, ofFields, ofLowBlock]

theorem of_opcode_add_word (base : Base) (addend : Addend) :
    ofOpcode base (Opcode.addWord addend.field) = some (complete (.addWord base addend)) := by
  rw [add_word_eq_to_byte]
  simp [ofOpcode, ofFields, ofLowBlock]

theorem of_opcode_push (base : Base) :
    ∀ field, ofOpcode base (Opcode.push field) = some (complete (.push (.ofField base field)))
  | 0 => rfl
  | 1 => rfl
  | 2 => rfl
  | 3 => rfl

theorem of_opcode_pop (base : Base) :
    ∀ field, ofOpcode base (Opcode.pop field) = some (complete (.pop (.ofField base field)))
  | 0 => rfl
  | 1 => rfl
  | 2 => rfl
  | 3 => rfl

theorem of_opcode_restart (base : Base) (vector : Fin 8) :
    ofOpcode base (Opcode.restart vector) = some (complete (.restart vector)) := by
  rw [restart_eq_to_byte]
  simp [ofOpcode, ofFields, ofHighBlock]

end Form

namespace Decoded

/-- An instruction on `hl` or an index register, without operand bytes. -/
theorem read_based {opcode : UInt8} (build : Base → Instruction)
    (plain : Base.hl.leads opcode = true) (marked : takesMarker opcode = true)
    (found : ∀ base, Form.ofOpcode base opcode = some (.complete (build base))) (register : Base)
    (rest : List UInt8) :
    read (register.markers ++ [opcode] ++ rest) = some (.instruction (build register), rest) := by
  simp only [List.append_assoc, List.cons_append, List.nil_append]
  exact read_of_form _ _ (Base.leads_of plain marked register) (found register) rfl

/-- An instruction on one pair, without operand bytes. -/
theorem read_wide {opcode : Fin 4 → UInt8} {build : Wide → Instruction}
    (plain : ∀ field, Base.hl.leads (opcode field) = true) (marked : takesMarker (opcode 2) = true)
    (found : ∀ base field,
      Form.ofOpcode base (opcode field) = some (.complete (build (.ofField base field))))
    (wide : Wide) (rest : List UInt8) :
    read (wide.markers ++ [opcode wide.field] ++ rest) =
      some (.instruction (build wide), rest) := by
  simp only [← wide.markers_lead, List.append_assoc, List.cons_append, List.nil_append]
  refine read_of_form _ _ (wide.leads plain marked) (found ..) ?_
  simp [Form.fill, wide.of_field_field]

/-- The same with a pair that the stack takes. -/
theorem read_stacked {opcode : Fin 4 → UInt8} {build : StackWide → Instruction}
    (plain : ∀ field, Base.hl.leads (opcode field) = true) (marked : takesMarker (opcode 2) = true)
    (found : ∀ base field,
      Form.ofOpcode base (opcode field) = some (.complete (build (.ofField base field))))
    (wide : StackWide) (rest : List UInt8) :
    read (wide.markers ++ [opcode wide.field] ++ rest) =
      some (.instruction (build wide), rest) := by
  simp only [← wide.markers_lead, List.append_assoc, List.cons_append, List.nil_append]
  refine read_of_form _ _ (wide.leads plain marked) (found ..) ?_
  simp [Form.fill, wide.of_field_field]

/-- An opcode with an address behind it. -/
theorem read_addressed {opcode : UInt8} (build : UInt16 → Instruction)
    (plain : Base.hl.leads opcode = true)
    (found : Form.ofOpcode .hl opcode = some (.word build)) (address : UInt16) (rest : List UInt8) :
    read (opcode :: wordBytes address ++ rest) = some (.instruction (build address), rest) :=
  read_of_form .hl opcode plain found (Form.fill_word ..)

end Decoded

namespace Instruction

/-- The encoded instruction is read back, and what follows it is left over. -/
def ReadBack (instruction : Instruction) : Prop :=
  ∀ rest, Decoded.read (instruction.encode ++ rest) = some (.instruction instruction, rest)

/-! ### Loads -/

theorem read_back_load {target source : Place} (compatible : target.compatible source = true) :
    (load target source).ReadBack := by
  intro rest
  simp only [encode, List.append_assoc, List.cons_append]
  exact Decoded.read_of_form _ _ (Place.shared_base_leads compatible) (Form.of_opcode_load ..)
    (by simpa using Form.of_load_fill compatible rest)

theorem read_back_load_byte (target : Place) (value : UInt8) :
    (loadByte target value).ReadBack := by
  intro rest
  obtain ⟨form, found, filled⟩ := Form.of_opcode_load_byte_fill target value rest
  simp only [encode, placed, List.append_assoc, List.cons_append, List.nil_append]
  exact Decoded.read_of_form _ _ (target.leads (by decide) (by decide)) found filled

theorem read_back_load_accumulator (source : Pointer) : (loadAccumulator source).ReadBack := by
  intro rest
  cases source with
  | bc => rfl
  | de => rfl
  | address address =>
    exact Decoded.read_addressed (loadAccumulator <| .address ·) rfl rfl address rest

theorem read_back_store_accumulator (target : Pointer) : (storeAccumulator target).ReadBack := by
  intro rest
  cases target with
  | bc => rfl
  | de => rfl
  | address address =>
    exact Decoded.read_addressed (storeAccumulator <| .address ·) rfl rfl address rest

theorem read_back_load_word (target : Wide) (value : UInt16) :
    (loadWord target value).ReadBack := by
  intro rest
  simp only [encode, ← target.markers_lead, List.append_assoc, List.cons_append]
  refine Decoded.read_of_form _ _ (target.leads (by decide) (by decide))
    (Form.of_opcode_load_word ..) ?_
  simp [target.of_field_field]

/-! ### Arithmetic and bits -/

theorem read_back_arith (operation : Arith) (source : Place) : (arith operation source).ReadBack :=
  Decoded.read_placed source (by cases operation <;> decide) (by cases operation <;> decide)
    (Form.of_opcode_arith · operation ·)

theorem read_back_add_word (target : Base) (source : Addend) : (addWord target source).ReadBack :=
  Decoded.read_based (addWord · source) (by cases source <;> rfl) (by cases source <;> rfl)
    (Form.of_opcode_add_word · source) target

theorem read_back_shift (operation : Shift) (target : Cell) :
    (shift operation target).ReadBack := by
  refine Decoded.read_bit_placed target ?_ ?_
  · intro slot
    simp [shift_eq_to_byte]
  · intro slot cell
    simp [shift_eq_to_byte, ofBitFields, Shift.of_code_code]

theorem read_back_bit (operation : BitOp) (number : Fin 8) (target : Cell) :
    (bit operation number target).ReadBack := by
  refine Decoded.read_bit_placed target ?_ ?_
  · intro slot
    simp [bit_eq_to_byte]
  · intro slot cell
    rw [bit_eq_to_byte, of_byte_to_byte]
    cases operation <;> rfl

/-! ### Jumps -/

theorem read_back_jump_if (cond : Cond) (address : UInt16) : (jumpIf cond address).ReadBack := by
  intro rest
  cases cond <;> exact Decoded.read_addressed (jumpIf _) rfl rfl address rest

theorem read_back_call_if (cond : Cond) (address : UInt16) : (callIf cond address).ReadBack := by
  intro rest
  cases cond <;> exact Decoded.read_addressed (callIf _) rfl rfl address rest

theorem read_back_restart (vector : Fin 8) : (restart vector).ReadBack := by
  have leads : ∀ vector, Base.hl.leads (Opcode.restart vector) = true := by decide
  intro rest
  exact Decoded.read_of_form .hl _ (leads vector) (Form.of_opcode_restart .hl vector) rfl

/-- An encoded instruction is read back, and what follows it is left over. -/
theorem read_encode {instruction : Instruction} (wellFormed : instruction.WellFormed)
    (rest : List UInt8) :
    Decoded.read (instruction.encode ++ rest) = some (.instruction instruction, rest) := by
  cases instruction with
  | load target source => exact read_back_load wellFormed rest
  | loadByte target value => exact read_back_load_byte target value rest
  | loadAccumulator source => exact read_back_load_accumulator source rest
  | storeAccumulator target => exact read_back_store_accumulator target rest
  | loadWord target value => exact read_back_load_word target value rest
  | loadWordAt wide address | storeWordAt address wide =>
    cases wide with
    | base register =>
      simp only [encode, List.append_assoc, List.cons_append]
      exact Decoded.read_of_form _ _ (Base.leads_of rfl rfl register) rfl (Form.fill_word ..)
    | bc | de | sp => exact Decoded.read_extended rfl (Form.fill_word ..)
  | loadStackPointer source =>
    exact Decoded.read_based loadStackPointer rfl rfl (fun _ => rfl) source rest
  | exchangeStack register =>
    exact Decoded.read_based exchangeStack rfl rfl (fun _ => rfl) register rest
  | jumpTo register => exact Decoded.read_based jumpTo rfl rfl (fun _ => rfl) register rest
  | push source => exact Decoded.read_stacked (by decide) (by decide) Form.of_opcode_push source rest
  | pop target => exact Decoded.read_stacked (by decide) (by decide) Form.of_opcode_pop target rest
  | arith operation source => exact read_back_arith operation source rest
  | addWord target source => exact read_back_add_word target source rest
  | increment target =>
    exact Decoded.read_placed target (by decide) (by decide) Form.of_opcode_increment rest
  | decrement target =>
    exact Decoded.read_placed target (by decide) (by decide) Form.of_opcode_decrement rest
  | incrementWord target =>
    exact Decoded.read_wide (by decide) (by decide) Form.of_opcode_increment_word target rest
  | decrementWord target =>
    exact Decoded.read_wide (by decide) (by decide) Form.of_opcode_decrement_word target rest
  | shift operation target => exact read_back_shift operation target rest
  | bit operation number target => exact read_back_bit operation number target rest
  | jump address => exact Decoded.read_addressed jump rfl rfl address rest
  | call address => exact Decoded.read_addressed call rfl rfl address rest
  | jumpIf cond address => exact read_back_jump_if cond address rest
  | callIf cond address => exact read_back_call_if cond address rest
  | restart vector => exact read_back_restart vector rest
  | input register | output register =>
    cases register with
    | none => rfl
    | some register => cases register <;> rfl
  -- the bytes of the others follow from one choice at most
  | implied choice | readControl choice | writeControl choice | addWithCarry choice
  | subtractWithCarry choice | retIf choice | interruptMode choice => cases choice <;> rfl
  | arithByte choice _ | jumpRelativeIf choice _ => cases choice <;> rfl
  | exchangeAf | exchangeDeHl | ret => rfl
  | jumpRelative _ | countDown _ | inputPort _ | outputPort _ => rfl

end Instruction

end Z80Toolchain
