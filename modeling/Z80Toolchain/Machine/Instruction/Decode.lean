import Z80Toolchain.Machine.Instruction.Encode

/-!
Reading an instruction from bytes. An opcode decides how many operand bytes follow and which
instruction they complete, so decoding is the choice of a `Form` from the opcode and the filling of
that form. Bytes that no instruction has as its encoding are kept as data: undefined extended
opcodes and the longer spellings of an instruction, a prefix byte without effect, and the forms of
the indexed bit table that also copy to a register.
-/
namespace Z80Toolchain

/-- An instruction that waits for its operand bytes. -/
inductive Form
  | complete (instruction : Instruction)
  | byte (build : UInt8 → Instruction)
  | word (build : UInt16 → Instruction)
  | distanceAndByte (build : UInt8 → UInt8 → Instruction)

namespace Form

def fill : Form → List UInt8 → Option (Instruction × List UInt8)
  | complete instruction, rest => some (instruction, rest)
  | byte build, operand :: rest => some (build operand, rest)
  | word build, low :: high :: rest => some (build (wordOfBytes low high), rest)
  | distanceAndByte build, distance :: operand :: rest => some (build distance operand, rest)
  | _, _ => none

theorem fill_length_le {form : Form} {input rest : List UInt8} {instruction : Instruction}
    (filled : form.fill input = some (instruction, rest)) : rest.length ≤ input.length := by
  unfold fill at filled
  split at filled <;> simp_all <;> omega

end Form

open Opcode

def Cell.ofSlot (slot : Fin 8) : Cell :=
  match Reg8.ofSlot? slot with
  | some register => .reg register
  | none => .memory .hl

/-- The place of a register slot behind a prefix byte, which turns `h` and `l` into halves. -/
def Place.ofRegister (base : Base) (register : Reg8) : Place :=
  match base, register with
  | .index index, .h => .half index .high
  | .index index, .l => .half index .low
  | _, register => .cell (.reg register)

/-- A form on the place of a slot; an indexed memory cell waits for its distance. -/
def Form.onPlace (base : Base) (slot : Fin 8) (build : Place → Instruction) : Form :=
  match Reg8.ofSlot? slot, base with
  | some register, _ => .complete (build (.ofRegister base register))
  | none, .hl => .complete (build (.cell (.memory .hl)))
  | none, .index index => .byte fun distance => build (.cell (.memory (.indexed index distance)))

def Form.onMemory (base : Base) (build : Memory → Instruction) : Form :=
  match base with
  | .hl => .complete (build .hl)
  | .index index => .byte fun distance => build (.indexed index distance)

def Wide.ofField (base : Base) : Fin 4 → Wide
  | 0 => .bc
  | 1 => .de
  | 2 => .base base
  | 3 => .sp

def StackWide.ofField (base : Base) : Fin 4 → StackWide
  | 0 => .bc
  | 1 => .de
  | 2 => .base base
  | 3 => .af

namespace Form

def ofLowBlock (base : Base) (opcode : UInt8) (fields : Fields) : Option Form :=
  match fields.low with
  | 0 =>
    match fields.middle with
    | 0 => some (complete (.implied .nop))
    | 1 => some (complete .exchangeAf)
    | 2 => some (byte .countDown)
    | 3 => some (byte .jumpRelative)
    | 4 => some (byte (.jumpRelativeIf .nz))
    | 5 => some (byte (.jumpRelativeIf .z))
    | 6 => some (byte (.jumpRelativeIf .nc))
    | 7 => some (byte (.jumpRelativeIf .c))
  | 1 =>
    if fields.odd then some (complete (.addWord base (.ofField fields.pair)))
    else some (word (.loadWord (.ofField base fields.pair)))
  | 2 =>
    match fields.middle with
    | 0 => some (complete (.storeAccumulator .bc))
    | 1 => some (complete (.loadAccumulator .bc))
    | 2 => some (complete (.storeAccumulator .de))
    | 3 => some (complete (.loadAccumulator .de))
    | 4 => some (word fun address => .storeWordAt address (.base base))
    | 5 => some (word (.loadWordAt (.base base)))
    | 6 => some (word fun address => .storeAccumulator (.address address))
    | 7 => some (word fun address => .loadAccumulator (.address address))
  | 3 =>
    if fields.odd then some (complete (.decrementWord (.ofField base fields.pair)))
    else some (complete (.incrementWord (.ofField base fields.pair)))
  | 4 => some (onPlace base fields.middle .increment)
  | 5 => some (onPlace base fields.middle .decrement)
  | 6 =>
    match Reg8.ofSlot? fields.middle, base with
    | some register, _ => some (byte (.loadByte (.ofRegister base register)))
    | none, .hl => some (byte (.loadByte (.cell (.memory .hl))))
    | none, .index index =>
      some (distanceAndByte fun distance value =>
        .loadByte (.cell (.memory (.indexed index distance))) value)
  | 7 => (Implied.ofBytes? [opcode]).map fun operation => complete (.implied operation)

/-- Opcodes from `0x40` to `0x7F`: the loads between places, and `halt` where both are memory. -/
def ofLoad (base : Base) (target source : Fin 8) : Form :=
  match Reg8.ofSlot? target, Reg8.ofSlot? source with
  | none, none => complete (.implied .halt)
  | some target, none => onMemory base fun memory => .load (.cell (.reg target)) (.cell (.memory memory))
  | none, some source => onMemory base fun memory => .load (.cell (.memory memory)) (.cell (.reg source))
  | some target, some source =>
    complete (.load (.ofRegister base target) (.ofRegister base source))

def ofHighBlock (base : Base) (fields : Fields) : Option Form :=
  match fields.low with
  | 0 => some (complete (.retIf (.ofCode fields.middle)))
  | 1 =>
    match fields.middle with
    | 1 => some (complete .ret)
    | 3 => some (complete (.implied .exx))
    | 5 => some (complete (.jumpTo base))
    | 7 => some (complete (.loadStackPointer base))
    | _ => some (complete (.pop (.ofField base fields.pair)))
  | 2 => some (word (.jumpIf (.ofCode fields.middle)))
  | 3 =>
    match fields.middle with
    | 0 => some (word .jump)
    | 1 => none
    | 2 => some (byte .outputPort)
    | 3 => some (byte .inputPort)
    | 4 => some (complete (.exchangeStack base))
    | 5 => some (complete .exchangeDeHl)
    | 6 => some (complete (.implied .di))
    | 7 => some (complete (.implied .ei))
  | 4 => some (word (.callIf (.ofCode fields.middle)))
  | 5 =>
    match fields.middle with
    | 1 => some (word .call)
    | 3 | 5 | 7 => none
    | _ => some (complete (.push (.ofField base fields.pair)))
  | 6 => some (byte (.arithByte (.ofCode fields.middle)))
  | 7 => some (complete (.restart fields.middle))

def ofFields (base : Base) (opcode : UInt8) (fields : Fields) : Option Form :=
  match fields.block with
  | 0 => ofLowBlock base opcode fields
  | 1 => some (ofLoad base fields.middle fields.low)
  | 2 => some (onPlace base fields.low (.arith (.ofCode fields.middle)))
  | 3 => ofHighBlock base fields

/-- The unprefixed table, in which `base` stands for `hl`. The bytes that open another table have
no form in it. -/
def ofOpcode (base : Base) (opcode : UInt8) : Option Form :=
  ofFields base opcode (.ofByte opcode)

def ofExtendedFields (fields : Fields) : Option Form :=
  match fields.block, fields.low with
  | 1, 0 => some (complete (.input (Reg8.ofSlot? fields.middle)))
  | 1, 1 => some (complete (.output (Reg8.ofSlot? fields.middle)))
  | 1, 2 =>
    if fields.odd then some (complete (.addWithCarry (.ofField fields.pair)))
    else some (complete (.subtractWithCarry (.ofField fields.pair)))
  | 1, 3 =>
    if fields.pair = 2 then none
    else if fields.odd then some (word (.loadWordAt (.ofField .hl fields.pair)))
    else some (word fun address => .storeWordAt address (.ofField .hl fields.pair))
  | 1, 6 =>
    match fields.middle with
    | 0 => some (complete (.interruptMode .zero))
    | 2 => some (complete (.interruptMode .one))
    | 3 => some (complete (.interruptMode .two))
    | _ => none
  | 1, 7 =>
    match fields.middle with
    | 0 => some (complete (.writeControl .i))
    | 1 => some (complete (.writeControl .r))
    | 2 => some (complete (.readControl .i))
    | 3 => some (complete (.readControl .r))
    | _ => none
  | _, _ => none

def ofExtendedOpcode (opcode : UInt8) : Option Form :=
  match Implied.ofBytes? [extendedMarker, opcode] with
  | some operation => some (complete (.implied operation))
  | none => ofExtendedFields (.ofByte opcode)

end Form

def Instruction.ofBitFields (fields : Fields) (cell : Cell) : Instruction :=
  match fields.block with
  | 0 => .shift (.ofCode fields.middle) cell
  | block => .bit (.ofNumber block) fields.middle cell

namespace Opcode

/-- Whether a prefix byte changes what a slot names: `h`, `l` and the memory cell. -/
def slotTakesMarker (slot : Fin 8) : Bool :=
  slot == 4 || slot == 5 || slot == 6

def fieldsTakeMarker (opcode : UInt8) (fields : Fields) : Bool :=
  match fields.block with
  | 0 =>
    match fields.low with
    | 1 => fields.pair == 2 || fields.odd
    | 2 | 3 => fields.pair == 2
    | 4 | 5 | 6 => slotTakesMarker fields.middle
    | _ => false
  | 1 => opcode != 0x76 && (slotTakesMarker fields.middle || slotTakesMarker fields.low)
  | 2 => slotTakesMarker fields.low
  | 3 => opcode == 0xE1 || opcode == 0xE3 || opcode == 0xE5 || opcode == 0xE9 || opcode == 0xF9

def takesMarker (opcode : UInt8) : Bool :=
  fieldsTakeMarker opcode (.ofByte opcode)

end Opcode

inductive Decoded
  | instruction (instruction : Instruction)
  | data (bytes : List UInt8)
deriving DecidableEq, Repr

namespace Decoded

def bytes : Decoded → List UInt8
  | instruction found => found.encode
  | data bytes => bytes

def ofForm (form : Form) (input : List UInt8) : Option (Decoded × List UInt8) :=
  (form.fill input).map fun (found, rest) => (.instruction found, rest)

def indexedBit (index : Index) : List UInt8 → Option (Decoded × List UInt8)
  | distance :: opcode :: rest =>
    if (Fields.ofByte opcode).low = memorySlot then
      some (.instruction (.ofBitFields (.ofByte opcode) (.memory (.indexed index distance))), rest)
    else some (.data [index.marker, bitMarker, distance, opcode], rest)
  | _ => none

def indexed (index : Index) : List UInt8 → Option (Decoded × List UInt8)
  | [] => some (.data [index.marker], [])
  | opcode :: rest =>
    if opcode = bitMarker then indexedBit index rest
    else if takesMarker opcode then
      (Form.ofOpcode (.index index) opcode).bind fun form => ofForm form rest
    else some (.data [index.marker], opcode :: rest)

def bit : List UInt8 → Option (Decoded × List UInt8)
  | [] => none
  | opcode :: rest =>
    some (.instruction (.ofBitFields (.ofByte opcode) (.ofSlot (Fields.ofByte opcode).low)), rest)

def extended : List UInt8 → Option (Decoded × List UInt8)
  | [] => none
  | opcode :: rest =>
    match Form.ofExtendedOpcode opcode with
    | some form => ofForm form rest
    | none => some (.data [extendedMarker, opcode], rest)

/-- Reads one instruction, or the data that stands where none is, and gives the bytes after it.
There is no result for an empty input and for an instruction that the end of the input cuts. -/
def read : List UInt8 → Option (Decoded × List UInt8)
  | [] => none
  | first :: rest =>
    match Index.ofMarker? first with
    | some index => indexed index rest
    | none =>
      if first = bitMarker then bit rest
      else if first = extendedMarker then extended rest
      else (Form.ofOpcode .hl first).bind fun form => ofForm form rest

theorem of_form_length_le {form : Form} {input rest : List UInt8} {decoded : Decoded}
    (filled : ofForm form input = some (decoded, rest)) : rest.length ≤ input.length := by
  simp only [ofForm, Option.map_eq_some_iff, Prod.mk.injEq] at filled
  obtain ⟨⟨_, after⟩, found, -, rfl⟩ := filled
  exact Form.fill_length_le found

theorem indexed_bit_length_le {index : Index} {input rest : List UInt8} {decoded : Decoded}
    (found : indexedBit index input = some (decoded, rest)) : rest.length ≤ input.length := by
  unfold indexedBit at found
  split at found
  · split at found <;> simp_all <;> omega
  · simp at found

theorem indexed_length_le {index : Index} {input rest : List UInt8} {decoded : Decoded}
    (found : indexed index input = some (decoded, rest)) : rest.length ≤ input.length := by
  unfold indexed at found
  split at found
  · simp_all
  · split at found
    · have := indexed_bit_length_le found
      simp only [List.length_cons]
      omega
    · split at found
      · obtain ⟨form, -, filled⟩ := Option.bind_eq_some_iff.mp found
        have := of_form_length_le filled
        simp only [List.length_cons]
        omega
      · simp_all

theorem extended_length_le {input rest : List UInt8} {decoded : Decoded}
    (found : extended input = some (decoded, rest)) : rest.length ≤ input.length := by
  unfold extended at found
  split at found
  · simp at found
  · split at found
    · have := of_form_length_le found
      simp only [List.length_cons]
      omega
    · simp_all

/-- Reading takes at least one byte. -/
theorem read_length_lt {input rest : List UInt8} {decoded : Decoded}
    (found : read input = some (decoded, rest)) : rest.length < input.length := by
  unfold read at found
  split at found
  · simp at found
  · rw [List.length_cons]
    apply Nat.lt_succ_of_le
    split at found
    · exact indexed_length_le found
    · split at found
      · unfold bit at found
        split at found <;> simp_all
      · split at found
        · exact extended_length_le found
        · obtain ⟨form, -, filled⟩ := Option.bind_eq_some_iff.mp found
          exact of_form_length_le filled

end Decoded

end Z80Toolchain
