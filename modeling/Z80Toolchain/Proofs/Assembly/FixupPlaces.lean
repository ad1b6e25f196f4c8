import Z80Toolchain.Proofs.Assembly.Encodings
import Z80Toolchain.Proofs.Machine.ReadLocality

/-!
Where the fixups of an accepted statement lie. Their places follow one another inside the bytes of
the statement and hold zeros. A distance is awaited only in the second byte of a relative jump. An
instruction has one to four bytes and waits for one label at most; the data of `db` and `dw` may be
of any length.
-/
namespace Z80Toolchain

/-! ### Which instructions wait for a distance -/

namespace Selection

/-- A selection waits for a distance only in an instruction of two bytes. -/
def IsShort (selection : Selection) : Prop :=
  ∀ target, selection.target = some (.relative, target) → selection.instruction.encode.length = 2

def SelectsShort (result : Except Diagnostic Selection) : Prop :=
  ∀ selection, result = .ok selection → selection.IsShort

theorem is_short_plain (instruction : Instruction) : (plain instruction).IsShort := by
  rintro target ⟨⟩

theorem selects_short_ok (instruction : Instruction) :
    SelectsShort (.ok (plain instruction)) := by
  rintro selection ⟨⟩
  exact is_short_plain instruction

theorem selects_short_pure (instruction : Instruction) :
    SelectsShort (pure (plain instruction)) :=
  selects_short_ok instruction

theorem selects_short_invalid (mnemonic : Mnemonic) (argument : Argument) :
    SelectsShort (invalid mnemonic argument) := by
  rintro selection ⟨⟩

theorem selects_short_bind {α : Type} {result : Except Diagnostic α}
    {next : α → Except Diagnostic Selection} (each : ∀ value, SelectsShort (next value)) :
    SelectsShort (result >>= next) := by
  intro selection chosen
  cases result with
  | error diagnostic => cases chosen
  | ok value => exact each value selection chosen

theorem selects_short_map {α : Type} (build : α → Instruction) (result : Except Diagnostic α) :
    SelectsShort ((fun value => plain (build value)) <$> result) := by
  cases result with
  | error diagnostic => rintro selection ⟨⟩
  | ok value => exact selects_short_ok (build value)

theorem selects_short_with_word (argument : Argument) (expression : Expression)
    (build : UInt16 → Instruction) : SelectsShort (withWord argument expression build) := by
  cases expression with
  | value number => exact selects_short_bind fun value => selects_short_ok (build value)
  | symbol name addend =>
    rintro selection ⟨⟩ target ⟨⟩

theorem selects_short_with_distance (mnemonic : Mnemonic) (argument : Argument)
    {build : UInt8 → Instruction} (two : ∀ distance, (build distance).encode.length = 2) :
    SelectsShort (withDistance mnemonic argument build) := by
  unfold withDistance
  split
  · split
    · exact selects_short_ok _
    · rintro selection ⟨⟩
  · rintro selection ⟨⟩ target -
    exact two 0
  · exact selects_short_invalid mnemonic argument

attribute [local simp] selects_short_ok selects_short_pure selects_short_invalid selects_short_bind
  selects_short_map selects_short_with_word

theorem load_short (target source : Argument) : SelectsShort (load target source) := by
  unfold load
  split
  case h_18 =>
    refine selects_short_bind fun into => selects_short_bind fun out => ?_
    split <;> simp
  all_goals simp

theorem exchange_short (first second : Argument) : SelectsShort (exchange first second) := by
  unfold exchange
  split <;> simp

theorem stacked_short (mnemonic : Mnemonic) (argument : Argument)
    (build : StackWide → Instruction) : SelectsShort (stacked mnemonic argument build) := by
  unfold stacked
  split <;> simp

theorem arith8_short (operation : Arith) (source : Argument) :
    SelectsShort (arith8 operation source) := by
  unfold arith8
  split <;> simp

theorem arith_short (operation : Arith) (first second : Argument) :
    SelectsShort (arith operation first second) := by
  unfold arith
  split <;> simp [arith8_short]

theorem counted_short (mnemonic : Mnemonic) (argument : Argument) (onWide : Wide → Instruction)
    (onPlace : Place → Instruction) : SelectsShort (counted mnemonic argument onWide onPlace) := by
  unfold counted
  split <;> simp

theorem shift_short (operation : Shift) (argument : Argument) :
    SelectsShort (shift operation argument) := by
  simp [shift]

theorem bit_short (operation : BitOp) (index argument : Argument) :
    SelectsShort (bit operation index argument) := by
  refine selects_short_bind fun number => ?_
  split <;> simp

theorem jump_short (argument : Argument) : SelectsShort (jump argument) := by
  unfold jump
  split <;> simp

theorem call_short (argument : Argument) : SelectsShort (call argument) := by
  unfold call
  split <;> simp

theorem conditional_short (mnemonic : Mnemonic) (first second : Argument)
    (build : Cond → UInt16 → Instruction) :
    SelectsShort (conditional mnemonic first second build) := by
  refine selects_short_bind fun cond => ?_
  split <;> simp

theorem relative_conditional_short (first second : Argument) :
    SelectsShort (relativeConditional first second) := by
  unfold relativeConditional
  split
  · exact selects_short_with_distance .jr second fun distance => rfl
  · exact selects_short_invalid .jr first

theorem return_if_short (argument : Argument) : SelectsShort (returnIf argument) := by
  simp [returnIf]

theorem restart_short (argument : Argument) : SelectsShort (restart argument) := by
  refine selects_short_bind fun number => ?_
  split <;> simp

theorem interrupt_mode_short (argument : Argument) : SelectsShort (interruptMode argument) := by
  refine selects_short_bind fun number => ?_
  split <;> simp

theorem input_alone_short (argument : Argument) : SelectsShort (inputAlone argument) := by
  unfold inputAlone
  split <;> simp

theorem input_short (first second : Argument) : SelectsShort (input first second) := by
  unfold input
  split <;> simp

theorem output_short (first second : Argument) : SelectsShort (output first second) := by
  unfold output
  split <;> simp

/-- Of all mnemonics only the relative jumps wait for a distance, and these take two bytes. -/
theorem choose?_is_short {mnemonic : Mnemonic} {arguments : List Argument} {selection : Selection}
    (chosen : choose? mnemonic arguments = some selection) : selection.IsShort := by
  unfold choose? at chosen
  split at chosen
  case h_1 | h_19 =>
    cases chosen
    exact is_short_plain _
  case h_26 => cases chosen
  all_goals rw [to_option_eq_some] at chosen
  case h_2 target source => exact load_short target source selection chosen
  case h_3 first second => exact exchange_short first second selection chosen
  case h_4 | h_5 => exact stacked_short _ _ _ selection chosen
  case h_6 operation source => exact arith8_short operation source selection chosen
  case h_7 operation first second => exact arith_short operation first second selection chosen
  case h_8 | h_9 => exact counted_short _ _ _ _ selection chosen
  case h_10 operation argument => exact shift_short operation argument selection chosen
  case h_11 operation index argument => exact bit_short operation index argument selection chosen
  case h_12 argument => exact jump_short argument selection chosen
  case h_13 | h_18 => exact conditional_short _ _ _ _ selection chosen
  case h_14 | h_16 => exact selects_short_with_distance _ _ (fun distance => rfl) selection chosen
  case h_15 first second => exact relative_conditional_short first second selection chosen
  case h_17 argument => exact call_short argument selection chosen
  case h_20 argument => exact return_if_short argument selection chosen
  case h_21 argument => exact restart_short argument selection chosen
  case h_22 argument => exact interrupt_mode_short argument selection chosen
  case h_23 argument => exact input_alone_short argument selection chosen
  case h_24 first second => exact input_short first second selection chosen
  case h_25 first second => exact output_short first second selection chosen

theorem length_references_le (selection : Selection) :
    selection.encoding.references.length ≤ 1 := by
  cases target : selection.target <;> simp [encoding, target]

/-- The place of an awaited distance is the second of two bytes. -/
theorem IsShort.reference {selection : Selection} (short : selection.IsShort)
    {reference : Reference} (member : reference ∈ selection.encoding.references)
    (narrow : reference.width = .relative) :
    reference.offset = 1 ∧ selection.encoding.bytes.length = 2 := by
  obtain ⟨⟨width, target⟩, waits, rfl⟩ := List.mem_map.mp member
  obtain rfl : width = .relative := narrow
  have two := short target (Option.mem_toList.mp waits)
  refine ⟨?_, two⟩
  change selection.instruction.encode.length - 1 = 1
  rw [two]

end Selection

/-! ### Places and their sizes -/

theorem Reserves.zero {bytes : List UInt8} {references : List Reference}
    (reserved : Reserves Reference.zeros bytes references) {reference : Reference}
    (member : reference ∈ references) {index : Nat} (covers : reference.Covers index) :
    bytes[index]? = some 0 := by
  obtain ⟨place, rfl⟩ := Nat.exists_eq_add_of_le covers.1
  have bound : place < reference.width.size := Nat.lt_of_add_lt_add_left covers.2
  have held := reserved.held reference member place (by rwa [Reference.zeros, List.length_replicate])
  rw [held, Reference.zeros, List.getElem?_replicate_of_lt bound]

theorem Instruction.length_encode {instruction : Instruction}
    (wellFormed : instruction.WellFormed) :
    1 ≤ instruction.encode.length ∧ instruction.encode.length ≤ 4 := by
  have found := read_encode wellFormed []
  exact ⟨Decoded.length_bytes_pos found, Decoded.length_bytes_le found⟩

/-! ### Accepted statements -/

/-- The labels that a statement waits for can be written into its bytes, each without touching
another. -/
structure Statement.Patchable (statement : Statement) : Prop where
  inside : ∀ reference ∈ statement.encoding.references,
    reference.offset + reference.width.size ≤ statement.encoding.bytes.length
  -- in the order of the references, and hence no two of them overlap
  apart : statement.encoding.references.Pairwise fun left right =>
    left.offset + left.width.size ≤ right.offset
  zero : ∀ reference ∈ statement.encoding.references, ∀ index, reference.Covers index →
    statement.encoding.bytes[index]? = some 0
  short : ∀ reference ∈ statement.encoding.references, reference.width = .relative →
    (∃ selection, statement = .instruction selection) ∧ reference.offset = 1 ∧
      statement.encoding.bytes.length = 2

theorem Encoding.absolute_of_words {items : List (UInt16 × Option Target)} {offset : Nat}
    {reference : Reference} (member : reference ∈ (ofWords offset items).references) :
    reference.width = .absolute := by
  induction items generalizing offset with
  | nil => cases member
  | cons item items induction =>
    rcases List.mem_append.mp member with here | later
    · obtain ⟨target, -, rfl⟩ := List.mem_map.mp here
      rfl
    · exact induction later

namespace Statement

variable {symbols : Symbols} {head : Token} {cursor after : Cursor} {statement : Statement}

theorem patchable_of_parse (read : Statement.parse symbols head cursor = (.ok statement, after)) :
    statement.Patchable := by
  have reserved := encoding_reserves read
  refine ⟨fun reference member => reserved.inside (fun _ => List.length_replicate) member,
    reserved.apart, fun reference member index covers => reserved.zero member covers, ?_⟩
  intro reference member narrow
  obtain ⟨name, -, form⟩ := form_of_parse read
  cases form with
  | @instruction _ _ selection noBytes noWords chosen =>
    exact ⟨⟨selection, rfl⟩, (Selection.choose?_is_short chosen).reference member narrow⟩
  | bytes data items => cases member
  | words data waiting =>
    rw [Encoding.absolute_of_words member] at narrow
    cases narrow

/-- What is no data is an instruction, with its few bytes and its one label at most. -/
theorem instruction_size (read : Statement.parse symbols head cursor = (.ok statement, after))
    {name : String} (kind : head.kind = .text name) (noBytes : Text.lower name ≠ "db")
    (noWords : Text.lower name ≠ "dw") :
    1 ≤ statement.encoding.bytes.length ∧ statement.encoding.bytes.length ≤ 4 ∧
      statement.encoding.references.length ≤ 1 := by
  obtain ⟨other, same, form⟩ := form_of_parse read
  obtain rfl : name = other := Token.Kind.text.inj (kind.symm.trans same)
  cases form with
  | @instruction _ _ selection _ _ chosen =>
    obtain ⟨some, few⟩ := Instruction.length_encode (Selection.choose?_renders chosen).wellFormed
    exact ⟨some, few, selection.length_references_le⟩
  | bytes data items => exact absurd data noBytes
  | words data waiting => exact absurd data noWords

end Statement

end Z80Toolchain
