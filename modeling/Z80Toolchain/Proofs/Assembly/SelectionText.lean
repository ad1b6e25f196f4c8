import Z80Toolchain.Proofs.Assembly.ArgumentReading
import Z80Toolchain.Proofs.Assembly.Canonical

/-!
Selected instructions have the canonical text of their operands. Each checked operand has one lemma
that relates its text to that of the operand it was taken from; the lemmas about the mnemonics are
put together from these. That the selected instruction is one of the processor is part of each
statement.
-/
namespace Z80Toolchain.Selection

attribute [local simp] Instruction.text Operand.text Operand.explicit

/-- The instruction ends in zeros where its label is to stand. -/
def HoldsZeros (selection : Selection) : Prop :=
  ∀ width target, selection.target = some (width, target) →
    ∃ front, selection.instruction.encode = front ++ List.replicate width.size 0

theorem holds_zeros_plain (instruction : Instruction) : (plain instruction).HoldsZeros := by
  simp [HoldsZeros, plain]

/-- An instruction of the processor with this text, whose label is still open. -/
structure Rendering (selection : Selection) (text : String) : Prop where
  wellFormed : selection.instruction.WellFormed
  text : selection.instruction.text = text
  zeros : selection.HoldsZeros

def Renders (result : Except Diagnostic Selection) (text : String) : Prop :=
  ∀ selection, result = .ok selection → Rendering selection text

theorem renders_ok {instruction : Instruction} {text : String}
    (wellFormed : instruction.WellFormed) (same : instruction.text = text) :
    Renders (.ok (plain instruction)) text := by
  intro found equal
  cases equal
  exact ⟨wellFormed, same, holds_zeros_plain instruction⟩

theorem renders_invalid (mnemonic : Mnemonic) (argument : Argument) (text : String) :
    Renders (invalid mnemonic argument) text := by
  intro found equal
  cases equal

theorem renders_bind {α : Type} {result : Except Diagnostic α}
    {next : α → Except Diagnostic Selection} {text : String}
    (each : ∀ value, result = .ok value → Renders (next value) text) :
    Renders (result >>= next) text := by
  intro selection equal
  cases found : result with
  | error diagnostic =>
    rw [found] at equal
    cases equal
  | ok value =>
    rw [found] at equal
    exact each value found selection equal

/-! ### Checked operands -/

theorem byte_text_of_byte {argument : Argument} {expression : Expression} {value : UInt8}
    (checked : byte argument expression = .ok value) :
    byteText value = NumberStyle.byte.text expression := by
  cases expression with
  | value number =>
    rw [byte] at checked
    split at checked
    · cases checked
      exact byte_text_of_int number
    · cases checked
  | symbol name addend => cases checked

theorem operand_of_number {mnemonic : Mnemonic} {argument : Argument} {number : Int}
    (checked : Selection.number mnemonic argument = .ok number) :
    argument.operand = .immediate (.value number) := by
  unfold Selection.number at checked
  split at checked
  · rename_i given operand
    cases checked
    exact operand
  · cases checked

theorem renders_with_word {argument : Argument} {expression : Expression}
    {build : UInt16 → Instruction} {text : String}
    (wellFormed : ∀ value, (build value).WellFormed)
    (ends : ∀ value, ∃ front, (build value).encode = front ++ wordBytes value)
    (written : ∀ value, wordText value = NumberStyle.word.text expression →
      (build value).text = text) :
    Renders (withWord argument expression build) text := by
  cases expression with
  | value number =>
    refine renders_bind fun value checked => ?_
    unfold word at checked
    split at checked
    · cases checked
      exact renders_ok (wellFormed _) (written _ (word_text_of_int number))
    · cases checked
  | symbol name addend =>
    intro selection equal
    cases equal
    refine ⟨wellFormed 0, written 0 (word_text_zero name addend), ?_⟩
    rintro width target ⟨⟩
    exact ends 0

theorem renders_with_distance {mnemonic : Mnemonic} {argument : Argument}
    {build : UInt8 → Instruction} {text : String}
    (wellFormed : ∀ distance, (build distance).WellFormed)
    (ends : ∀ distance, ∃ front, (build distance).encode = front ++ [distance])
    (written : ∀ distance,
      distanceText distance = argument.operand.explicit.text .decimal →
        (build distance).text = text) :
    Renders (withDistance mnemonic argument build) text := by
  unfold withDistance
  split
  · rename_i number operand
    split
    · rename_i bounds
      refine renders_ok (wellFormed _) (written _ ?_)
      rw [distanceText, signed_byte_of_int bounds.1 bounds.2, operand]
      simp [NumberStyle.text]
    · intro selection equal
      cases equal
  · rename_i name addend operand
    intro selection equal
    cases equal
    refine ⟨wellFormed 0, written 0 ?_, ?_⟩
    · rw [operand]
      exact distance_text_zero name addend
    · rintro width target ⟨⟩
      exact ends 0
  · exact renders_invalid _ _ _

theorem text_of_place {mnemonic : Mnemonic} {argument : Argument} {found : Place}
    (checked : place mnemonic argument = .ok found) (style : NumberStyle) :
    found.text = argument.operand.explicit.text style := by
  unfold place at checked
  split at checked
  · rename_i operand
    cases checked
    rw [operand]
    rfl
  · rename_i operand
    cases checked
    rw [operand]
    rfl
  · rename_i operand
    cases checked
    rw [operand]
    rfl
  · rename_i register operand
    cases checked
    rw [operand]
    exact @text_indexed register 0 (by decide) (by decide) style
  · rename_i register distance operand
    split at checked
    · rename_i bounds
      cases checked
      rw [operand]
      exact text_indexed register bounds.1 bounds.2 style
    · cases checked
  · cases checked

theorem text_of_cell {mnemonic : Mnemonic} {argument : Argument} {found : Cell}
    (checked : cell mnemonic argument = .ok found) (style : NumberStyle) :
    found.text = argument.operand.explicit.text style := by
  unfold cell at checked
  cases placed : place mnemonic argument with
  | error diagnostic =>
    rw [placed] at checked
    cases checked
  | ok position =>
    rw [placed] at checked
    cases position with
    | cell content =>
      cases checked
      exact text_of_place placed style
    | half register part => cases checked

theorem text_of_wide {mnemonic : Mnemonic} {argument : Argument} {pair : Pair} {found : Wide}
    (checked : wide mnemonic argument pair = .ok found) : found.text = pair.name := by
  cases pair <;> cases checked <;> rfl

theorem text_of_addend {mnemonic : Mnemonic} {argument : Argument} {pair : Pair} {found : Addend}
    (checked : addend mnemonic argument pair = .ok found) : found.text .hl = pair.name := by
  cases pair <;> cases checked <;> rfl

theorem text_of_index_addend {register : Index} {argument : Argument} {found : Addend}
    (checked : indexAddend register argument = .ok found) (style : NumberStyle) :
    found.text (.index register) = argument.operand.explicit.text style := by
  unfold indexAddend at checked
  split at checked
  · rename_i other operand
    split at checked
    · rename_i same
      cases checked
      rw [operand, same]
      rfl
    · cases checked
  · cases checked
  · rename_i pair other operand
    rw [operand]
    cases pair <;> cases checked <;> first | rfl | exact absurd rfl other
  · cases checked

theorem name_of_cond? {argument : Argument} {found : Cond}
    (checked : argument.cond? = some found) (style : NumberStyle) :
    found.name = argument.operand.text style := by
  unfold Argument.cond? at checked
  split at checked
  · rename_i cond operand
    cases checked
    rw [operand]
    rfl
  · rename_i operand
    cases checked
    rw [operand]
    rfl
  · cases checked

/-! ### Loads and exchanges -/

theorem number_style_ld_of_wide {first second : Operand} (wide : first.isWide || second.isWide) :
    Mnemonic.ld.numberStyle [first, second] = .word := by
  simp only [Mnemonic.numberStyle, List.any_cons, List.any_nil, Bool.or_false, wide, if_true]

theorem number_style_ld_of_narrow {first second : Operand} (narrow : first.isWide = false)
    (other : second.isWide = false) : Mnemonic.ld.numberStyle [first, second] = .byte := by
  simp only [Mnemonic.numberStyle, List.any_cons, List.any_nil, narrow, other]
  rfl

theorem canonical_text_ld (first second : Operand) :
    canonicalText .ld [first, second] =
      "ld " ++ first.explicit.text (Mnemonic.ld.numberStyle [first, second]) ++ ", " ++
        second.explicit.text (Mnemonic.ld.numberStyle [first, second]) := by
  simp [canonicalText, Mnemonic.canonicalOperands, Mnemonic.name]

theorem is_wide_of_place {mnemonic : Mnemonic} {argument : Argument} {found : Place}
    (checked : place mnemonic argument = .ok found) : argument.operand.isWide = false := by
  cases operand : argument.operand <;> simp [place, operand, invalid, Operand.isWide] at checked ⊢

theorem encode_load_word (target : Wide) (value : UInt16) :
    ∃ front, (Instruction.loadWord target value).encode = front ++ wordBytes value :=
  ⟨target.markers ++ [Opcode.loadWord target.field], by simp [Instruction.encode]⟩

theorem encode_load_word_at (target : Wide) (address : UInt16) :
    ∃ front, (Instruction.loadWordAt target address).encode = front ++ wordBytes address := by
  cases target with
  | base register => exact ⟨register.markers ++ [0x2A], by simp [Instruction.encode]⟩
  | _ => exact ⟨[_, _], rfl⟩

theorem encode_store_word_at (address : UInt16) (source : Wide) :
    ∃ front, (Instruction.storeWordAt address source).encode = front ++ wordBytes address := by
  cases source with
  | base register => exact ⟨register.markers ++ [0x22], by simp [Instruction.encode]⟩
  | _ => exact ⟨[_, _], rfl⟩

theorem load_renders (target source : Argument) :
    Renders (load target source) (canonicalText .ld [target.operand, source.operand]) := by
  rw [canonical_text_ld]
  unfold load
  split
  case h_1 into out | h_2 into out | h_4 into out | h_5 into out =>
    exact renders_ok trivial (by rw [into, out]; rfl)
  case h_3 address into out =>
    refine renders_with_word (fun _ => trivial) (fun _ => ⟨[_], rfl⟩) fun value written => ?_
    rw [into, out, number_style_ld_of_wide rfl]
    simp [Pointer.text, Reg8.name, written]
  case h_6 address into out =>
    refine renders_with_word (fun _ => trivial) (fun _ => ⟨[_], rfl⟩) fun value written => ?_
    rw [into, out, number_style_ld_of_wide rfl]
    simp [Pointer.text, Reg8.name, written, String.append_assoc]
  case h_7 register into out | h_8 register into out =>
    exact renders_ok trivial (by rw [into, out]; cases register <;> rfl)
  case h_9 into out => exact renders_ok trivial (by rw [into, out]; rfl)
  case h_10 register into out =>
    exact renders_ok trivial (by rw [into, out]; cases register <;> rfl)
  case h_11 pair value into out =>
    refine renders_bind fun checked found => ?_
    refine renders_with_word (fun _ => trivial) (encode_load_word checked) fun word written => ?_
    rw [into, out, number_style_ld_of_wide rfl]
    simp [text_of_wide found, written]
  case h_12 register value into out =>
    refine renders_with_word (fun _ => trivial) (fun _ => ⟨[_, _], rfl⟩) fun word written => ?_
    rw [into, out, number_style_ld_of_wide rfl]
    simp [Wide.text, Base.text, written]
  case h_13 pair address into out =>
    refine renders_bind fun checked found => ?_
    refine renders_with_word (fun _ => trivial) (encode_load_word_at checked) fun word written => ?_
    rw [into, out, number_style_ld_of_wide rfl]
    simp [text_of_wide found, written, ← String.toList_inj]
  case h_14 register address into out =>
    refine renders_with_word (fun _ => trivial) (fun _ => ⟨[_, _], rfl⟩) fun word written => ?_
    rw [into, out, number_style_ld_of_wide rfl]
    simp [Wide.text, Base.text, written, ← String.toList_inj]
  case h_15 address pair into out =>
    refine renders_bind fun checked found => ?_
    refine renders_with_word (fun _ => trivial) (encode_store_word_at · checked) fun word written => ?_
    rw [into, out, number_style_ld_of_wide rfl]
    simp [text_of_wide found, written, ← String.toList_inj]
  case h_16 address register into out =>
    refine renders_with_word (fun _ => trivial) (fun _ => ⟨[_, _], rfl⟩) fun word written => ?_
    rw [into, out, number_style_ld_of_wide rfl]
    simp [Wide.text, Base.text, written, ← String.toList_inj]
  case h_17 value out _ _ =>
    refine renders_bind fun into placed => renders_bind fun checked found => ?_
    refine renders_ok trivial ?_
    rw [out, number_style_ld_of_narrow (is_wide_of_place placed) rfl, ← text_of_place placed]
    simp [byte_text_of_byte found]
  case h_18 =>
    refine renders_bind fun into placed => renders_bind fun out found => ?_
    split
    · rename_i compatible
      refine renders_ok compatible ?_
      rw [← text_of_place placed, ← text_of_place found]
      rfl
    · exact renders_invalid _ _ _

theorem exchange_renders (first second : Argument) :
    Renders (exchange first second) (canonicalText .ex [first.operand, second.operand]) := by
  unfold exchange
  split
  case h_1 left right | h_2 left right | h_3 left right =>
    rw [left, right]
    exact renders_ok trivial (by decide)
  case h_4 register left right =>
    rw [left, right]
    cases register <;> exact renders_ok trivial (by decide)
  all_goals exact renders_invalid _ _ _

theorem canonical_text_one {mnemonic : Mnemonic} {operand : Operand}
    (kept : mnemonic.canonicalOperands [operand] = [operand.explicit]) :
    canonicalText mnemonic [operand] =
      mnemonic.name ++ " " ++ operand.explicit.text (mnemonic.numberStyle [operand]) := by
  simp [canonicalText, kept]

theorem stacked_renders {mnemonic : Mnemonic} {argument : Argument}
    (build : StackWide → Instruction) (wellFormed : ∀ pair, (build pair).WellFormed)
    (written : ∀ pair, (build pair).text = mnemonic.name ++ " " ++ pair.text)
    (kept : ∀ operand, mnemonic.canonicalOperands [operand] = [operand.explicit]) :
    Renders (stacked mnemonic argument build) (canonicalText mnemonic [argument.operand]) := by
  rw [canonical_text_one (kept _)]
  unfold stacked
  split
  case h_1 operand | h_2 operand | h_3 operand | h_4 operand | h_5 register operand =>
    rw [operand]
    exact renders_ok (wellFormed _) (written _)
  case h_6 => exact renders_invalid _ _ _

/-! ### Arithmetic -/

theorem canonical_text_arith_one (operation : Arith) (source : Operand) :
    canonicalText (.arith operation) [source] =
      Instruction.arithText operation (source.explicit.text .byte) := by
  unfold Instruction.arithText
  split <;> rename_i named <;>
    simp [canonicalText, Mnemonic.canonicalOperands, Arith.canonicalOperands, named,
      Mnemonic.numberStyle, Mnemonic.name, Reg8.name, ← String.toList_inj]

theorem canonical_text_arith_accumulator (operation : Arith) (source : Operand) :
    canonicalText (.arith operation) [.reg .a, source] =
      Instruction.arithText operation (source.explicit.text .byte) := by
  rw [← canonical_text_arith_one]
  simp only [canonicalText, Mnemonic.canonicalOperands, Arith.canonicalOperands,
    Mnemonic.numberStyle]

theorem arith8_renders (operation : Arith) (source : Argument) :
    Renders (arith8 operation source)
      (Instruction.arithText operation (source.operand.explicit.text .byte)) := by
  unfold arith8
  split
  · rename_i value operand
    refine renders_bind fun checked found => renders_ok trivial ?_
    rw [operand]
    exact congrArg (Instruction.arithText operation) (byte_text_of_byte found)
  · refine renders_bind fun placed found => renders_ok trivial ?_
    exact congrArg (Instruction.arithText operation) (text_of_place found .byte)

theorem canonical_text_arith_two {operation : Arith} {first second : Operand}
    (other : first ≠ .reg .a) :
    canonicalText (.arith operation) [first, second] =
      operation.name ++ " " ++ first.explicit.text .byte ++ ", " ++
        second.explicit.text .byte := by
  simp [canonicalText, Mnemonic.canonicalOperands, operation.canonical_operands_other second other,
    Mnemonic.numberStyle, Mnemonic.name]

theorem arith_renders (operation : Arith) (first second : Argument) :
    Renders (arith operation first second)
      (canonicalText (.arith operation) [first.operand, second.operand]) := by
  unfold arith
  split
  case h_1 accumulator =>
    rw [accumulator, canonical_text_arith_accumulator]
    exact arith8_renders _ second
  case h_2 pair left right | h_4 pair left right | h_5 pair left right =>
    rw [left, right, canonical_text_arith_two (by decide)]
    refine renders_bind fun checked found => renders_ok trivial ?_
    simp [text_of_addend found, Base.text, Pair.name, Arith.name]
  case h_3 register left =>
    rw [left, canonical_text_arith_two (by simp)]
    refine renders_bind fun checked found => renders_ok trivial ?_
    simp [text_of_index_addend found .byte, Base.text, Arith.name]
  case h_6 => exact renders_invalid _ _ _

theorem counted_renders {mnemonic : Mnemonic} {argument : Argument} (onWide : Wide → Instruction)
    (onPlace : Place → Instruction) (wellFormed : ∀ pair, (onWide pair).WellFormed)
    (placeFormed : ∀ position, (onPlace position).WellFormed)
    (written : ∀ pair, (onWide pair).text = mnemonic.name ++ " " ++ pair.text)
    (placeWritten : ∀ position, (onPlace position).text = mnemonic.name ++ " " ++ position.text)
    (kept : ∀ operand, mnemonic.canonicalOperands [operand] = [operand.explicit]) :
    Renders (counted mnemonic argument onWide onPlace)
      (canonicalText mnemonic [argument.operand]) := by
  rw [canonical_text_one (kept _)]
  unfold counted
  split
  · rename_i pair operand
    refine renders_bind fun checked found => renders_ok (wellFormed checked) ?_
    rw [operand, written, text_of_wide found]
    rfl
  · rename_i register operand
    rw [operand]
    exact renders_ok (wellFormed _) (written _)
  · refine renders_bind fun placed found => renders_ok (placeFormed placed) ?_
    rw [placeWritten, text_of_place found]

theorem shift_renders (operation : Shift) (argument : Argument) :
    Renders (shift operation argument) (canonicalText (.shift operation) [argument.operand]) := by
  rw [canonical_text_one rfl]
  refine renders_bind fun content found => renders_ok trivial ?_
  rw [Instruction.text, text_of_cell found]
  rfl

theorem canonical_text_bit (operation : BitOp) (index source : Operand) :
    canonicalText (.bit operation) [index, source] =
      operation.name ++ " " ++ index.explicit.text .decimal ++ ", " ++
        source.explicit.text .decimal := by
  simp [canonicalText, Mnemonic.canonicalOperands, Mnemonic.numberStyle, Mnemonic.name]

theorem signed_to_nat {number : Int} (positive : 0 ≤ number) :
    Numeral.signed number = Numeral.decimal number.toNat := by
  obtain ⟨value, rfl⟩ := Int.eq_ofNat_of_zero_le positive
  rfl

theorem bit_renders (operation : BitOp) (index argument : Argument) :
    Renders (bit operation index argument)
      (canonicalText (.bit operation) [index.operand, argument.operand]) := by
  refine renders_bind fun number checked => ?_
  rw [canonical_text_bit, operand_of_number checked]
  split
  · rename_i bounds
    refine renders_bind fun content found => renders_ok trivial ?_
    rw [Instruction.text, text_of_cell found .decimal]
    simp [NumberStyle.text, signed_to_nat bounds.2]
  · exact renders_invalid _ _ _

/-! ### Jumps -/

theorem jump_renders (argument : Argument) :
    Renders (jump argument) (canonicalText .jp [argument.operand]) := by
  unfold jump
  split
  case h_1 operand =>
    rw [operand]
    exact renders_ok trivial (by decide)
  case h_2 register operand =>
    rw [operand]
    cases register <;> exact renders_ok trivial (by decide)
  case h_3 address operand =>
    refine renders_with_word (fun _ => trivial) (fun _ => ⟨[_], rfl⟩) fun value written => ?_
    rw [operand]
    simp [canonicalText, Mnemonic.canonicalOperands, Mnemonic.numberStyle, Mnemonic.name, written]
  case h_4 => exact renders_invalid _ _ _

theorem call_renders (argument : Argument) :
    Renders (call argument) (canonicalText .call [argument.operand]) := by
  unfold call
  split
  · rename_i address operand
    refine renders_with_word (fun _ => trivial) (fun _ => ⟨[_], rfl⟩) fun value written => ?_
    rw [operand, canonical_text_one rfl]
    simp [Mnemonic.numberStyle, Mnemonic.name, written]
  · exact renders_invalid _ _ _

theorem cond?_of_condition {mnemonic : Mnemonic} {argument : Argument} {found : Cond}
    (checked : condition mnemonic argument = .ok found) : argument.cond? = some found := by
  unfold condition at checked
  split at checked
  · rename_i cond named
    cases checked
    exact named
  · cases checked

/-- A condition in front of a number, for the mnemonics that take one. -/
theorem canonical_text_conditional {mnemonic : Mnemonic} {argument : Argument} {cond : Cond}
    (named : argument.cond? = some cond) (value : Expression)
    (kept : ∀ operands, mnemonic.canonicalOperands operands = operands ∨
      mnemonic.canonicalOperands operands = operands.map Operand.explicit) :
    canonicalText mnemonic [argument.operand, .immediate value] =
      mnemonic.name ++ " " ++ cond.name ++ ", " ++
        (mnemonic.numberStyle [argument.operand, .immediate value]).text value := by
  have plainly : argument.operand.explicit = argument.operand := by
    cases operand : argument.operand <;> simp [Argument.cond?, operand] at named <;> rfl
  have unchanged : mnemonic.canonicalOperands [argument.operand, .immediate value] =
      [argument.operand, .immediate value] := by
    rcases kept [argument.operand, .immediate value] with same | explicit
    · exact same
    · rw [explicit, List.map_cons, plainly]
      rfl
  rw [canonicalText, unchanged, List.map_cons, List.map_cons, List.map_nil, line_text_two,
    ← name_of_cond? named, Operand.text]

theorem conditional_renders {mnemonic : Mnemonic} {first second : Argument}
    (build : Cond → UInt16 → Instruction)
    (wellFormed : ∀ cond address, (build cond address).WellFormed)
    (ends : ∀ cond address, ∃ front, (build cond address).encode = front ++ wordBytes address)
    (written : ∀ cond address, (build cond address).text =
      mnemonic.name ++ " " ++ cond.name ++ ", " ++ wordText address)
    (kept : ∀ operands, mnemonic.canonicalOperands operands = operands ∨
      mnemonic.canonicalOperands operands = operands.map Operand.explicit)
    (style : ∀ operands, mnemonic.numberStyle operands = .word) :
    Renders (conditional mnemonic first second build)
      (canonicalText mnemonic [first.operand, second.operand]) := by
  refine renders_bind fun cond checked => ?_
  split
  · rename_i address operand
    refine renders_with_word (wellFormed cond) (ends cond) fun value spelled => ?_
    rw [written, spelled, operand, canonical_text_conditional (cond?_of_condition checked) _ kept,
      style]
  · exact renders_invalid _ _ _

theorem name_of_short? {cond : Cond} {short : ShortCond} (found : cond.short? = some short) :
    short.name = cond.name := by
  cases cond <;> cases found <;> rfl

theorem relative_renders {mnemonic : Mnemonic} {argument : Argument} (build : UInt8 → Instruction)
    (wellFormed : ∀ distance, (build distance).WellFormed)
    (ends : ∀ distance, ∃ front, (build distance).encode = front ++ [distance])
    (written : ∀ distance, (build distance).text =
      mnemonic.name ++ " " ++ distanceText distance)
    (kept : ∀ operand, mnemonic.canonicalOperands [operand] = [operand.explicit])
    (style : ∀ operands, mnemonic.numberStyle operands = .decimal) :
    Renders (withDistance mnemonic argument build) (canonicalText mnemonic [argument.operand]) := by
  refine renders_with_distance wellFormed ends fun distance spelled => ?_
  rw [written, spelled, canonical_text_one (kept _), style]

theorem relative_conditional_renders (first second : Argument) :
    Renders (relativeConditional first second)
      (canonicalText .jr [first.operand, second.operand]) := by
  unfold relativeConditional
  split
  · rename_i short found
    obtain ⟨cond, named, shortened⟩ := Option.bind_eq_some_iff.mp found
    intro selection equal
    -- Only a number or a label is accepted here, so the target is an immediate operand.
    obtain ⟨value, operand⟩ : ∃ value, second.operand = .immediate value := by
      cases operand : second.operand <;> simp [withDistance, operand, invalid] at equal
      exact ⟨_, rfl⟩
    revert selection
    refine renders_with_distance (fun _ => trivial) (fun _ => ⟨[_], rfl⟩) fun distance spelled => ?_
    rw [operand] at spelled ⊢
    rw [canonical_text_conditional named value fun _ => .inr rfl, Instruction.text, spelled,
      name_of_short? shortened]
    rfl
  · exact renders_invalid _ _ _

theorem return_if_renders (argument : Argument) :
    Renders (returnIf argument) (canonicalText .ret [argument.operand]) := by
  refine renders_bind fun cond checked => renders_ok trivial ?_
  have named := cond?_of_condition checked
  rw [canonical_text_one rfl, Instruction.text, name_of_cond? named .byte]
  cases operand : argument.operand <;> simp [Argument.cond?, operand] at named <;> rfl

theorem restart_renders (argument : Argument) :
    Renders (restart argument) (canonicalText .rst [argument.operand]) := by
  refine renders_bind fun number checked => ?_
  rw [canonical_text_one rfl, operand_of_number checked]
  split
  · rename_i vector found
    refine renders_ok trivial ?_
    have address : 8 * vector.val = (number % 256).toNat := by
      unfold Opcode.restartVector? at found
      split at found
      · split at found
        · cases found
          simp only
          omega
        · cases found
      · cases found
    rw [Instruction.text, address]
    simp [Mnemonic.name, Mnemonic.numberStyle, NumberStyle.text, ← String.toList_inj]
  · exact renders_invalid _ _ _

/-! ### Interrupts and ports -/

theorem interrupt_mode_renders (argument : Argument) :
    Renders (interruptMode argument) (canonicalText .im [argument.operand]) := by
  refine renders_bind fun number checked => ?_
  rw [canonical_text_one rfl, operand_of_number checked]
  split
  · rename_i mode found
    refine renders_ok trivial ?_
    unfold Opcode.InterruptMode.ofNumber? at found
    split at found <;> cases found <;> decide
  · exact renders_invalid _ _ _

theorem input_alone_renders (argument : Argument) :
    Renders (inputAlone argument) (canonicalText .input [argument.operand]) := by
  unfold inputAlone
  split
  · rename_i operand
    rw [operand]
    exact renders_ok trivial (by decide)
  · exact renders_invalid _ _ _

theorem input_renders (first second : Argument) :
    Renders (input first second) (canonicalText .input [first.operand, second.operand]) := by
  unfold input
  split
  case h_1 register left right =>
    rw [left, right]
    cases register <;> exact renders_ok trivial (by decide)
  case h_2 number left right =>
    rw [left, right]
    refine renders_bind fun checked found => renders_ok trivial ?_
    simp [canonicalText, Mnemonic.canonicalOperands, Mnemonic.numberStyle, Mnemonic.name, Reg8.name,
      byte_text_of_byte found, ← String.toList_inj]
  all_goals exact renders_invalid _ _ _

theorem output_renders (first second : Argument) :
    Renders (output first second) (canonicalText .output [first.operand, second.operand]) := by
  unfold output
  split
  case h_1 register left right =>
    rw [left, right]
    cases register <;> exact renders_ok trivial (by decide)
  case h_2 left right =>
    rw [left, right]
    exact renders_ok trivial (by decide)
  case h_3 number left right =>
    rw [left, right]
    refine renders_bind fun checked found => renders_ok trivial ?_
    simp [canonicalText, Mnemonic.canonicalOperands, Mnemonic.numberStyle, Mnemonic.name, Reg8.name,
      byte_text_of_byte found, ← String.toList_inj]
  all_goals exact renders_invalid _ _ _

/-! ### Every mnemonic -/

/-- What a mnemonic chooses is an instruction of the processor with the canonical text. -/
theorem choose?_renders {mnemonic : Mnemonic} {arguments : List Argument}
    {selection : Selection} (chosen : choose? mnemonic arguments = some selection) :
    Rendering selection (canonicalText mnemonic (arguments.map Argument.operand)) := by
  unfold choose? at chosen
  split at chosen
  case h_1 operation =>
    cases chosen
    exact ⟨trivial, rfl, holds_zeros_plain _⟩
  case h_19 =>
    cases chosen
    exact ⟨trivial, rfl, holds_zeros_plain _⟩
  case h_26 => cases chosen
  all_goals rw [to_option_eq_some] at chosen
  case h_2 target source => exact load_renders target source selection chosen
  case h_3 first second => exact exchange_renders first second selection chosen
  case h_4 =>
    refine stacked_renders .push (fun _ => trivial) ?_ (fun _ => rfl) selection chosen
    simp [Mnemonic.name]
  case h_5 =>
    refine stacked_renders .pop (fun _ => trivial) ?_ (fun _ => rfl) selection chosen
    simp [Mnemonic.name]
  case h_6 operation source =>
    rw [List.map_cons, List.map_nil, canonical_text_arith_one]
    exact arith8_renders operation source selection chosen
  case h_7 operation first second => exact arith_renders operation first second selection chosen
  case h_8 =>
    refine counted_renders .incrementWord .increment (fun _ => trivial) (fun _ => trivial) ?_ ?_
      (fun _ => rfl) selection chosen <;> simp [Mnemonic.name]
  case h_9 =>
    refine counted_renders .decrementWord .decrement (fun _ => trivial) (fun _ => trivial) ?_ ?_
      (fun _ => rfl) selection chosen <;> simp [Mnemonic.name]
  case h_10 operation argument => exact shift_renders operation argument selection chosen
  case h_11 operation index argument => exact bit_renders operation index argument selection chosen
  case h_12 argument => exact jump_renders argument selection chosen
  case h_13 =>
    refine conditional_renders .jumpIf (fun _ _ => trivial) (fun _ _ => ⟨[_], rfl⟩) ?_
      (fun _ => .inl rfl) (fun _ => rfl) selection chosen
    simp [Mnemonic.name]
  case h_14 =>
    refine relative_renders .jumpRelative (fun _ => trivial) (fun _ => ⟨[_], rfl⟩) ?_
      (fun _ => rfl) (fun _ => rfl) selection chosen
    simp [Mnemonic.name]
  case h_15 first second => exact relative_conditional_renders first second selection chosen
  case h_16 =>
    refine relative_renders .countDown (fun _ => trivial) (fun _ => ⟨[_], rfl⟩) ?_
      (fun _ => rfl) (fun _ => rfl) selection chosen
    simp [Mnemonic.name]
  case h_17 argument => exact call_renders argument selection chosen
  case h_18 =>
    refine conditional_renders .callIf (fun _ _ => trivial) (fun _ _ => ⟨[_], rfl⟩) ?_
      (fun _ => .inr rfl) (fun _ => rfl) selection chosen
    simp [Mnemonic.name]
  case h_20 argument => exact return_if_renders argument selection chosen
  case h_21 argument => exact restart_renders argument selection chosen
  case h_22 argument => exact interrupt_mode_renders argument selection chosen
  case h_23 argument => exact input_alone_renders argument selection chosen
  case h_24 first second => exact input_renders first second selection chosen
  case h_25 first second => exact output_renders first second selection chosen

end Z80Toolchain.Selection
