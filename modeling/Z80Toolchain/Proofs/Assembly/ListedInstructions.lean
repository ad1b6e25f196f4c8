import Z80Toolchain.Proofs.Assembly.InstructionSyntax
import Z80Toolchain.Proofs.Assembly.LineReading
import Z80Toolchain.Proofs.Assembly.LineSpelling
import Z80Toolchain.Proofs.Assembly.SelectionText
import Z80Toolchain.Proofs.Machine.EncodeRead

/-!
A listed line, of an instruction or of data, is a word with operands; its text spells their tokens,
and these tokens are read as the line's bytes. The lines considered here stand in a listing, so they
have no labels and no variables.
-/
namespace Z80Toolchain

/-! ### The operands of a line in its number style -/

theorem Place.shown_operand (place : Place) (style : NumberStyle) : place.operand.Shown style := by
  cases place with
  | half register part => trivial
  | cell content =>
    cases content with
    | reg register => trivial
    | memory address =>
      cases address with
      | hl => trivial
      | indexed register distance =>
        have bounds := signed_byte_bounds distance
        simp only [Place.operand, Operand.Shown]
        omega

theorem Base.shown_operand (register : Base) (style : NumberStyle) :
    register.operand.Shown style := by
  cases register <;> trivial

theorem Wide.shown_operand (wide : Wide) (style : NumberStyle) : wide.operand.Shown style := by
  cases wide with
  | base register => exact register.shown_operand style
  | _ => trivial

theorem StackWide.shown_operand (wide : StackWide) (style : NumberStyle) :
    wide.operand.Shown style := by
  cases wide with
  | base register => exact register.shown_operand style
  | _ => trivial

theorem Addend.shown_operand (target : Base) (addend : Addend) (style : NumberStyle) :
    (addend.operand target).Shown style := by
  cases addend with
  | itself => exact target.shown_operand style
  | _ => trivial

theorem Cond.shown_operand (cond : Cond) (style : NumberStyle) : cond.operand.Shown style := by
  cases cond <;> simp [Cond.operand, Operand.Shown]

theorem shown_byte (value : UInt8) : (Operand.byte value).Shown .byte := by
  have bound := value.toNat_lt
  simp only [Operand.byte, Operand.Shown, NumberStyle.Shows]
  omega

theorem shown_port (number : UInt8) : (Operand.port number).Shown .byte := by
  have bound := number.toNat_lt
  simp only [Operand.port, Operand.Shown, NumberStyle.Shows]
  omega

theorem shown_word (value : UInt16) : (Operand.word value).Shown .word := by
  have bound := value.toNat_lt
  simp only [Operand.word, Operand.Shown, NumberStyle.Shows]
  omega

theorem shown_address (target : UInt16) : (Operand.address target).Shown .word := by
  have bound := target.toNat_lt
  simp only [Operand.address, Operand.Shown, NumberStyle.Shows]
  omega

theorem shown_target (distance : UInt8) : (Operand.target distance).Shown .decimal := by
  have bounds := signed_byte_bounds distance
  simp only [Operand.target, Operand.Shown, NumberStyle.Shows, integerLimit]
  omega

theorem Wide.is_wide_operand (wide : Wide) : wide.operand.isWide = true := by
  cases wide with
  | base register => cases register <;> rfl
  | _ => rfl

theorem Place.is_wide_operand (place : Place) : place.operand.isWide = false := by
  cases place with
  | half register part => rfl
  | cell content =>
    cases content with
    | reg register => rfl
    | memory address => cases address <;> rfl

theorem shown_one {style chosen : NumberStyle} {operand : Operand} (same : chosen = style)
    (shown : operand.Shown style) : ∀ other ∈ [operand], other.Shown chosen := by
  intro other member
  obtain rfl := List.mem_singleton.mp member
  exact same ▸ shown

theorem shown_two {style chosen : NumberStyle} {first second : Operand} (same : chosen = style)
    (left : first.Shown style) (right : second.Shown style) :
    ∀ operand ∈ [first, second], operand.Shown chosen := by
  intro operand member
  rcases List.mem_cons.mp member with rfl | rest
  · exact same ▸ left
  · exact shown_one same right operand rest

namespace Instruction

theorem shown_arith_operands (operation : Arith) {source : Operand} (shown : source.Shown .byte) :
    ∀ operand ∈ arithOperands operation source, operand.Shown .byte := by
  unfold arithOperands
  split
  · exact shown_two rfl trivial shown
  · exact shown_one rfl shown

open Selection in
/-- The number style of an instruction shows its operands in full. -/
theorem shown_operands (instruction : Instruction) :
    ∀ operand ∈ instruction.operands,
      operand.Shown (instruction.mnemonic.numberStyle instruction.operands) := by
  cases instruction with
  | implied | ret => simp [operands]
  | load target source => exact shown_two rfl (target.shown_operand _) (source.shown_operand _)
  | loadByte target value =>
    exact shown_two (number_style_ld_of_narrow target.is_wide_operand rfl) (target.shown_operand _)
      (shown_byte value)
  | loadAccumulator source =>
    cases source with
    | address target => exact shown_two (number_style_ld_of_wide rfl) trivial (shown_address target)
    | _ => exact shown_two rfl trivial trivial
  | storeAccumulator target =>
    cases target with
    | address target => exact shown_two (number_style_ld_of_wide rfl) (shown_address target) trivial
    | _ => exact shown_two rfl trivial trivial
  | readControl | writeControl | exchangeAf | exchangeDeHl => exact shown_two rfl trivial trivial
  | loadWord target value =>
    exact shown_two (number_style_ld_of_wide (by simp [target.is_wide_operand]))
      (target.shown_operand _) (shown_word value)
  | loadWordAt target address =>
    exact shown_two (number_style_ld_of_wide (by simp [target.is_wide_operand]))
      (target.shown_operand _) (shown_address address)
  | storeWordAt address source =>
    exact shown_two (number_style_ld_of_wide (by simp [source.is_wide_operand]))
      (shown_address address) (source.shown_operand _)
  | loadStackPointer register | exchangeStack register =>
    exact shown_two rfl trivial (register.shown_operand _)
  | push wide | pop wide => exact shown_one rfl (wide.shown_operand _)
  | arith operation source => exact shown_arith_operands operation (source.shown_operand _)
  | arithByte operation value => exact shown_arith_operands operation (shown_byte value)
  | addWord target source =>
    exact shown_two rfl (target.shown_operand _) (source.shown_operand target _)
  | addWithCarry source | subtractWithCarry source =>
    exact shown_two rfl trivial (source.shown_operand .hl _)
  | increment target | decrement target => exact shown_one rfl (target.shown_operand _)
  | incrementWord target | decrementWord target => exact shown_one rfl (target.shown_operand _)
  | shift operation target => exact shown_one rfl (Place.shown_operand _ _)
  | bit operation number target =>
    have bound := number.isLt
    refine shown_two rfl ?_ (Place.shown_operand _ _)
    simp only [mnemonic, Mnemonic.numberStyle, Operand.Shown, NumberStyle.Shows, integerLimit]
    omega
  | jump address | call address => exact shown_one rfl (shown_word address)
  | jumpIf cond address | callIf cond address =>
    exact shown_two rfl (cond.shown_operand _) (shown_word address)
  | jumpTo register => cases register <;> exact shown_one rfl trivial
  | jumpRelative distance | countDown distance => exact shown_one rfl (shown_target distance)
  | jumpRelativeIf cond distance =>
    exact shown_two rfl (cond.toCond.shown_operand _) (shown_target distance)
  | retIf cond => exact shown_one rfl (cond.shown_operand _)
  | restart vector =>
    have bound := vector.isLt
    refine shown_one rfl ?_
    simp only [mnemonic, Mnemonic.numberStyle, Operand.Shown, NumberStyle.Shows]
    omega
  | interruptMode mode =>
    refine shown_one rfl ?_
    cases mode <;>
      simp [mnemonic, Mnemonic.numberStyle, Operand.Shown, NumberStyle.Shows,
        Opcode.InterruptMode.number, integerLimit]
  | inputPort number => exact shown_two rfl trivial (shown_port number)
  | outputPort number => exact shown_two rfl (shown_port number) trivial
  | input target =>
    cases target with
    | none => exact shown_one rfl trivial
    | some register => exact shown_two rfl trivial trivial
  | output source =>
    cases source with
    | none =>
      refine shown_two rfl trivial ?_
      simp [Operand.Shown, mnemonic, Mnemonic.numberStyle, operands, NumberStyle.Shows]
    | some register => exact shown_two rfl trivial trivial

end Instruction

/-! ### The text of a line -/

theorem Mnemonic.is_listed_name (mnemonic : Mnemonic) : IsListedName mnemonic.name := by
  cases mnemonic with
  | implied operation => cases operation <;> decide
  | arith operation => cases operation <;> decide
  | shift operation => cases operation <;> decide
  | bit operation => cases operation <;> decide
  | _ => decide

theorem Mnemonic.of_name?_name (mnemonic : Mnemonic) : ofName? mnemonic.name = some mnemonic := by
  cases mnemonic with
  | implied operation => cases operation <;> decide
  | arith operation => cases operation <;> decide
  | shift operation => cases operation <;> decide
  | bit operation => cases operation <;> decide
  | _ => decide

theorem Mnemonic.name_ne_data (mnemonic : Mnemonic) :
    mnemonic.name ≠ "db" ∧ mnemonic.name ≠ "dw" := by
  have found := mnemonic.of_name?_name
  constructor <;> intro data <;> rw [data] at found
  · cases (by decide : ofName? "db" = none).symm.trans found
  · cases (by decide : ofName? "dw" = none).symm.trans found

/-- The text of an instruction is canonical for its own operands. -/
theorem Instruction.text_eq_line_text {instruction : Instruction}
    (wellFormed : instruction.WellFormed) :
    instruction.text = lineText instruction.mnemonic.name (instruction.operands.map
      (Operand.text (instruction.mnemonic.numberStyle instruction.operands))) := by
  have operands : (instruction.operands.map fun operand =>
      Argument.mk operand ⟨.newLine, .start⟩).map Argument.operand = instruction.operands := by
    simp [Function.comp_def]
  have chosen := instruction.choose?_operands wellFormed operands
  have rendered := (Selection.choose?_renders chosen).text
  rw [operands, canonicalText, instruction.canonical_operands_operands] at rendered
  exact rendered

namespace Decoded

def word : Decoded → String
  | .instruction found => found.mnemonic.name
  | .data _ => "db"

def operands : Decoded → List Operand
  | .instruction found => found.operands
  | .data bytes => bytes.map Operand.byte

theorem is_listed_name_word (content : Decoded) : IsListedName content.word := by
  cases content with
  | instruction found => exact found.mnemonic.is_listed_name
  | data bytes =>
    rw [word]
    decide

theorem text_byte (value : UInt8) : (Operand.byte value).text .byte = byteText value := by
  rw [Operand.byte, Operand.text, ← byte_text_of_int, of_int_to_nat_byte]

/-- Some number style shows all operands of a line, which are its text behind the word. -/
theorem exists_style {content : Decoded} (wellFormed : content.WellFormed) :
    ∃ style, content.text = lineText content.word (content.operands.map (Operand.text style)) ∧
      ∀ operand ∈ content.operands, operand.Shown style := by
  cases content with
  | instruction found => exact ⟨_, found.text_eq_line_text wellFormed, found.shown_operands⟩
  | data bytes =>
    refine ⟨.byte, ?_, ?_⟩
    · cases bytes with
      | nil => exact absurd rfl wellFormed
      | cons first rest =>
        simp [text, dataText, lineText, word, operands, text_byte, Function.comp_def]
    · intro operand member
      obtain ⟨value, -, rfl⟩ := List.mem_map.mp member
      exact shown_byte value

theorem is_literal_operands {content : Decoded} (wellFormed : content.WellFormed) :
    ∀ operand ∈ content.operands, operand.IsLiteral := by
  obtain ⟨style, -, shown⟩ := exists_style wellFormed
  intro operand member
  exact (shown operand member).is_literal

/-- A listed line spells its word and its operands. -/
theorem listed_text {content : Decoded} (wellFormed : content.WellFormed) :
    Listed content.text.toList
      (lineKinds content.word (content.operands.map Operand.kinds)) := by
  obtain ⟨style, written, shown⟩ := exists_style wellFormed
  rw [written]
  refine listed_line_text content.is_listed_name_word (ListedAll.map ?_)
  intro operand member
  exact Operand.listed_text (shown operand member)

end Decoded

/-! ### Reading a line -/

/-- Tokens of literal operands with commas between them are read as the operands. -/
theorem exists_arguments (symbols : Symbols) {operands : List Operand} (some : operands ≠ [])
    (literal : ∀ operand ∈ operands, operand.IsLiteral) {tokens rest : List Token}
    (kinds : tokens.map Token.kind = List.intercalate [.comma] (operands.map Operand.kinds))
    (unsigned : Unsigned rest) (final : Position) :
    ∃ arguments, ArgumentList symbols ⟨tokens ++ rest, final⟩ arguments ⟨rest, final⟩ ∧
      arguments.map Argument.operand = operands := by
  induction operands generalizing tokens with
  | nil => exact absurd rfl some
  | cons operand operands induction =>
    have first := literal operand (by simp)
    cases operands with
    | nil =>
      rw [List.map_cons, List.map_nil, List.intercalate_singleton] at kinds
      exact ⟨_, .one (Argument.parse_kinds symbols first kinds unsigned final), rfl⟩
    | cons next operands =>
      rw [List.map_cons, List.map_cons, List.intercalate_cons_cons] at kinds
      obtain ⟨front, others, rfl, kinds, more⟩ := List.map_eq_append_iff.mp kinds
      obtain ⟨own, comma, rfl, ownKinds, single⟩ := List.map_eq_append_iff.mp kinds
      obtain ⟨separator, rfl, separated⟩ := List.map_eq_singleton_iff.mp single
      obtain ⟨arguments, listed, same⟩ := induction (List.cons_ne_nil _ _)
        (fun operand member => literal operand (by simp [member])) more
      have apart : Unsigned (separator :: (others ++ rest)) := by
        simp [Unsigned, separated, Token.Kind.sign?]
      have read := Argument.parse_kinds symbols first ownKinds apart final
      simp only [List.append_assoc, List.singleton_append]
      exact ⟨_ :: arguments, .more read separated listed, by rw [List.map_cons, same]⟩

theorem ArgumentList.length_le {symbols : Symbols} {cursor after : Cursor}
    {arguments : List Argument} (listed : ArgumentList symbols cursor arguments after) :
    arguments.length ≤ cursor.ahead.length := by
  induction listed with
  | one read =>
    have shorter := Argument.parse_shorter read
    simp only [List.length_singleton]
    omega
  | @more cursor middle after argument others read comma rest induction =>
    have shorter := Argument.parse_shorter read
    have skipped := middle.length_skip_le
    simp only [List.length_cons]
    omega

/-- An operand is no string, so it is read as a byte of data. -/
theorem byte_item_of_byte {symbols : Symbols} {cursor after : Cursor} {argument : Argument}
    {value : UInt8} (read : Argument.parse symbols cursor = (.ok argument, after))
    (operand : argument.operand = .byte value) :
    byteItem symbols cursor = (.ok [value], after) := by
  have noString : ∀ text, cursor.peek.kind ≠ .string text := by
    intro text string
    rw [Argument.parse, Parse.bind_of_ok (by rfl), string] at read
    cases read
  rw [byteItem, Parse.bind_of_ok (by rfl)]
  generalize cursor.peek = token at noString
  obtain ⟨kind, position⟩ := token
  cases kind with
  | string text => exact absurd rfl (noString text)
  | _ =>
    dsimp only
    rw [byteNumber, Parse.bind_of_ok read]
    simp only [operand, Operand.byte, Selection.byte_operand]
    rfl

theorem items_up_to_bytes {symbols : Symbols} {cursor after : Cursor} {arguments : List Argument}
    (listed : ArgumentList symbols cursor arguments after) (ends : after.atLineEnd = true)
    {bytes : List UInt8} (same : arguments.map Argument.operand = bytes.map Operand.byte)
    {count : Nat} (enough : arguments.length ≤ count) :
    itemsUpTo (byteItem symbols) count cursor = (.ok (bytes.map ([·])), after) := by
  induction listed generalizing bytes count with
  | one read =>
    obtain ⟨value, rfl, operand⟩ := List.map_eq_singleton_iff.mp same.symm
    cases count with
    | zero => simp at enough
    | succ count =>
      rw [itemsUpTo, Parse.bind_of_ok (byte_item_of_byte read operand.symm),
        Parse.bind_of_ok (Parse.eat_eq_false (Cursor.no_comma_of_at_line_end ends))]
      rfl
  | more read comma rest induction =>
    obtain ⟨value, values, rfl, operand, others⟩ := List.map_eq_cons_iff.mp same.symm
    cases count with
    | zero => simp at enough
    | succ count =>
      rw [itemsUpTo, Parse.bind_of_ok (byte_item_of_byte read operand.symm),
        Parse.bind_of_ok (Parse.eat_eq_true comma), if_pos rfl,
        Parse.bind_of_ok (induction ends others.symm (by simpa using enough))]
      rfl

/-- No token of a listed operand ends a line. -/
theorem Operand.kinds_plain (operand : Operand) : ∀ kind ∈ operand.kinds, kind.endsLine = false := by
  cases operand with
  | indexed register distance => simp only [kinds]; split <;> simp [Token.Kind.endsLine]
  | memory address | immediate address =>
    cases address with
    | value number =>
      simp only [kinds, Expression.literalKinds]
      split <;> simp [Token.Kind.endsLine]
    | symbol name addend => simp [kinds, Token.Kind.endsLine]
  | _ => simp [kinds, Token.Kind.endsLine]

theorem Operand.list_kinds_plain (operands : List Operand) :
    ∀ kind ∈ List.intercalate [.comma] (operands.map kinds), kind.endsLine = false := by
  induction operands with
  | nil => simp
  | cons operand operands induction =>
    cases operands with
    | nil => simpa using operand.kinds_plain
    | cons next operands =>
      rw [List.map_cons, List.map_cons, List.intercalate_cons_cons]
      intro kind member
      rcases List.mem_append.mp member with early | late
      · rcases List.mem_append.mp early with first | comma
        · exact operand.kinds_plain kind first
        · obtain rfl := List.mem_singleton.mp comma
          rfl
      · exact induction kind late

/-- The tokens behind the word of a line are read as a statement with the line's bytes. -/
theorem Statement.parse_named_listed {symbols : Symbols} {content : Decoded}
    (wellFormed : content.WellFormed) (head : Token) {tokens : List Token} {last : Token}
    (kinds : tokens.map Token.kind = List.intercalate [.comma] (content.operands.map Operand.kinds))
    (ends : last.kind = .newLine) (final : Position) :
    ∃ statement, parseNamed symbols head content.word ⟨tokens ++ [last], final⟩ =
      (.ok statement, ⟨[last], final⟩) ∧ statement.encoding = ⟨content.bytes, []⟩ := by
  have unsigned : Unsigned [last] := by
    simp [Unsigned, ends, Token.Kind.sign?]
  have atEnd : (Cursor.mk [last] final).atLineEnd = true := by
    simp [Cursor.atLineEnd, ends, Token.Kind.endsLine]
  have literal := Decoded.is_literal_operands wellFormed
  cases content with
  | instruction found =>
    obtain ⟨arguments, between, same⟩ : ∃ arguments,
        ArgumentsBetween symbols ⟨tokens ++ [last], final⟩ arguments ⟨[last], final⟩ ∧
          arguments.map Argument.operand = found.operands := by
      cases operands : found.operands with
      | nil =>
        simp only [Decoded.operands, operands, List.map_nil, List.intercalate_nil,
          List.map_eq_nil_iff] at kinds
        subst kinds
        exact ⟨[], .none _, rfl⟩
      | cons first rest =>
        simp only [Decoded.operands, operands] at kinds literal
        obtain ⟨arguments, listed, same⟩ :=
          exists_arguments symbols (List.cons_ne_nil _ _) literal kinds unsigned final
        exact ⟨arguments, .some listed, same⟩
    have chosen := found.choose?_operands wellFormed same
    have read := Selection.parse_of_choose? between chosen atEnd
    have named := found.mnemonic.of_name?_name
    refine ⟨.instruction (.plain found), ?_, rfl⟩
    have noBytes : found.mnemonic.name ≠ "db" := found.mnemonic.name_ne_data.1
    have noWords : found.mnemonic.name ≠ "dw" := found.mnemonic.name_ne_data.2
    simp only [parseNamed, Decoded.word, named]
    rw [Parse.bind_of_ok read]
    rfl
  | data bytes =>
    have some : bytes.map Operand.byte ≠ [] := fun empty =>
      wellFormed (List.map_eq_nil_iff.mp empty)
    obtain ⟨arguments, listed, same⟩ :=
      exists_arguments symbols some literal kinds unsigned final
    have plain := Operand.list_kinds_plain (Decoded.data bytes).operands
    rw [← kinds, List.forall_mem_map] at plain
    have ahead : (Cursor.mk (tokens ++ [last]) final).lineAhead = tokens :=
      Cursor.line_ahead_before atEnd plain
    have enough : arguments.length ≤ tokens.length + 1 := by
      simpa using listed.length_le
    have read : items (byteItem symbols) ⟨tokens ++ [last], final⟩ =
        (.ok (bytes.map ([·])), ⟨[last], final⟩) := by
      rw [items, ahead]
      exact items_up_to_bytes listed atEnd same enough
    refine ⟨.bytes (bytes.map ([·])), ?_, ?_⟩
    · simp only [parseNamed, Decoded.word]
      rw [Parse.bind_of_ok read]
      rfl
    · simp [encoding, Decoded.bytes, ← List.flatMap_def]

end Z80Toolchain
