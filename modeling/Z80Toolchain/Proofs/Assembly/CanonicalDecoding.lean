import Z80Toolchain.Machine.Disassembly
import Z80Toolchain.Proofs.Assembly.SelectionText
import Z80Toolchain.Proofs.Machine.ReadEncode

/-!
Decoding undoes encoding: the bytes of an accepted instruction are decoded, whatever follows them, as
one instruction of the same length, whose text is the canonical rendering of the operands that were
read. Labels are still open here, so their places hold zeros.
-/
namespace Z80Toolchain

open Selection

/-- Behind `head` stand the operands of an instruction that is accepted with these bytes. The words
of data, `db` and `dw`, are no mnemonics. -/
structure Accepted (symbols : Symbols) (head : Token) (cursor : Cursor) (mnemonic : Mnemonic)
    (operands : List Operand) (bytes : List UInt8) : Prop where
  named : ∃ name, head.kind = .text name ∧ Mnemonic.ofName? (Text.lower name) = some mnemonic
  read : ∃ statement arguments after, Statement.parse symbols head cursor = (.ok statement, after) ∧
    ArgumentsBetween symbols cursor arguments after ∧ arguments.map Argument.operand = operands ∧
    statement.encoding.bytes = bytes

/-- A word that is neither `db` nor `dw` reads an instruction or nothing. -/
theorem Statement.parse_named_inversion {symbols : Symbols} {head : Token} {name : String}
    {cursor after : Cursor} {statement : Statement} (noBytes : name ≠ "db") (noWords : name ≠ "dw")
    (read : parseNamed symbols head name cursor = (.ok statement, after)) :
    ∃ mnemonic selection arguments, Mnemonic.ofName? name = some mnemonic ∧
      statement = .instruction selection ∧ ArgumentsBetween symbols cursor arguments after ∧
      choose? mnemonic arguments = some selection := by
  cases found : Mnemonic.ofName? name with
  | none =>
    simp only [parseNamed, found] at read
    cases read
  | some mnemonic =>
    simp only [parseNamed, found] at read
    obtain ⟨selection, middle, parsed, read⟩ := Parse.bind_eq_ok.mp read
    cases read
    obtain ⟨arguments, between, chosen⟩ := parse_inversion parsed
    exact ⟨mnemonic, selection, arguments, rfl, rfl, between, chosen⟩

namespace Accepted

variable {symbols : Symbols} {head : Token} {cursor : Cursor} {mnemonic : Mnemonic}
  {operands : List Operand} {bytes : List UInt8}

/-- The bytes of an accepted instruction are read as one instruction, with the canonical text. -/
theorem read_bytes (accepted : Accepted symbols head cursor mnemonic operands bytes)
    (rest : List UInt8) :
    ∃ instruction : Instruction, Decoded.read (bytes ++ rest) = some (.instruction instruction, rest) ∧
      instruction.encode = bytes ∧ instruction.text = canonicalText mnemonic operands := by
  obtain ⟨name, kind, found⟩ := accepted.named
  obtain ⟨statement, arguments, after, read, between, rfl, rfl⟩ := accepted.read
  have noBytes : Text.lower name ≠ "db" := by
    intro data
    rw [data] at found
    cases (by decide : Mnemonic.ofName? "db" = none).symm.trans found
  have noWords : Text.lower name ≠ "dw" := by
    intro data
    rw [data] at found
    cases (by decide : Mnemonic.ofName? "dw" = none).symm.trans found
  simp only [Statement.parse, kind] at read
  obtain ⟨other, selection, others, same, rfl, again, chosen⟩ :=
    Statement.parse_named_inversion noBytes noWords read
  obtain rfl : mnemonic = other := Option.some.inj (found.symm.trans same)
  obtain rfl : arguments = others := between.unique again
  obtain ⟨wellFormed, text, -⟩ := choose?_renders chosen
  exact ⟨selection.instruction, Instruction.read_encode wellFormed rest, rfl, text⟩

/-- Two accepted instructions with the same bytes have the same canonical text. -/
theorem canonical_text_eq {symbols' : Symbols} {head' : Token} {cursor' : Cursor}
    {mnemonic' : Mnemonic} {operands' : List Operand}
    (accepted : Accepted symbols head cursor mnemonic operands bytes)
    (other : Accepted symbols' head' cursor' mnemonic' operands' bytes) :
    canonicalText mnemonic operands = canonicalText mnemonic' operands' := by
  obtain ⟨first, readFirst, -, textFirst⟩ := accepted.read_bytes []
  obtain ⟨second, readSecond, -, textSecond⟩ := other.read_bytes []
  obtain rfl : first = second := by simpa using readFirst.symm.trans readSecond
  exact textFirst.symm.trans textSecond

end Accepted

theorem Statement.accepted_of_parse {symbols : Symbols} {head : Token} {name : String}
    {cursor after : Cursor} {statement : Statement} (kind : head.kind = .text name)
    (noBytes : Text.lower name ≠ "db") (noWords : Text.lower name ≠ "dw")
    (read : Statement.parse symbols head cursor = (.ok statement, after)) :
    ∃ mnemonic operands,
      Accepted symbols head cursor mnemonic operands statement.encoding.bytes := by
  have named := read
  simp only [Statement.parse, kind] at named
  obtain ⟨mnemonic, selection, arguments, found, -, between, -⟩ :=
    parse_named_inversion noBytes noWords named
  exact ⟨mnemonic, arguments.map Argument.operand, ⟨name, kind, found⟩,
    statement, arguments, after, read, between, rfl, rfl⟩

/-! ### No instruction reads as data -/

def firstWord (text : String) : List Char :=
  text.toList.takeWhile (· != ' ')

theorem first_word_line_text {name : String} (whole : name.toList.all (· != ' ') = true)
    (texts : List String) : firstWord (lineText name texts) = name.toList := by
  have whole := List.all_eq_true.mp whole
  cases texts with
  | nil =>
    have kept := @List.takeWhile_append_of_pos _ (· != ' ') name.toList [] whole
    simpa [firstWord] using kept
  | cons text texts =>
    simp only [firstWord, lineText, String.toList_append, List.append_assoc]
    rw [List.takeWhile_append_of_pos whole]
    simp

theorem Mnemonic.name_whole (mnemonic : Mnemonic) :
    mnemonic.name.toList.all (· != ' ') = true ∧ mnemonic.name.toList ≠ ['d', 'b'] := by
  cases mnemonic with
  | implied operation => cases operation <;> decide
  | arith operation => cases operation <;> decide
  | shift operation => cases operation <;> decide
  | bit operation => cases operation <;> decide
  | _ => decide

theorem canonical_text_ne_data_text (mnemonic : Mnemonic) (operands : List Operand)
    (bytes : List UInt8) : canonicalText mnemonic operands ≠ dataText bytes := by
  intro same
  have words := congrArg firstWord same
  rw [canonicalText, first_word_line_text mnemonic.name_whole.1] at words
  refine mnemonic.name_whole.2 (words.trans ?_)
  simp [firstWord, dataText]

/-! ### Decoding undoes encoding -/

/-- An accepted instruction is decoded, before anything, as one entry with the canonical text of its
operands, and exactly its bytes are read; the entry is no data line, and every accepted instruction
with the same bytes has the same canonical text. -/
theorem first_entry_of_accepted {symbols : Symbols} {head : Token} {name : String}
    {cursor after : Cursor} {statement : Statement} (kind : head.kind = .text name)
    (noBytes : Text.lower name ≠ "db") (noWords : Text.lower name ≠ "dw")
    (read : Statement.parse symbols head cursor = (.ok statement, after)) :
    ∃ mnemonic operands,
      Accepted symbols head cursor mnemonic operands statement.encoding.bytes ∧
      (∀ rest, ∃ entry, Entry.first? (statement.encoding.bytes ++ rest) = some entry ∧
        Decoded.read (statement.encoding.bytes ++ rest) = some (entry.content, rest) ∧
        entry.size = statement.encoding.bytes.length ∧
        entry.text = canonicalText mnemonic operands ∧
        (∃ instruction, entry.content = .instruction instruction) ∧
        ∀ bytes, entry.text ≠ dataText bytes) ∧
      ∀ symbols' head' cursor' mnemonic' operands',
        Accepted symbols' head' cursor' mnemonic' operands' statement.encoding.bytes →
          canonicalText mnemonic' operands' = canonicalText mnemonic operands := by
  obtain ⟨mnemonic, operands, accepted⟩ := Statement.accepted_of_parse kind noBytes noWords read
  refine ⟨mnemonic, operands, accepted, ?_, ?_⟩
  · intro rest
    obtain ⟨instruction, decoded, encoded, text⟩ := accepted.read_bytes rest
    refine ⟨⟨0, .instruction instruction⟩, ?_, decoded, ?_, text, ⟨instruction, rfl⟩, ?_⟩
    · rw [Entry.first?, decoded]
      rfl
    · exact congrArg List.length encoded
    · intro bytes
      rw [Entry.text, Decoded.text, text]
      exact canonical_text_ne_data_text mnemonic operands bytes
  · intro symbols' head' cursor' mnemonic' operands' other
    exact other.canonical_text_eq accepted

/-- `SUB A, (IX)` has the bytes of `sub (ix+0)`. -/
theorem first_entry_sub_ix :
    ∃ mnemonic operands,
      Accepted .empty ⟨.text "SUB", ⟨0, 0⟩⟩
        ⟨[⟨.text "A", ⟨0, 4⟩⟩, ⟨.comma, ⟨0, 5⟩⟩, ⟨.leftParen, ⟨0, 7⟩⟩, ⟨.text "IX", ⟨0, 8⟩⟩,
          ⟨.rightParen, ⟨0, 10⟩⟩, ⟨.newLine, ⟨0, 11⟩⟩], ⟨0, 11⟩⟩ mnemonic operands
        [0xDD, 0x96, 0x00] ∧
      (∀ rest, ∃ entry, Entry.first? ([0xDD, 0x96, 0x00] ++ rest) = some entry ∧
        Decoded.read ([0xDD, 0x96, 0x00] ++ rest) = some (entry.content, rest) ∧
        entry.size = 3 ∧ entry.text = canonicalText mnemonic operands ∧
        (∃ instruction, entry.content = .instruction instruction) ∧
        ∀ bytes, entry.text ≠ dataText bytes) ∧
      ∀ symbols' head' cursor' mnemonic' operands',
        Accepted symbols' head' cursor' mnemonic' operands' [0xDD, 0x96, 0x00] →
          canonicalText mnemonic' operands' = canonicalText mnemonic operands :=
  @first_entry_of_accepted _ _ "SUB" _ ⟨[⟨.newLine, ⟨0, 11⟩⟩], ⟨0, 11⟩⟩
    (.instruction (.plain (.arith .sub (.cell (.memory (.indexed .ix 0))))))
    rfl (by decide) (by decide) (by rfl)

end Z80Toolchain
