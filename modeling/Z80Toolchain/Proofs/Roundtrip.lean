import Z80Toolchain.Proofs.Assembly.LineFold
import Z80Toolchain.Proofs.Assembly.ListedInstructions
import Z80Toolchain.Proofs.Machine.AddressWidth
import Z80Toolchain.Proofs.Source.PlainExpansion

/-!
Disassembling and assembling again gives back the binary. The entries of a disassembly tile the
binary; each line of the listing is read as the bytes of its entry, so the encode pass emits one
entry after the other, at the places where the entries stood. Nothing is assumed about the binary
but that it fits below the end of memory.
-/
namespace Z80Toolchain

/-! ### Entries tile the binary -/

/-- The entries cover these bytes from an offset on, one behind the other. -/
inductive Tiles : Nat → List Entry → List UInt8 → Prop
  | nil (offset : Nat) : Tiles offset [] []
  | cons {offset : Nat} {content : Decoded} {entries : List Entry} {rest : List UInt8} :
      content.WellFormed → Tiles (offset + content.bytes.length) entries rest →
        Tiles offset (⟨offset, content⟩ :: entries) (content.bytes ++ rest)

theorem disassemble_from_tiles (offset : Nat) (bytes : List UInt8) :
    Tiles offset (disassembleFrom offset bytes) bytes := by
  fun_induction disassembleFrom offset bytes with
  | case1 => exact .nil _
  | case2 offset bytes some missing =>
    have tile := @Tiles.cons offset (.data bytes) [] [] some (.nil _)
    rw [List.append_nil] at tile
    exact tile
  | case3 offset bytes some content rest found induction =>
    obtain ⟨wellFormed, covered⟩ := Decoded.bytes_of_read found
    rw [← covered]
    exact .cons wellFormed induction

/-! ### One line -/

theorem Decoded.lower_word (content : Decoded) : Text.lower content.word = content.word := by
  cases content with
  | data bytes =>
    rw [word]
    decide
  | instruction found =>
    rw [word]
    generalize found.mnemonic = mnemonic
    cases mnemonic with
    | implied operation => cases operation <;> decide
    | arith operation => cases operation <;> decide
    | shift operation => cases operation <;> decide
    | bit operation => cases operation <;> decide
    | _ => decide

def Decoded.lineKinds (content : Decoded) : List Token.Kind :=
  Z80Toolchain.lineKinds content.word (content.operands.map Operand.kinds)

namespace Draft

/-- A listed line emits the bytes of its entry. -/
theorem line_listed (draft : Draft) {content : Decoded} (wellFormed : content.WellFormed)
    {number : Nat} {tokens : List Token} (line : LineTokens number content.lineKinds tokens)
    (fits : draft.limit ⟨content.bytes, []⟩ ≤ Address.space) :
    ∃ head : Token, head.position.line = number ∧
      draft.line tokens = draft.emit head ⟨content.bytes, []⟩ := by
  obtain ⟨body, last, rfl, kinds, ends, placed⟩ := line
  obtain ⟨head, rest, rfl, named, others⟩ := List.map_eq_cons_iff.mp kinds
  refine ⟨head, placed head (by simp), ?_⟩
  generalize final : (Cursor.ofTokens (head :: rest ++ [last])).final = position
  obtain ⟨statement, read, encoded⟩ :=
    Statement.parse_named_listed wellFormed head others ends position
  have parsed : Statement.parse draft.symbols head ⟨rest ++ [last], position⟩ =
      (.ok statement, ⟨[last], position⟩) := by
    simp only [Statement.parse, named, content.lower_word]
    exact read
  have ended : (Cursor.mk [last] position).atLineEnd = true := by
    simp [Cursor.atLineEnd, ends, Token.Kind.endsLine]
  have emitted : draft.instruction head ⟨rest ++ [last], position⟩ =
      .ok (draft.emit head ⟨content.bytes, []⟩) := by
    rw [instruction_of_read parsed, if_pos ended, encoded, append_of_fits fits]
  rw [line, final, List.cons_append, lineFrom, named]
  simp only [tryStatement, Draft.statement, named, emitted]

/-! ### All lines -/

/-- What a listing adds to a draft: the bytes, and one line for each entry. -/
structure Listing (origin : UInt16) (number : Nat) (entries : List Entry) (bytes : List UInt8)
    (before after : Draft) : Prop where
  code : after.code.toList = before.code.toList ++ bytes
  lines : after.lines.toList = before.lines.toList ++ (entries.zipIdx number).map fun (entry, line) =>
    Line.mk line (UInt16.ofNat (origin.toNat + entry.offset)) entry.offset
      (entry.offset + entry.size)
  patches : after.patches = before.patches
  diagnostics : after.diagnostics = before.diagnostics

/-- The lines of a listing, one after the other, emit the bytes that their entries tile. -/
theorem foldl_line_listed {offset number : Nat} {entries : List Entry} {bytes : List UInt8}
    (tiles : Tiles offset entries bytes) {tokenLines : List (List Token)}
    (tokens : LinesTokens number (entries.map fun entry => entry.content.lineKinds) tokenLines)
    (draft : Draft) (atOffset : draft.code.size = offset)
    (fits : draft.origin.toNat + offset + bytes.length ≤ Address.space) :
    Listing draft.origin number entries bytes draft (tokenLines.foldl Draft.line draft) := by
  induction tiles generalizing number tokenLines draft with
  | nil offset =>
    cases tokens
    exact ⟨by simp, by simp, rfl, rfl⟩
  | @cons offset content entries rest wellFormed tiles induction =>
    obtain _ | ⟨line, others⟩ := tokens
    rw [List.length_append] at fits
    have inside : draft.limit ⟨content.bytes, []⟩ ≤ Address.space := by
      simp only [Address.space] at fits ⊢
      rw [limit, atOffset]
      dsimp only
      rw [Address.of_offset_of_lt (by omega)]
      omega
    obtain ⟨head, onLine, emitted⟩ := draft.line_listed wellFormed line inside
    rw [List.foldl_cons, emitted]
    have size : (draft.emit head ⟨content.bytes, []⟩).code.size = offset + content.bytes.length := by
      rw [← Array.length_toList]
      simp [emit, placed, atOffset]
    have later := induction others (draft.emit head ⟨content.bytes, []⟩) size
      (by show draft.origin.toNat + _ + _ ≤ _; omega)
    refine ⟨?_, ?_, later.patches.trans ?_, later.diagnostics⟩
    · rw [later.code]
      simp [emit, Draft.placed]
    · rw [later.lines]
      simp [emit, onLine, atOffset, Entry.size, Entry.bytes]
    · simp [emit]

end Draft

/-! ### The listing as a source -/

def listingText (entries : List Entry) : String :=
  String.intercalate "\n" (entries.map Entry.text)

theorem to_list_listing_text (entries : List Entry) :
    (listingText entries).toList = Text.joinLines (entries.map fun entry => entry.text.toList) := by
  induction entries with
  | nil => rfl
  | cons entry entries induction =>
    cases entries with
    | nil => simp [listingText, Text.joinLines]
    | cons next entries =>
      rw [listingText] at induction ⊢
      simp only [List.map_cons, String.intercalate_cons_cons, String.toList_append,
        Text.joinLines] at induction ⊢
      rw [induction]
      simp

theorem Tiles.well_formed {offset : Nat} {entries : List Entry} {bytes : List UInt8}
    (tiles : Tiles offset entries bytes) : ∀ entry ∈ entries, entry.content.WellFormed := by
  induction tiles with
  | nil => simp
  | cons first _ induction => exact List.forall_mem_cons.mpr ⟨first, induction⟩

theorem spells_lines_listing {entries : List Entry}
    (wellFormed : ∀ entry ∈ entries, entry.content.WellFormed) :
    SpellsLines (entries.map fun entry => entry.text.toList)
      (entries.map fun entry => entry.content.lineKinds) := by
  induction entries with
  | nil => exact .nil
  | cons entry entries induction =>
    have listed := Decoded.listed_text (wellFormed entry (by simp))
    have flat : '\n' ∉ entry.text.toList := fun feed => (listed.clean '\n' feed).1 rfl
    exact .cons listed.spells flat (List.cons_ne_nil _ _)
      (induction fun other member => wellFormed other (by simp [member]))

theorem new_line_not_mem_line_kinds (content : Decoded) :
    Token.Kind.newLine ∉ content.lineKinds := by
  intro feed
  rcases List.mem_cons.mp feed with word | operand
  · cases word
  · cases Operand.list_kinds_plain content.operands _ operand

/-- A draft that waits for no label is finished as it stands. -/
theorem Expansion.finish_of_no_patches {expansion : Expansion} {draft : Draft}
    (expanded : expansion.diagnostics = []) (lexed : expansion.lexicalFaults = [])
    (patches : draft.patches = #[]) (drafted : draft.diagnostics = #[]) :
    (expansion.finish draft).code = draft.code ∧ (expansion.finish draft).diagnostics = [] ∧
      (expansion.finish draft).lines = draft.lines.toList := by
  simp [finish, patches, Patch.resolve, expanded, lexed, drafted]

/-- The tokens of the lines of a text, none of which is a directive. -/
theorem assemble_lines {lines : List (List Char)} (some : lines ≠ [])
    (clean : ∀ line ∈ lines, Clean line) {kinds : List (List Token.Kind)}
    (spelled : SpellsLines lines kinds) (inside : ∀ line ∈ kinds, Token.Kind.newLine ∉ line)
    (origin : UInt16) :
    ∃ (expansion : Expansion) (tokenLines : List (List Token)), expansion.diagnostics = [] ∧
      expansion.lexicalFaults = [] ∧ LinesTokens 0 kinds tokenLines ∧
      assemble origin (Text.joinLines lines) =
        expansion.finish (tokenLines.foldl Draft.line (Draft.start origin)) := by
  have flat : ∀ line ∈ lines, '\n' ∉ line := fun line member feed =>
    (clean line member '\n' feed).1 rfl
  have normal : Text.normalize (Text.joinLines lines) = Text.joinLines lines := by
    refine Text.normalize_of_no_return fun c member => ?_
    rcases Text.mem_join_lines member with rfl | ⟨line, found, inLine⟩
    · decide
    · exact (clean line found c inLine).2.1
  have code : ∀ line ∈ Text.splitLines (Text.joinLines lines), IsCode line := by
    rw [Text.split_lines_join_lines some flat]
    intro line member percent
    exact (clean line member '%' (List.dropWhile_subset _ (List.mem_of_mem_head? percent))).2.2 rfl
  obtain ⟨expansion, expanded, tokens, faults, assembled⟩ := assemble_code normal code origin
  obtain ⟨tokenLines, lineTokens, flattened⟩ := tokens_from_lines spelled some 0 false
  have tokenized : tokenize (Text.joinLines lines) = tokenLines.flatten := by
    rw [tokenize, normal]
    exact flattened
  refine ⟨expansion, tokenLines, expanded, ?_, lineTokens, ?_⟩
  · rw [faults, lexicalFaults, normal]
    exact faults_from_lines spelled .start
  · rw [assembled, Expansion.draft_eq_foldl, tokens, tokenized, lines_flatten lineTokens inside]

/-- A source without text has one empty line. -/
theorem assemble_nil (origin : UInt16) :
    (assemble origin []).diagnostics = [] ∧ (assemble origin []).code = #[] ∧
      (assemble origin []).lines = [] := by
  have code : ∀ line ∈ Text.splitLines [], IsCode line := by
    simp [Text.splitLines, IsCode, Text.trimStart]
  obtain ⟨expansion, expanded, tokens, faults, assembled⟩ := assemble_code rfl code origin
  have draft : expansion.draft origin = Draft.start origin := by
    rw [Expansion.draft, tokens, tokenize, Text.normalize, lexemes_nil]
    rfl
  have lexed : expansion.lexicalFaults = [] := by
    rw [faults, lexicalFaults, Text.normalize, lexemes_nil]
    rfl
  obtain ⟨finalCode, finalDiagnostics, finalLines⟩ :=
    @Expansion.finish_of_no_patches expansion (Draft.start origin) expanded lexed rfl rfl
  rw [assembled, draft]
  exact ⟨finalDiagnostics, finalCode, finalLines⟩

/-- The listing of entries that tile a binary is assembled to the binary. -/
theorem assemble_listing {entries : List Entry} {bytes : List UInt8}
    (tiles : Tiles 0 entries bytes) {origin : UInt16}
    (fits : origin.toNat + bytes.length ≤ Address.space) :
    (assemble origin (listingText entries).toList).diagnostics = [] ∧
      (assemble origin (listingText entries).toList).code.toList = bytes ∧
      (assemble origin (listingText entries).toList).lines =
        entries.zipIdx.map fun (entry, line) =>
          ⟨line, UInt16.ofNat (origin.toNat + entry.offset), entry.offset,
            entry.offset + entry.size⟩ := by
  cases entries with
  | nil =>
    cases tiles
    obtain ⟨diagnostics, code, lines⟩ := assemble_nil origin
    have empty : (listingText []).toList = [] := rfl
    rw [empty, diagnostics, code, lines]
    exact ⟨rfl, rfl, rfl⟩
  | cons entry entries =>
    have wellFormed := tiles.well_formed
    have clean : ∀ line ∈ (entry :: entries).map fun entry => entry.text.toList, Clean line :=
      List.forall_mem_map.mpr fun entry member =>
        (Decoded.listed_text (wellFormed entry member)).clean
    have some : ((entry :: entries).map fun entry => entry.text.toList) ≠ [] := by simp
    obtain ⟨expansion, tokenLines, expanded, lexed, tokens, assembled⟩ :=
      assemble_lines some clean (spells_lines_listing wellFormed)
        (List.forall_mem_map.mpr fun entry _ => new_line_not_mem_line_kinds entry.content) origin
    have listing := Draft.foldl_line_listed tiles tokens (Draft.start origin) rfl fits
    obtain ⟨code, diagnostics, lines⟩ :=
      Expansion.finish_of_no_patches expanded lexed listing.patches listing.diagnostics
    rw [to_list_listing_text, assembled, code, diagnostics, lines, listing.code, listing.lines]
    exact ⟨rfl, rfl, rfl⟩

theorem Decoded.bytes_length_pos {content : Decoded} (wellFormed : content.WellFormed) :
    0 < content.bytes.length := by
  cases content with
  | data bytes => exact List.length_pos_iff.mpr wellFormed
  | instruction found =>
    have read := Instruction.read_encode wellFormed []
    rw [List.append_nil] at read
    exact Decoded.read_length_lt read

theorem Tiles.stop_le {offset : Nat} {entries : List Entry} {bytes : List UInt8}
    (tiles : Tiles offset entries bytes) :
    ∀ entry ∈ entries, entry.offset + entry.size ≤ offset + bytes.length ∧ 0 < entry.size := by
  induction tiles with
  | nil => simp
  | @cons offset content entries rest wellFormed _ induction =>
    have positive := Decoded.bytes_length_pos wellFormed
    rw [List.forall_mem_cons, List.length_append]
    refine ⟨⟨?_, positive⟩, fun entry member => ?_⟩
    · show offset + content.bytes.length ≤ _
      omega
    · have later := induction entry member
      omega

/-- Assembling the listing of any binary that fits into memory gives no diagnostics and the binary,
with one line for each entry: the entry number `k`, at the address and over the bytes of the entry. -/
theorem assemble_disassemble (origin : UInt16) (bytes : List UInt8)
    (fits : origin.toNat + bytes.length ≤ Address.space) :
    (assemble origin (listingText (disassemble bytes)).toList).diagnostics = [] ∧
      (assemble origin (listingText (disassemble bytes)).toList).code.toList = bytes ∧
      (assemble origin (listingText (disassemble bytes)).toList).lines.length =
        (disassemble bytes).length ∧
      ∀ k entry, (disassemble bytes)[k]? = some entry →
        ∃ line : Line,
          (assemble origin (listingText (disassemble bytes)).toList).lines[k]? = some line ∧
          line.line = k ∧ line.address.toNat = origin.toNat + entry.offset ∧
          line.start = entry.offset ∧ line.stop = entry.offset + entry.size := by
  have tiles := disassemble_from_tiles 0 bytes
  obtain ⟨diagnostics, code, lines⟩ := assemble_listing tiles fits
  refine ⟨diagnostics, code, ?_, ?_⟩
  · rw [disassemble, lines]
    simp
  · intro k entry found
    rw [disassemble] at found
    rw [disassemble, lines, List.getElem?_map, List.getElem?_zipIdx, found]
    refine ⟨_, rfl, by simp, ?_, rfl, rfl⟩
    have inside := tiles.stop_le entry (List.mem_of_getElem? found)
    rw [UInt16.toNat_ofNat_of_lt']
    simp only [Address.space] at fits
    simp only [UInt16.size]
    omega

/-- A binary that reaches the end of memory, with a negative distance, the longest forward jump and
an instruction that is cut short. -/
theorem assemble_disassemble_at_end :
    let bytes : List UInt8 := [0xDD, 0x36, 0xFE, 0x10, 0x18, 0x7F, 0xDD, 0xCB]
    (0xFFF8 : UInt16).toNat + bytes.length ≤ Address.space ∧
      (assemble 0xFFF8 (listingText (disassemble bytes)).toList).diagnostics = [] ∧
      (assemble 0xFFF8 (listingText (disassemble bytes)).toList).code.toList = bytes := by
  intro bytes
  have fits : (0xFFF8 : UInt16).toNat + bytes.length ≤ Address.space := by decide
  obtain ⟨diagnostics, code, -⟩ := assemble_disassemble 0xFFF8 bytes fits
  exact ⟨fits, diagnostics, code⟩

end Z80Toolchain
