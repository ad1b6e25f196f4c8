import Z80Toolchain.Proofs.Assembly.Layout

/-!
One source at two origins. Reading a statement asks the symbol table for variables only, so two runs
whose labels lie a fixed distance apart take the same steps for as long as neither complains, and
emit the same encodings. What remains of the origin is in the values of labels and in the words that
hold them. Only sources that assemble without complaints at both origins are compared.
-/
namespace Z80Toolchain

/-! ### Reading depends on variables only -/

section

variable {symbols other : Symbols} (same : other.constant? = symbols.constant?)

include same

theorem Expression.term_congr : term other = term symbols := by
  funext cursor
  unfold term
  rw [same]

theorem Expression.chain_congr (sum : Int) :
    (chain other sum : Parse Int) = chain symbols sum := by
  have terms := term_congr same
  funext cursor
  fun_induction chain symbols sum cursor with
  | case1 sum cursor unsigned => exact chain_stop unsigned sum
  | case2 sum cursor sign signed diagnostic after read =>
    rw [chain_of_signed signed, terms, read]
  | case3 sum cursor sign signed number after read fits induction =>
    rw [chain_of_signed signed, terms, read]
    exact (if_pos fits).trans induction
  | case4 sum cursor sign signed number after read fits =>
    rw [chain_of_signed signed, terms, read]
    exact if_neg fits

theorem Expression.parse_congr (labels : Bool) : parse other labels = parse symbols labels := by
  unfold parse
  rw [term_congr same, chain_congr same 0]

theorem Argument.parse_congr : parse other = parse symbols := by
  unfold parse Operand.startingWith Operand.enclosed Operand.indexedBy Operand.distance
  rw [Expression.parse_congr same true, Expression.parse_congr same false]

theorem Selection.parse_congr : Selection.parse other = Selection.parse symbols := by
  funext mnemonic
  cases mnemonic <;>
    simp only [Selection.parse, ofOne, ofTwo, ofOneOrTwo, ofNoneOrOne, two, oneOrTwo, noneOrOne,
      Argument.parse_congr same]

/-- A statement reads in the same way whatever the labels are. -/
theorem Statement.parse_congr : Statement.parse other = Statement.parse symbols := by
  funext head
  unfold Statement.parse parseNamed byteItem byteNumber wordItem
  rw [Argument.parse_congr same, Selection.parse_congr same]

end

/-! ### Moved symbols -/

/-- A label moves with the code, a variable stays. -/
def Symbol.moved (distance : Int) (symbol : Symbol) : Symbol :=
  match symbol.kind with
  | .label => { symbol with value := Address.wrapped (symbol.value + distance) }
  | .constant => symbol

theorem Symbol.name_moved (distance : Int) (symbol : Symbol) :
    (symbol.moved distance).name = symbol.name := by
  unfold moved
  split <;> rfl

namespace Symbols

def moved (distance : Int) (symbols : Symbols) : Symbols :=
  ⟨symbols.entries.map (Symbol.moved distance)⟩

def IsLabel (symbols : Symbols) (name : String) : Prop :=
  (symbols.find? name).map Symbol.kind = some .label

instance (symbols : Symbols) : DecidablePred symbols.IsLabel :=
  fun name => inferInstanceAs (Decidable ((symbols.find? name).map Symbol.kind = some .label))

variable (distance : Int) (symbols : Symbols)

theorem find?_moved (name : String) :
    (symbols.moved distance).find? name = (symbols.find? name).map (Symbol.moved distance) := by
  have same : (fun symbol : Symbol => symbol.name == name) ∘ Symbol.moved distance =
      fun symbol => symbol.name == name :=
    funext fun symbol => by rw [Function.comp_apply, Symbol.name_moved]
  rw [find?, moved, List.find?_map, same]
  rfl

theorem constant?_moved : (symbols.moved distance).constant? = symbols.constant? := by
  funext name
  unfold constant?
  rw [find?_moved]
  cases symbols.find? name with
  | none => rfl
  | some symbol =>
    cases kind : symbol.kind <;> simp [Symbol.moved, kind]

theorem value?_moved_of_label {symbols : Symbols} {name : String} (label : symbols.IsLabel name) :
    ∃ value, symbols.value? name = some value ∧
      (symbols.moved distance).value? name = some (Address.wrapped (value + distance)) := by
  obtain ⟨symbol, found, kind⟩ := Option.map_eq_some_iff.mp label
  refine ⟨symbol.value, ?_, ?_⟩
  · rw [value?, found, Option.map_some]
  · rw [value?, find?_moved, found]
    simp [Symbol.moved, kind]

theorem value?_moved_of_not_label {symbols : Symbols} {name : String}
    (other : ¬ symbols.IsLabel name) :
    (symbols.moved distance).value? name = symbols.value? name := by
  rw [value?, value?, find?_moved]
  cases found : symbols.find? name with
  | none => rfl
  | some symbol =>
    cases kind : symbol.kind with
    | label => exact absurd (Option.map_eq_some_iff.mpr ⟨symbol, found, kind⟩) other
    | constant => simp [Symbol.moved, kind]

/-- Defining a symbol and moving the table can be exchanged. -/
theorem define_moved (symbol : Symbol) :
    (symbols.moved distance).define (symbol.moved distance) =
      (symbols.define symbol).map (moved distance) := by
  unfold define
  rw [find?_moved, Symbol.name_moved]
  cases symbols.find? symbol.name with
  | none => simp [moved, Except.map]
  | some found => rfl

end Symbols

/-! ### Two runs in step -/

namespace Draft

/-- The same code so far, at origins that lie a distance apart. -/
structure Relocated (distance : Int) (draft other : Draft) : Prop where
  origin : (other.origin.toNat : Int) = draft.origin.toNat + distance
  size : other.code.size = draft.code.size
  symbols : other.symbols = draft.symbols.moved distance

variable {distance : Int} {draft other : Draft}

theorem Relocated.constant? (related : Relocated distance draft other) :
    other.symbols.constant? = draft.symbols.constant? := by
  rw [related.symbols, Symbols.constant?_moved]

theorem Relocated.report (related : Relocated distance draft other) (first second : Diagnostic) :
    Relocated distance (draft.report first) (other.report second) :=
  ⟨related.origin, related.size, related.symbols⟩

theorem Relocated.label (related : Relocated distance draft other) (token : Token) (name : String) :
    Relocated distance (draft.label token name) (other.label token name) := by
  have address : Address.wrapped (other.address - 1) =
      Address.wrapped (Address.wrapped (draft.address - 1) + distance) := by
    have origin := related.origin
    have turns := Address.dvd_sub_wrapped (draft.address - 1)
    have here := Address.dvd_sub_wrapped (draft.origin.toNat + draft.code.size)
    have there := Address.dvd_sub_wrapped (other.origin.toNat + other.code.size)
    rw [← Address.of_offset_eq] at here there
    rw [related.size] at there
    refine Address.wrapped_congr ?_
    simp only [Draft.address, related.size] at turns ⊢
    omega
  have moved := Symbols.define_moved distance draft.symbols
    ⟨name, .label, Address.wrapped (draft.address - 1), token.position⟩
  simp only [Symbol.moved] at moved
  unfold Draft.label
  rw [related.symbols, address, moved]
  cases draft.symbols.define ⟨name, .label, Address.wrapped (draft.address - 1), token.position⟩ with
  | ok symbols => exact ⟨related.origin, related.size, rfl⟩
  | error cause => exact related.report _ _

/-- How a statement fares in both runs: alike, or one of them complains about the end of memory. -/
inductive Together (distance : Int) (left right : Except Diagnostic Draft) : Prop
  | refused (diagnostic : Diagnostic) (first : left = .error diagnostic)
      (second : right = .error diagnostic)
  | accepted {after otherAfter : Draft} (first : left = .ok after) (second : right = .ok otherAfter)
      (related : Relocated distance after otherAfter)
  | overflow (diagnostic : Diagnostic) (loud : diagnostic.isFollowUp = false)
      (either : left = .error diagnostic ∨ right = .error diagnostic)

theorem constant_together (related : Relocated distance draft other) (head : Token) (name : String)
    (cursor : Cursor) :
    Together distance (draft.constant head name cursor) (other.constant head name cursor) := by
  unfold constant
  rw [Expression.parse_congr related.constant?]
  obtain ⟨result, after⟩ := Expression.parse draft.symbols false cursor
  match result with
  | .error diagnostic => exact .refused diagnostic rfl rfl
  | .ok (.symbol _ _) => exact .refused _ rfl rfl
  | .ok (.value number) =>
    have moved := Symbols.define_moved distance draft.symbols ⟨name, .constant, number, head.position⟩
    simp only [Symbol.moved, ← related.symbols] at moved
    simp only [moved]
    cases endOfLine after with
    | error diagnostic => exact .refused diagnostic rfl rfl
    | ok ended =>
      cases draft.symbols.define ⟨name, .constant, number, head.position⟩ with
      | error cause => exact .refused _ rfl rfl
      | ok symbols => exact .accepted rfl rfl ⟨related.origin, related.size, rfl⟩

theorem Relocated.emit (related : Relocated distance draft other) (head : Token)
    (encoding : Encoding) :
    Relocated distance (draft.emit head encoding) (other.emit head encoding) := by
  refine ⟨related.origin, ?_, related.symbols⟩
  rw [size_emit, size_emit, related.size]

theorem instruction_together (related : Relocated distance draft other) {head : Token}
    {word : String} (kind : head.kind = .text word) (cursor : Cursor) :
    Together distance (draft.instruction head cursor) (other.instruction head cursor) := by
  have loud : ∀ limit, (Diagnostic.atToken head (.addressOverflow limit)).isFollowUp = false := by
    intro limit
    simp [Diagnostic.atToken, Diagnostic.isFollowUp, kind]
  have alike := congrFun (congrFun (Statement.parse_congr related.constant?) head) cursor
  cases read : Statement.parse draft.symbols head cursor with
  | mk result after =>
  rw [read] at alike
  cases result with
  | error diagnostic =>
    exact .refused diagnostic (by simp only [instruction, read]) (by simp only [instruction, alike])
  | ok statement =>
    rw [instruction_of_read read, instruction_of_read alike]
    split
    · by_cases fits : draft.limit statement.encoding ≤ Address.space
      · by_cases otherFits : other.limit statement.encoding ≤ Address.space
        · exact .accepted (append_of_fits fits head) (append_of_fits otherFits head)
            (related.emit head statement.encoding)
        · exact .overflow _ (loud _) (.inr (append_of_exceeds otherFits head))
      · exact .overflow _ (loud _) (.inl (append_of_exceeds fits head))
    · exact .refused _ rfl rfl

theorem statement_together (related : Relocated distance draft other) (head : Token)
    (cursor : Cursor) :
    Together distance (draft.statement head cursor) (other.statement head cursor) := by
  cases kind : head.kind with
  | atName name =>
    simp only [statement, kind]
    exact constant_together related head name cursor
  | text word =>
    simp only [statement, kind]
    exact instruction_together related kind cursor
  | bad text =>
    simp only [statement, kind]
    exact .accepted rfl rfl related
  | _ =>
    simp only [statement, kind]
    exact .refused _ rfl rfl

theorem try_statement_of_error {head : Token} {cursor : Cursor} {diagnostic : Diagnostic}
    (refused : draft.statement head cursor = .error diagnostic) :
    draft.tryStatement head cursor =
      if diagnostic.isFollowUp then draft else draft.report diagnostic := by
  simp only [tryStatement, refused]

theorem try_statement_relocated (related : Relocated distance draft other) {head : Token}
    {cursor : Cursor} (clean : (draft.tryStatement head cursor).diagnostics = #[])
    (otherClean : (other.tryStatement head cursor).diagnostics = #[]) :
    Relocated distance (draft.tryStatement head cursor) (other.tryStatement head cursor) ∧
      other.emitted head cursor = draft.emitted head cursor := by
  have parsed := congrFun (congrFun (Statement.parse_congr related.constant?) head) cursor
  cases statement_together related head cursor with
  | refused diagnostic first second =>
    constructor
    · rw [try_statement_of_error first, try_statement_of_error second]
      split
      · exact related
      · exact related.report _ _
    · simp only [emitted, first, second]
  | accepted first second after =>
    constructor
    · simpa only [tryStatement, first, second] using after
    · simp only [emitted, first, second, parsed, related.size]
      obtain ⟨_ | statement, _⟩ := Statement.parse draft.symbols head cursor <;> rfl
  | overflow diagnostic loud either =>
    rcases either with first | second
    · simp [try_statement_of_error first, loud, report] at clean
    · simp [try_statement_of_error second, loud, report] at otherClean

theorem line_from_relocated (final : Position) {tokens : List Token}
    (related : Relocated distance draft other)
    (clean : (draft.lineFrom final tokens).diagnostics = #[])
    (otherClean : (other.lineFrom final tokens).diagnostics = #[]) :
    Relocated distance (draft.lineFrom final tokens) (other.lineFrom final tokens) ∧
      other.emittedFrom final tokens = draft.emittedFrom final tokens := by
  induction tokens generalizing draft other with
  | nil => exact ⟨related, rfl⟩
  | cons token rest induction =>
    cases kind : token.kind with
    | newLine =>
      simp only [lineFrom, emittedFrom, kind, and_true]
      exact related
    | label name =>
      simp only [lineFrom, emittedFrom, kind] at clean otherClean ⊢
      exact induction (related.label token name) clean otherClean
    | _ =>
      simp only [lineFrom, emittedFrom, kind] at clean otherClean ⊢
      exact try_statement_relocated related clean otherClean

/-- Two clean runs over the same lines emit the same, at origins that stay a distance apart. -/
theorem foldl_line_relocated {lines : List (List Token)} (related : Relocated distance draft other)
    (clean : (lines.foldl line draft).diagnostics = #[])
    (otherClean : (lines.foldl line other).diagnostics = #[]) :
    Relocated distance (lines.foldl line draft) (lines.foldl line other) ∧
      other.emissions lines = draft.emissions lines := by
  induction lines generalizing draft other with
  | nil => exact ⟨related, rfl⟩
  | cons tokens rest induction =>
    -- what one line leaves behind is clean because the rest of the run is
    have here := (foldl_line_steps (draft.line tokens) rest).clean clean
    have otherHere := (foldl_line_steps (other.line tokens) rest).clean otherClean
    obtain ⟨after, emitted⟩ := line_from_relocated _ related here otherHere
    obtain ⟨final, later⟩ := induction after clean otherClean
    refine ⟨final, ?_⟩
    rw [emissions, emissions, emitted]
    exact congrArg _ later

end Draft

/-! ### Two assemblies -/

theorem Expansion.draft_relocated (expansion : Expansion) {first second : UInt16}
    (clean : (expansion.draft first).diagnostics = #[])
    (otherClean : (expansion.draft second).diagnostics = #[]) :
    Draft.Relocated (second.toNat - first.toNat) (expansion.draft first) (expansion.draft second) ∧
      expansion.emissions second = expansion.emissions first := by
  have start : Draft.Relocated (second.toNat - first.toNat) (.start first) (.start second) := by
    refine ⟨?_, rfl, rfl⟩
    simp only [Draft.start]
    omega
  rw [draft_eq_foldl] at clean otherClean ⊢
  rw [draft_eq_foldl]
  exact Draft.foldl_line_relocated start clean otherClean

theorem of_int_to_nat_sub (first second : UInt16) :
    UInt16.ofInt (second.toNat - first.toNat) = second - first := by
  have bound := first.toNat_lt
  have otherBound := second.toNat_lt
  rw [← UInt16.toNat_inj, to_nat_word_of_int, UInt16.toNat_sub]
  omega

namespace Reference

variable {origin : UInt16} {symbols : Symbols} {fixup : Reference} {bytes : List UInt8} {value : Int}

theorem final_of_absolute (wide : fixup.width = .absolute)
    (found : symbols.value? fixup.name = some value)
    (resolved : fixup.resolution origin symbols = .ok bytes) :
    fixup.final origin symbols = wordBytes (UInt16.ofInt (value + fixup.addend)) := by
  rw [final, resolved]
  simp only [resolution, found, wide] at resolved
  split at resolved <;> cases resolved
  rfl

theorem final_of_relative (narrow : fixup.width = .relative)
    (found : symbols.value? fixup.name = some value)
    (resolved : fixup.resolution origin symbols = .ok bytes) :
    fixup.final origin symbols =
      [UInt8.ofInt (value + (fixup.addend - (origin.toNat + fixup.offset + 1)))] := by
  rw [final, resolved]
  simp only [resolution, found, narrow] at resolved
  split at resolved <;> cases resolved
  simp only [UInt8.ofInt_add, baseline, Address.of_int_wrapped]

theorem exists_value_of_resolution (resolved : fixup.resolution origin symbols = .ok bytes) :
    ∃ value, symbols.value? fixup.name = some value := by
  cases found : symbols.value? fixup.name with
  | none => simp [resolution, found] at resolved
  | some value => exact ⟨value, rfl⟩

variable {first second : UInt16} {otherBytes : List UInt8}

/-- The word of a label moves with the origin. -/
theorem final_moved_of_label (wide : fixup.width = .absolute) (label : symbols.IsLabel fixup.name)
    (resolved : fixup.resolution first symbols = .ok bytes)
    (otherResolved : fixup.resolution second (symbols.moved (second.toNat - first.toNat)) =
      .ok otherBytes) :
    ∃ word, fixup.final first symbols = wordBytes word ∧
      fixup.final second (symbols.moved (second.toNat - first.toNat)) =
        wordBytes (word + (second - first)) := by
  obtain ⟨value, found, moved⟩ := symbols.value?_moved_of_label (second.toNat - first.toNat) label
  refine ⟨_, final_of_absolute wide found resolved, ?_⟩
  rw [final_of_absolute wide moved otherResolved, ← of_int_to_nat_sub, UInt16.ofInt_add,
    Address.of_int_wrapped_word, ← UInt16.ofInt_add, ← UInt16.ofInt_add]
  congr 2
  omega

/-- The word of a variable stays. -/
theorem final_moved_of_constant (wide : fixup.width = .absolute)
    (constant : ¬ symbols.IsLabel fixup.name)
    (resolved : fixup.resolution first symbols = .ok bytes)
    (otherResolved : fixup.resolution second (symbols.moved (second.toNat - first.toNat)) =
      .ok otherBytes) :
    fixup.final second (symbols.moved (second.toNat - first.toNat)) =
      fixup.final first symbols := by
  obtain ⟨value, found⟩ := exists_value_of_resolution resolved
  have moved := (Symbols.value?_moved_of_not_label (second.toNat - first.toNat) constant).trans found
  rw [final_of_absolute wide found resolved, final_of_absolute wide moved otherResolved]

/-- The distance to a label stays. -/
theorem final_moved_of_relative (narrow : fixup.width = .relative)
    (label : symbols.IsLabel fixup.name)
    (resolved : fixup.resolution first symbols = .ok bytes)
    (otherResolved : fixup.resolution second (symbols.moved (second.toNat - first.toNat)) =
      .ok otherBytes) :
    fixup.final second (symbols.moved (second.toNat - first.toNat)) =
      fixup.final first symbols := by
  obtain ⟨value, found, moved⟩ := symbols.value?_moved_of_label (second.toNat - first.toNat) label
  rw [final_of_relative narrow found resolved, final_of_relative narrow moved otherResolved,
    UInt8.ofInt_add, Address.of_int_wrapped, ← UInt8.ofInt_add]
  congr 2
  omega

end Reference

def Line.moved (distance : UInt16) (line : Line) : Line :=
  { line with address := line.address + distance }

theorem Emission.line_moved (first second : UInt16) (emission : Emission) :
    emission.line second = (emission.line first).moved (second - first) := by
  have bound := first.toNat_lt
  have otherBound := second.toNat_lt
  have address : UInt16.ofNat (second.toNat + emission.start) =
      UInt16.ofNat (first.toNat + emission.start) + (second - first) := by
    rw [← UInt16.toNat_inj, UInt16.toNat_add, UInt16.toNat_sub, UInt16.toNat_ofNat',
      UInt16.toNat_ofNat']
    omega
  simp only [Emission.line, Line.moved, address]

theorem StandsAt.get_elem?_eq {code bytes : List UInt8} {offset index : Nat}
    (stands : StandsAt code offset bytes) (low : offset ≤ index)
    (high : index < offset + bytes.length) : code[index]? = bytes[index - offset]? := by
  have here := stands (index - offset) (by omega)
  rwa [Nat.add_sub_cancel' low] at here

namespace Expansion

/-- The drafts of one source at two origins: they differ in their labels only, and all labels can be
patched in at both. -/
structure Relocates (expansion : Expansion) (first second : UInt16) : Prop where
  related : Draft.Relocated (second.toNat - first.toNat) (expansion.draft first)
    (expansion.draft second)
  emissions : expansion.emissions second = expansion.emissions first
  resolved : ∀ fixup ∈ expansion.fixups first, ∃ bytes,
    fixup.resolution first (expansion.draft first).symbols = .ok bytes
  otherResolved : ∀ fixup ∈ expansion.fixups first, ∃ bytes, fixup.resolution second
    ((expansion.draft first).symbols.moved (second.toNat - first.toNat)) = .ok bytes

variable {expansion : Expansion} {first second : UInt16}

theorem relocates_of_clean
    (clean : (expansion.finish (expansion.draft first)).diagnostics = [])
    (otherClean : (expansion.finish (expansion.draft second)).diagnostics = []) :
    expansion.Relocates first second := by
  obtain ⟨encoded, resolved⟩ := expansion.clean_of_finish first clean
  obtain ⟨otherEncoded, otherResolved⟩ := expansion.clean_of_finish second otherClean
  obtain ⟨related, same⟩ := expansion.draft_relocated encoded otherEncoded
  rw [fixups, same, related.symbols] at otherResolved
  exact ⟨related, same, resolved, otherResolved⟩

namespace Relocates

variable (relocates : expansion.Relocates first second)

include relocates

theorem reserves : Reserves
    (Reference.final second ((expansion.draft first).symbols.moved (second.toNat - first.toNat)))
    (expansion.finish (expansion.draft second)).code.toList (expansion.fixups first) := by
  have held := expansion.finish_reserves second
  rwa [fixups, relocates.emissions, relocates.related.symbols] at held

theorem size_eq :
    (expansion.finish (expansion.draft second)).code.size =
      (expansion.finish (expansion.draft first)).code.size := by
  rw [finish_size, finish_size, relocates.emissions]

theorem lines_eq :
    (expansion.draft second).lines.toList =
      (expansion.draft first).lines.toList.map (Line.moved (second - first)) := by
  rw [(expansion.draft_holds second).lines, (expansion.draft_holds first).lines, draft_origin,
    draft_origin, relocates.emissions, List.map_map]
  exact List.map_congr_left fun emission _ => emission.line_moved first second

theorem word_moved {fixup : Reference} (member : fixup ∈ expansion.fixups first)
    (wide : fixup.width = .absolute)
    (label : (expansion.draft first).symbols.IsLabel fixup.name) :
    ∃ word, StandsAt (expansion.finish (expansion.draft first)).code.toList fixup.offset
        (wordBytes word) ∧
      StandsAt (expansion.finish (expansion.draft second)).code.toList fixup.offset
        (wordBytes (word + (second - first))) := by
  obtain ⟨bytes, resolved⟩ := relocates.resolved fixup member
  obtain ⟨otherBytes, otherResolved⟩ := relocates.otherResolved fixup member
  obtain ⟨word, here, there⟩ := Reference.final_moved_of_label wide label resolved otherResolved
  refine ⟨word, ?_, ?_⟩
  · rw [← here]
    exact (expansion.finish_reserves first).held fixup member
  · rw [← there]
    exact relocates.reserves.held fixup member

theorem final_eq {fixup : Reference} (member : fixup ∈ expansion.fixups first)
    (fixed : fixup.width = .absolute → ¬ (expansion.draft first).symbols.IsLabel fixup.name)
    (labels : fixup.width = .relative → (expansion.draft first).symbols.IsLabel fixup.name) :
    fixup.final second ((expansion.draft first).symbols.moved (second.toNat - first.toNat)) =
      fixup.final first (expansion.draft first).symbols := by
  obtain ⟨bytes, resolved⟩ := relocates.resolved fixup member
  obtain ⟨otherBytes, otherResolved⟩ := relocates.otherResolved fixup member
  cases width : fixup.width with
  | absolute => exact Reference.final_moved_of_constant width (fixed width) resolved otherResolved
  | relative => exact Reference.final_moved_of_relative width (labels width) resolved otherResolved

/-- A byte that belongs to no word of a label is the same at both origins. -/
theorem byte_eq
    (labels : ∀ fixup ∈ expansion.fixups first, fixup.width = .relative →
      (expansion.draft first).symbols.IsLabel fixup.name)
    {index : Nat}
    (outside : ∀ fixup ∈ expansion.fixups first, fixup.width = .absolute →
      (expansion.draft first).symbols.IsLabel fixup.name → ¬ fixup.Covers index) :
    (expansion.finish (expansion.draft second)).code.toList[index]? =
      (expansion.finish (expansion.draft first)).code.toList[index]? := by
  by_cases covered : ∃ fixup ∈ expansion.fixups first, fixup.Covers index
  · obtain ⟨fixup, member, covers⟩ := covered
    have same := relocates.final_eq member
      (fun wide label => outside fixup member wide label covers) (labels fixup member)
    have size := Reference.length_final first (expansion.draft first).symbols fixup
    have here := (expansion.finish_reserves first).held fixup member
    have there := relocates.reserves.held fixup member
    rw [same] at there
    obtain ⟨low, high⟩ := covers
    rw [here.get_elem?_eq low (by omega), there.get_elem?_eq low (by omega)]
  · have free : ∀ fixup ∈ expansion.fixups first, ¬ fixup.Covers index :=
      fun fixup member covers => covered ⟨fixup, member, covers⟩
    rw [expansion.finish_kept first free,
      expansion.finish_kept second (by rwa [fixups, relocates.emissions]), relocates.emissions]

end Relocates

end Expansion

/-- A label of modest code moves by the whole distance. -/
theorem label_moved_exactly {first second : UInt16} {source : List Char}
    (modest : (assemble first source).IsModest) {symbol : Symbol}
    (member : symbol ∈ (assemble first source).symbols.entries) (kind : symbol.kind = .label) :
    (symbol.moved (second.toNat - first.toNat)).value =
      symbol.value + (second.toNat - first.toNat) := by
  have fits := assemble_fits modest
  have inside := (assemble_tile first source).length_before_le symbol.position.line
  have value := assemble_label_exact modest member kind
  have bound := second.toNat_lt
  simp only [Address.space] at fits
  simp only [Symbol.moved, kind]
  exact Address.wrapped_of_fits (by omega) (by omega)

end Z80Toolchain
