import Z80Toolchain.Proofs.Assembly.Relocation
import Z80Toolchain.Proofs.Assembly.Retelling

/-!
Where tokens stand does not matter for what is assembled from them. If the tokens of a source are put
to other places, the code is the same, and every place in the result changes as the token did that it
comes from. It follows that symbols, patches and complaints have no places but those of tokens.
-/
namespace Z80Toolchain

/-- New places for tokens, such that the tokens of one line stay on one line. -/
structure Placing where
  place : Position → Position
  line : Nat → Nat
  keeps : ∀ position, (place position).line = line position.line

def Placing.retelling (placing : Placing) : Retelling :=
  ⟨placing.place, id, fun _ => rfl⟩

section

variable (placing : Placing)

def Symbol.placedBy (symbol : Symbol) : Symbol :=
  { symbol with position := placing.place symbol.position }

def Symbols.placedBy (symbols : Symbols) : Symbols :=
  ⟨symbols.entries.map (Symbol.placedBy placing)⟩

def Patch.placedBy (patch : Patch) : Patch :=
  { patch with position := placing.place patch.position }

def Line.placedBy (line : Line) : Line :=
  { line with line := placing.line line.line }

def Draft.placedBy (draft : Draft) : Draft where
  origin := draft.origin
  code := draft.code
  patches := draft.patches.map (Patch.placedBy placing)
  symbols := draft.symbols.placedBy placing
  lines := draft.lines.map (Line.placedBy placing)
  diagnostics := draft.diagnostics.map (Diagnostic.retold placing.retelling)

end

variable {placing : Placing}

@[simp] theorem Token.Kind.retold_retelling (kind : Token.Kind) :
    kind.retold placing.retelling = kind := by
  cases kind <;> rfl

theorem Diagnostic.retold_retelling (diagnostic : Diagnostic) :
    diagnostic.retold placing.retelling =
      { diagnostic with position := placing.place diagnostic.position } := by
  have kinds : Token.Kind.retold placing.retelling = id := funext Token.Kind.retold_retelling
  rw [retold, kinds, Option.map_id]
  rfl

theorem Token.retold_retelling (token : Token) :
    token.retold placing.retelling = ⟨token.kind, placing.place token.position⟩ := by
  rw [retold, Token.Kind.retold_retelling]
  rfl

/-! ### Symbols -/

namespace Symbols

variable (symbols : Symbols)

theorem find?_placed_by (name : String) :
    (symbols.placedBy placing).find? name = (symbols.find? name).map (Symbol.placedBy placing) := by
  rw [find?, placedBy, List.find?_map]
  rfl

theorem constant?_placed_by : (symbols.placedBy placing).constant? = symbols.constant? := by
  funext name
  rw [constant?, constant?, find?_placed_by]
  cases symbols.find? name <;> rfl

theorem value?_placed_by (name : String) :
    (symbols.placedBy placing).value? name = symbols.value? name := by
  rw [value?, value?, find?_placed_by]
  cases symbols.find? name <;> rfl

end Symbols

/-! ### The encode pass -/

namespace Draft

variable (draft : Draft) (head : Token) (cursor : Cursor)

theorem report_placed_by (diagnostic : Diagnostic) :
    (draft.placedBy placing).report (diagnostic.retold placing.retelling) =
      (draft.report diagnostic).placedBy placing := by
  simp [report, placedBy]

theorem with_symbol_placed_by (symbol : Symbol) :
    (draft.placedBy placing).withSymbol (symbol.placedBy placing) =
      (draft.withSymbol symbol).placedBy placing := by
  simp [withSymbol, placedBy, Symbols.placedBy]

theorem find?_placed_by (name : String) :
    (draft.placedBy placing).symbols.find? name =
      (draft.symbols.find? name).map (Symbol.placedBy placing) :=
  draft.symbols.find?_placed_by name

theorem constant?_placed_by :
    (draft.placedBy placing).symbols.constant? = draft.symbols.constant? :=
  draft.symbols.constant?_placed_by

theorem label_placed_by (name : String) :
    (draft.placedBy placing).label (head.retold placing.retelling) name =
      (draft.label head name).placedBy placing := by
  cases found : draft.symbols.find? name with
  | none =>
    have fresh : (draft.placedBy placing).symbols.find? name = none := by
      rw [find?_placed_by, found, Option.map_none]
    rw [label_of_fresh found, label_of_fresh fresh, ← with_symbol_placed_by]
    rfl
  | some symbol =>
    have taken : draft.symbols.find? name ≠ none := by simp [found]
    have again : (draft.placedBy placing).symbols.find? name ≠ none := by
      simp [find?_placed_by, found]
    rw [label_of_taken taken, label_of_taken again, ← report_placed_by]
    rfl

theorem end_of_line_retold :
    endOfLine (cursor.retold placing.retelling) = placing.retelling.result id (endOfLine cursor) := by
  unfold endOfLine
  rw [cursor.at_line_end_retold]
  split
  · rfl
  · rw [cursor.complain_retold]
    rfl

theorem constant_placed_by (name : String) :
    (draft.placedBy placing).constant (head.retold placing.retelling) name
        (cursor.retold placing.retelling) =
      placing.retelling.result (placedBy placing) (draft.constant head name cursor) := by
  have read := @Expression.retells_parse placing.retelling draft.symbols false cursor
  unfold constant
  rw [Expression.parse_congr draft.constant?_placed_by false, read]
  rcases Expression.parse draft.symbols false cursor with ⟨diagnostic | expression, after⟩
  · rfl
  · cases expression with
    | symbol label addend => exact congrArg Except.error (after.complain_retold _)
    | value number =>
      refine Retelling.result_bind (end_of_line_retold after) fun _ => ?_
      cases found : draft.symbols.find? name with
      | none =>
        simp only [Symbols.define, find?_placed_by, found, Option.map_none]
        exact congrArg Except.ok
          (with_symbol_placed_by draft ⟨name, .constant, number, head.position⟩)
      | some symbol =>
        simp only [Symbols.define, find?_placed_by, found, Option.map_some]
        rfl

theorem emit_placed_by (encoding : Encoding) :
    (draft.placedBy placing).emit (head.retold placing.retelling)
        ⟨encoding.bytes, encoding.references.map (Reference.retold placing.retelling)⟩ =
      (draft.emit head encoding).placedBy placing := by
  have patches : (encoding.references.map (Reference.retold placing.retelling)).map
      (Patch.ofReference draft.origin draft.code.size) =
      (encoding.references.map (Patch.ofReference draft.origin draft.code.size)).map
        (Patch.placedBy placing) := by
    rw [List.map_map, List.map_map]
    rfl
  have line : (head.retold placing.retelling).position.line = placing.line head.position.line :=
    placing.keeps head.position
  have bytes : placed ⟨encoding.bytes, encoding.references.map (Reference.retold placing.retelling)⟩
      ((encoding.references.map (Patch.ofReference draft.origin draft.code.size)).map
        (Patch.placedBy placing)) draft.code.size =
      placed encoding (encoding.references.map (Patch.ofReference draft.origin draft.code.size))
        draft.code.size := by
    rw [placed, List.foldl_map]
    rfl
  simp only [emit, placedBy, patches, line, bytes, mk.injEq, true_and, and_true]
  refine ⟨?_, by simp [Line.placedBy]⟩
  apply Array.toList_inj.mp
  simp

theorem append_placed_by (encoding : Encoding) :
    (draft.placedBy placing).append (head.retold placing.retelling)
        ⟨encoding.bytes, encoding.references.map (Reference.retold placing.retelling)⟩ =
      placing.retelling.result (placedBy placing) (draft.append head encoding) := by
  have limit : (draft.placedBy placing).limit
      ⟨encoding.bytes, encoding.references.map (Reference.retold placing.retelling)⟩ =
      draft.limit encoding := rfl
  by_cases fits : draft.limit encoding ≤ Address.space
  · rw [append_of_fits fits, append_of_fits (limit ▸ fits), emit_placed_by]
    rfl
  · rw [append_of_exceeds fits, append_of_exceeds (limit ▸ fits), limit]
    rfl

theorem instruction_placed_by :
    (draft.placedBy placing).instruction (head.retold placing.retelling)
        (cursor.retold placing.retelling) =
      placing.retelling.result (placedBy placing) (draft.instruction head cursor) := by
  have read := @Statement.retells_parse placing.retelling draft.symbols head cursor
  unfold instruction
  rw [Statement.parse_congr draft.constant?_placed_by, read]
  rcases Statement.parse draft.symbols head cursor with ⟨diagnostic | statement, after⟩
  · rfl
  · refine Retelling.result_bind (end_of_line_retold after) fun _ => ?_
    rw [Statement.encoding_retold]
    exact append_placed_by draft head statement.encoding

theorem statement_placed_by :
    (draft.placedBy placing).statement (head.retold placing.retelling)
        (cursor.retold placing.retelling) =
      placing.retelling.result (placedBy placing) (draft.statement head cursor) := by
  have kind : (head.retold placing.retelling).kind = head.kind := head.kind.retold_retelling
  unfold statement
  rw [kind]
  split
  · exact constant_placed_by draft head cursor _
  · exact instruction_placed_by draft head cursor
  · rfl
  · rfl

theorem try_statement_placed_by :
    (draft.placedBy placing).tryStatement (head.retold placing.retelling)
        (cursor.retold placing.retelling) =
      (draft.tryStatement head cursor).placedBy placing := by
  unfold tryStatement
  rw [statement_placed_by]
  cases draft.statement head cursor with
  | ok after => rfl
  | error diagnostic =>
    have same : (diagnostic.retold placing.retelling).isFollowUp = diagnostic.isFollowUp := by
      obtain ⟨position, cause, token⟩ := diagnostic
      cases token <;> simp [Diagnostic.isFollowUp, Diagnostic.retold]
    simp only [Retelling.result, same]
    split
    · rfl
    · exact report_placed_by draft diagnostic

theorem behind_placed_by :
    (draft.placedBy placing).behind (head.retold placing.retelling)
        (cursor.retold placing.retelling) =
      (draft.behind head cursor).retold placing.retelling := by
  have kind : (head.retold placing.retelling).kind = head.kind := head.kind.retold_retelling
  unfold behind
  rw [kind, Expression.parse_congr draft.constant?_placed_by false,
    Statement.parse_congr draft.constant?_placed_by,
    Expression.retells_parse draft.symbols false cursor,
    Statement.retells_parse draft.symbols head cursor]
  split <;> rfl

theorem run_up_to_placed_by (count : Nat) :
    runUpTo count (draft.placedBy placing) (cursor.retold placing.retelling) =
      (runUpTo count draft cursor).placedBy placing := by
  induction count generalizing draft cursor with
  | zero => rfl
  | succ count induction =>
    obtain ⟨ahead, final⟩ := cursor
    cases ahead with
    | nil => rfl
    | cons token rest =>
      have kind : (token.retold placing.retelling).kind = token.kind := token.kind.retold_retelling
      simp only [runUpTo, Cursor.retold, List.map_cons, kind]
      split
      · exact induction draft ⟨rest, final⟩
      · rw [label_placed_by]
        exact induction _ ⟨rest, final⟩
      · change runUpTo count ((draft.placedBy placing).tryStatement (token.retold placing.retelling)
          ((Cursor.mk rest final).retold placing.retelling)) ((draft.placedBy placing).behind
            (token.retold placing.retelling) ((Cursor.mk rest final).retold placing.retelling)).skipLine = _
        rw [try_statement_placed_by, behind_placed_by, Cursor.skip_line_retold]
        exact induction _ _

/-- The encode pass on tokens that were put to other places. -/
theorem run_placed_by (tokens : List Token) :
    (draft.placedBy placing).run (tokens.map (Token.retold placing.retelling)) =
      (draft.run tokens).placedBy placing := by
  cases tokens with
  | nil => rfl
  | cons token rest =>
    have start : Cursor.ofTokens ((token :: rest).map (Token.retold placing.retelling)) =
        (Cursor.ofTokens (token :: rest)).retold placing.retelling := by
      simp only [Cursor.ofTokens, Cursor.retold, List.getLast?_map, Cursor.mk.injEq, true_and]
      cases last : (token :: rest).getLast? with
      | none => simp at last
      | some token => rfl
    rw [run, start, List.length_map]
    exact run_up_to_placed_by draft _ _

end Draft

/-! ### Patches -/

namespace Patch

theorem edit_placed_by (symbols : Symbols) (patch : Patch) :
    (patch.placedBy placing).edit (symbols.placedBy placing) =
      placing.retelling.result id (patch.edit symbols) := by
  have named : (patch.placedBy placing).name = patch.name := rfl
  unfold edit
  rw [named, symbols.value?_placed_by]
  cases symbols.value? patch.name with
  | none => rfl
  | some value =>
    have wide : (patch.placedBy placing).width = patch.width := rfl
    have added : (patch.placedBy placing).addend = patch.addend := rfl
    simp only [editFor, wide, added]
    cases patch.width with
    | absolute =>
      dsimp only
      split <;> rfl
    | relative =>
      dsimp only
      split <;> rfl

theorem resolve_placed_by (symbols : Symbols) (code : Array UInt8) (patches : List Patch) :
    resolve (symbols.placedBy placing) code (patches.map (Patch.placedBy placing)) =
      ((resolve symbols code patches).1,
        (resolve symbols code patches).2.map (Diagnostic.retold placing.retelling)) := by
  induction patches generalizing code with
  | nil => rfl
  | cons patch rest induction =>
    rw [List.map_cons, resolve, resolve, edit_placed_by]
    cases patch.edit symbols with
    | ok edit => exact induction _
    | error diagnostic =>
      simp only [Retelling.result, induction]
      rfl

end Patch

/-! ### Scanned sources -/

/-- What is known of a source before the encode pass: what is wrong with its directives and with its
tokens, and the tokens. -/
structure Scan where
  directives : List Diagnostic
  faults : List Diagnostic
  tokens : List Token

def Expansion.scan (expansion : Expansion) : Scan :=
  ⟨expansion.diagnostics, expansion.lexicalFaults, expansion.tokens⟩

namespace Scan

variable (scan : Scan) (origin : UInt16)

def draft : Draft :=
  (Draft.start origin).run scan.tokens

def resolved : Array UInt8 × List Diagnostic :=
  Patch.resolve (scan.draft origin).symbols (scan.draft origin).code
    (scan.draft origin).patches.toList

def complaints : List Diagnostic :=
  scan.directives ++ scan.faults ++ (scan.draft origin).diagnostics.toList ++
    (scan.resolved origin).2

def assembly : Assembly where
  code := (scan.resolved origin).1
  diagnostics := (scan.complaints origin).mergeSort fun left right => left.position.le right.position
  symbols := (scan.draft origin).symbols
  resolved := (scan.draft origin).patches.size - (scan.resolved origin).2.length
  lines := (scan.draft origin).lines.toList

def placedBy (placing : Placing) : Scan :=
  ⟨scan.directives.map (Diagnostic.retold placing.retelling),
    scan.faults.map (Diagnostic.retold placing.retelling),
    scan.tokens.map (Token.retold placing.retelling)⟩

theorem draft_placed_by :
    (scan.placedBy placing).draft origin = (scan.draft origin).placedBy placing := by
  have start : Draft.start origin = (Draft.start origin).placedBy placing := by
    simp [Draft.start, Draft.placedBy, Symbols.placedBy, Symbols.empty]
  rw [draft, start]
  exact Draft.run_placed_by (.start origin) scan.tokens

theorem resolved_placed_by :
    (scan.placedBy placing).resolved origin =
      ((scan.resolved origin).1,
        (scan.resolved origin).2.map (Diagnostic.retold placing.retelling)) := by
  unfold resolved
  rw [draft_placed_by, ← Patch.resolve_placed_by]
  simp [Draft.placedBy]

theorem complaints_placed_by :
    (scan.placedBy placing).complaints origin =
      (scan.complaints origin).map (Diagnostic.retold placing.retelling) := by
  rw [complaints, draft_placed_by, resolved_placed_by]
  simp [complaints, placedBy, Draft.placedBy]

end Scan

theorem assemble_eq_scan (origin : UInt16) (source : List Char) :
    assemble origin source = (Expansion.ofSource source).scan.assembly origin := rfl

/-! ### Places of complaints -/

def Placing.keeping (positions : List Position) : Placing where
  place position := if position ∈ positions then position else ⟨position.line, position.column + 1⟩
  line := id
  keeps position := by
    split <;> rfl

theorem Placing.place_keeping {positions : List Position} {position : Position} :
    (keeping positions).place position = position ↔ position ∈ positions := by
  unfold keeping
  dsimp only
  split
  · next member => simp [member]
  · next other =>
    simp only [other, iff_false]
    intro same
    have column := congrArg Position.column same
    simp at column

namespace Scan

theorem placed_by_keeping (tokens : List Token) :
    (Scan.mk [] [] tokens).placedBy (.keeping (tokens.map Token.position)) = ⟨[], [], tokens⟩ := by
  have same : tokens.map (Token.retold (Placing.keeping (tokens.map Token.position)).retelling) =
      tokens.map id := by
    refine List.map_congr_left fun token member => ?_
    have stays : (Placing.keeping (tokens.map Token.position)).place token.position =
        token.position := Placing.place_keeping.mpr (List.mem_map_of_mem member)
    rw [Token.retold, Token.Kind.retold_retelling]
    exact congrArg (Token.mk token.kind) stays
  rw [List.map_id] at same
  simp only [placedBy, List.map_nil, same]

/-- Every complaint of the encode pass and of patching is at the place of a token. -/
theorem exists_token_of_complaint (scan : Scan) (origin : UInt16) {diagnostic : Diagnostic}
    (member : diagnostic ∈ scan.complaints origin) :
    diagnostic ∈ scan.directives ++ scan.faults ∨
      ∃ token ∈ scan.tokens, token.position = diagnostic.position := by
  have parts : scan.complaints origin =
      scan.directives ++ scan.faults ++ (Scan.mk [] [] scan.tokens).complaints origin := by
    simp [complaints, draft, resolved]
  rw [parts] at member
  rcases List.mem_append.mp member with earlier | late
  · exact .inl earlier
  · -- tokens that keep their places give the same complaints, so these keep theirs
    have again := @complaints_placed_by (.keeping (scan.tokens.map Token.position))
      ⟨[], [], scan.tokens⟩ origin
    rw [placed_by_keeping] at again
    have stays := List.map_inj_left.mp ((List.map_id _).trans again) diagnostic late
    have place := congrArg Diagnostic.position stays
    obtain ⟨token, found, same⟩ := List.mem_map.mp (Placing.place_keeping.mp place.symm)
    exact .inr ⟨token, found, same⟩

end Scan

end Z80Toolchain
