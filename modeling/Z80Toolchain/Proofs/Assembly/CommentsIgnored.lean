import Z80Toolchain.Proofs.Assembly.LeadingTokens
import Z80Toolchain.Proofs.Assembly.LineScans
import Z80Toolchain.Proofs.Source.Comments

/-!
Comments do not matter for what is assembled, and neither do lines without tokens. What is scanned of
a line is scanned of the line with a comment too: only its end moves on, and with it the complaints
that stand there. Names in the comment should not be replaced. Where one is, and names in the line
stand for themselves, the line takes up columns that it did not need before, and complaints on the line
may then be sorted in another order.
-/
namespace Z80Toolchain

/-! ### Scans of a line with a comment -/

namespace Defines

/-- A comment can be put behind the line: no broken literal is open at its end. -/
structure Admits (defines : Defines) (line comment : List Char) : Prop where
  plain : defines.Plain
  flat : IsFlat line
  flatComment : IsFlat comment
  sound : ∀ lexeme ∈ lexemes (defines.expandLine line).text, ¬ lexeme.IsQuotedFault

variable {defines : Defines} {line comment : List Char} {stretch : Nat → Nat}

theorem Admits.along_line (admits : defines.Admits line comment) (code : IsCode line) {α : Type}
    {read : Position → Lexeme → Option α} (gap : ∀ position text, read position ⟨text, .gap⟩ = none)
    (number : Nat) :
    Lexeme.alongLine read number 0 (lexemes (defines.expandLine (line ++ ';' :: comment)).text) =
      Lexeme.alongLine read number 0 (lexemes (defines.expandLine line).text) := by
  have sound := admits.sound
  rw [defines.text_expand_line code] at sound ⊢
  rw [defines.text_expand_line (is_code_comment.mpr code)]
  exact along_line_expanded gap admits.plain admits.flat admits.flatComment sound number

theorem Stretches.place (stretches : defines.Stretches line comment stretch) (number : Nat)
    {column : Nat} (inside : column < (defines.expandLine line).text.length) :
    (Placing.onLine number stretch).place ⟨number, (defines.expandLine line).sourceColumn column⟩ =
      ⟨number, (defines.expandLine (line ++ ';' :: comment)).sourceColumn column⟩ :=
  (Placing.place_on_line rfl).trans (congrArg _ (stretches.follows column inside))

theorem source_column_end (code : IsCode line) :
    (defines.expandLine line).sourceColumn (defines.expandLine line).text.length = line.length :=
  (defines.traces_expand_line code).behind 0

theorem source_column_le (code : IsCode line) {column : Nat}
    (inside : column ≤ (defines.expandLine line).text.length) :
    (defines.expandLine line).sourceColumn column ≤ line.length := by
  rw [← @source_column_end defines line code]
  exact (defines.traces_expand_line code).ordered inside

theorem faults_comment (admits : defines.Admits line comment) (code : IsCode line)
    (stretches : defines.Stretches line comment stretch) (number : Nat) :
    (defines.expandLine (line ++ ';' :: comment)).faults number =
      ((defines.expandLine line).faults number).map
        (Diagnostic.retold (Placing.onLine number stretch).retelling) := by
  rw [ExpandedLine.faults, ExpandedLine.faults, Diagnostic.ofLine,
    admits.along_line code (fun _ _ => rfl), List.map_map]
  apply List.map_congr_left
  intro diagnostic member
  have inside := Diagnostic.column_lt_of_mem_of_line member
  rw [Function.comp_apply, Diagnostic.retold_retelling, stretches.place number inside]

theorem tokens_comment (admits : defines.Admits line comment) (code : IsCode line)
    (stretches : defines.Stretches line comment stretch) (number : Nat) :
    (defines.expandLine (line ++ ';' :: comment)).tokens number =
      ((defines.expandLine line).tokens number).map
        (Token.retold (Placing.onLine number stretch).retelling) := by
  have inLine (token : Token)
      (member : token ∈ Lexeme.alongLine Lexeme.token? number 0
        (lexemes (defines.expandLine line).text)) :
      (⟨token.kind, ⟨number, (defines.expandLine (line ++ ';' :: comment)).sourceColumn
        token.position.column⟩⟩ : Token) =
        Token.retold (Placing.onLine number stretch).retelling
          ⟨token.kind, ⟨number, (defines.expandLine line).sourceColumn token.position.column⟩⟩ := by
    obtain ⟨before, lexeme, after, cut, read⟩ := Lexeme.exists_of_mem_along_line member
    have inside : token.position.column < (defines.expandLine line).text.length := by
      rw [(Lexeme.token?_place read .start).1, Nat.zero_add]
      exact (Lexeme.head?_of_cut cut).1
    rw [Token.retold_retelling, stretches.place number inside]
  have length : stretch line.length = (line ++ ';' :: comment).length := by
    rw [stretches.ends, List.length_append, List.length_cons, Nat.add_assoc, Nat.add_comm 1]
  have ends : (Placing.onLine number stretch).place ⟨number, line.length⟩ =
      ⟨number, (line ++ ';' :: comment).length⟩ :=
    (Placing.place_on_line rfl).trans (congrArg _ length)
  rw [ExpandedLine.tokens, ExpandedLine.tokens, Token.ofLine, Token.ofLine,
    admits.along_line code (fun _ _ => rfl), List.map_append, List.map_append, List.map_append,
    List.map_map, List.map_congr_left inLine]
  congr 1
  split
  · rfl
  · simp only [List.map_cons, List.map_nil, source_column_end code,
      source_column_end (is_code_comment.mpr code), Token.retold_retelling, ends]

/-- With a comment behind it, a line gives what it gave before, at other columns. -/
theorem scan_line_comment (admits : defines.Admits line comment) (code : IsCode line)
    (stretches : defines.Stretches line comment stretch) (number : Nat) :
    defines.scanLine number (line ++ ';' :: comment) =
      (defines.scanLine number line).placedBy (.onLine number stretch) := by
  rw [scanLine, complaints_of_is_code defines (is_code_comment.mpr code),
    faults_comment admits code stretches, tokens_comment admits code stretches, scanLine,
    complaints_of_is_code defines code]
  rfl

/-- A directive gives the same. -/
theorem scan_line_directive (directive : ¬ IsCode line) (comment : List Char) (number : Nat) :
    defines.scanLine number (line ++ ';' :: comment) = defines.scanLine number line := by
  have still : ¬ IsCode (line ++ ';' :: comment) := mt is_code_comment.mp directive
  rw [scanLine, scanLine, complaints_comment, expand_line_of_not_is_code defines directive,
    expand_line_of_not_is_code defines still]

theorem column_le_scan_line (code : IsCode line) (number : Nat) :
    (defines.scanLine number line).Within fun position => position.column ≤ line.length where
  directives := by
    rw [scanLine, complaints_of_is_code defines code]
    simp
  faults := by
    intro diagnostic member
    obtain ⟨original, found, rfl⟩ := List.mem_map.mp member
    exact source_column_le code (Nat.le_of_lt (Diagnostic.column_lt_of_mem_of_line found))
  tokens := by
    intro token member
    obtain ⟨original, found, rfl⟩ := List.mem_map.mp member
    exact source_column_le code (Token.column_le_of_mem_of_line found).1

/-- The leading tokens of a line stay at their places. -/
theorem Stretches.leading (stretches : defines.Stretches line comment stretch) (code : IsCode line)
    (flat : IsFlat line) (number : Nat) :
    ∀ token ∈ Token.leading (defines.scanLine number line).tokens,
      stretch token.position.column = token.position.column := by
  intro token member
  have placed : Token.leading (defines.scanLine number line).tokens =
      (Token.leading (Token.ofLine number true (defines.expandLine line).text)).map fun token =>
        ⟨token.kind, ⟨number, (defines.expandLine line).sourceColumn token.position.column⟩⟩ := by
    apply Token.leading_map
    intro token
    rfl
  rw [placed] at member
  obtain ⟨original, found, rfl⟩ := List.mem_map.mp member
  by_cases reaches : defines.Reaches line comment
  · rw [expand_line_unchanged code reaches.kept] at found ⊢
    have ends : Token.leading (if true && (Lexeme.alongLine Lexeme.token? number 0
        (lexemes line)).isEmpty then [] else [⟨.newLine, ⟨number, line.length⟩⟩]) = [] := by
      split
      · rfl
      · exact Token.leading_end rfl []
    have stands := @exists_stands_of_leading defines line line [] rfl flat.no_feed number _ ends
      original found
    obtain ⟨fragment, offset, stands⟩ := stands
    exact stretches.starts fragment _ offset stands
  · obtain ⟨listed, inside⟩ := Token.of_mem_leading found
    have proper : original.kind ≠ .newLine := by
      intro feed
      simp [feed, Token.Kind.endsLine] at inside
    have short := (Token.column_le_of_mem_of_line listed).2 proper
    exact stretches.still reaches _ ((defines.traces_expand_line code).comes_from short).2

/-! ### Scans of sources with a comment -/

variable {before after : List (List Char)}

theorem scan_split (defines : Defines) (before : List (List Char)) (line : List Char)
    (after : List (List Char)) :
    defines.scan 0 (before ++ line :: after) =
      defines.scan 0 before ++ ((defines.afterLines before).scanLine before.length line ++
        ((defines.afterLines before).afterLine line).scan (before.length + 1) after) := by
  rw [scan_append, Nat.zero_add, scan]

theorem scan_comment (admits : (defines.afterLines before).Admits line comment) (code : IsCode line)
    (stretches : (defines.afterLines before).Stretches line comment stretch) :
    defines.scan 0 (before ++ (line ++ ';' :: comment) :: after) =
      (defines.scan 0 (before ++ line :: after)).placedBy (.onLine before.length stretch) := by
  have early : (defines.scan 0 before).placedBy (.onLine before.length stretch) =
      defines.scan 0 before := by
    apply (defines.within_scan 0 before).placed_by_eq
    intro position bounds
    apply Placing.place_on_line_of_ne
    omega
  have late : (((defines.afterLines before).afterLine line).scan (before.length + 1) after).placedBy
      (.onLine before.length stretch) =
      ((defines.afterLines before).afterLine line).scan (before.length + 1) after := by
    apply (within_scan _ (before.length + 1) after).placed_by_eq
    intro position bounds
    apply Placing.place_on_line_of_ne
    omega
  rw [scan_split, scan_split, after_line_comment, scan_line_comment admits code stretches,
    Scan.placed_by_append, Scan.placed_by_append, early, late]

theorem scan_directive (directive : ¬ IsCode line) :
    defines.scan 0 (before ++ (line ++ ';' :: comment) :: after) =
      defines.scan 0 (before ++ line :: after) := by
  rw [scan_split, scan_split, after_line_comment, scan_line_directive directive]

/-- All on a line of code stands within the line. -/
theorem column_le_scan (code : IsCode line) :
    (defines.scan 0 (before ++ line :: after)).Within fun position =>
      position.line = before.length → position.column ≤ line.length := by
  have early := defines.within_scan 0 before
  have here := @column_le_scan_line (defines.afterLines before) line code before.length
  have late := ((defines.afterLines before).afterLine line).within_scan (before.length + 1) after
  rw [scan_split]
  apply Scan.Within.append
  · exact early.mono fun position bounds same => by omega
  · apply Scan.Within.append
    · exact here.mono fun position short _ => short
    · exact late.mono fun position bounds same => by omega

/-- Symbols stay at their places. -/
theorem symbols_comment (flat : IsFlat line) (code : IsCode line)
    (stretches : (defines.afterLines before).Stretches line comment stretch) (origin : UInt16) :
    ∀ symbol ∈ ((defines.scan 0 (before ++ line :: after)).draft origin).symbols.entries,
      symbol.position.line = before.length →
        stretch symbol.position.column = symbol.position.column := by
  intro symbol member here
  obtain ⟨tokens, isLine, token, leads, placed⟩ := Draft.exists_leading_of_symbol
    (defines.tokens_scan_ne_end_of_input 0 (before ++ line :: after)) origin member
  obtain ⟨earlier, other, later, cut, rfl⟩ := exists_of_mem_lines_scan isLine
  rw [Nat.zero_add] at leads
  have number : token.position.line = earlier.length :=
    (within_scan_line _ earlier.length other).tokens token (Token.of_mem_leading leads).1
  have length : before.length = earlier.length := by
    rw [← here, ← placed, number]
  obtain ⟨rfl, rest⟩ := List.append_inj cut length
  obtain ⟨rfl, -⟩ := List.cons.inj rest
  rw [← placed]
  exact stretches.leading code flat before.length token leads

/-- A comment keeps the assembly, and also the order of complaints unless it is reached. -/
theorem assembly_comment (admits : (defines.afterLines before).Admits line comment)
    (origin : UInt16) :
    let commented := (defines.scan 0 (before ++ (line ++ ';' :: comment) :: after)).assembly origin
    let plain := (defines.scan 0 (before ++ line :: after)).assembly origin
    commented.SameButColumns before.length plain ∧
      (¬ (defines.afterLines before).Reaches line comment →
        commented.diagnostics.map Diagnostic.withoutColumn =
          plain.diagnostics.map Diagnostic.withoutColumn) := by
  intro commented plain
  by_cases code : IsCode line
  · obtain ⟨stretch, stretches⟩ : ∃ stretch, (defines.afterLines before).Stretches line comment stretch :=
      exists_stretches code comment
    have moved : commented = ((defines.scan 0 (before ++ line :: after)).placedBy
        (.onLine before.length stretch)).assembly origin := by
      rw [← scan_comment admits code stretches]
    rw [moved]
    constructor
    · apply Scan.same_but_columns_on_line
      exact symbols_comment admits.flat code stretches origin
    · intro apart
      have longer : line.length ≤ stretch line.length := by
        rw [stretches.ends]
        omega
      have short := (@column_le_scan defines line before after code).complaints origin
      rw [Scan.assembly_on_line _ origin (stretches.still apart) longer short]
      simp only [Assembly.placedBy, List.map_map]
      apply List.map_congr_left
      intro diagnostic _
      exact diagnostic.without_column_on_line
  · have same : commented = plain := by
      simp only [commented, plain, scan_directive code]
    rw [same]
    exact ⟨⟨rfl, rfl, rfl, rfl, rfl, .refl _, rfl⟩, fun _ => rfl⟩

end Defines

/-! ### Lines without tokens -/

/-- Spaces and tabs, and perhaps a comment behind them. -/
inductive IsBlankLine : List Char → Prop
  | nil : IsBlankLine []
  | comment {text : List Char} (flat : IsFlat text) : IsBlankLine (';' :: text)
  | blank {c : Char} {rest : List Char} (space : c = ' ' ∨ c = '\t') (behind : IsBlankLine rest) :
    IsBlankLine (c :: rest)

namespace IsBlankLine

variable {text : List Char}

theorem is_flat (isBlank : IsBlankLine text) : IsFlat text := by
  induction isBlank with
  | nil => simp [IsFlat]
  | comment flat => exact @is_flat_comment [] _ (by simp [IsFlat]) flat
  | blank space behind induction =>
    intro c member
    rcases List.mem_cons.mp member with rfl | later
    · rcases space with rfl | rfl <;> decide
    · exact induction c later

theorem is_code (isBlank : IsBlankLine text) : IsCode text := by
  have empty : IsCode [] := by simp [IsCode, Text.trimStart]
  induction isBlank with
  | nil => exact empty
  | comment flat => exact @is_code_comment [] _ |>.mpr empty
  | @blank c rest space behind induction =>
    have trimmed : Text.trimStart (c :: rest) = Text.trimStart rest := by
      rcases space with rfl | rfl <;> rfl
    unfold IsCode at induction ⊢
    rwa [trimmed]

theorem expand_eq (isBlank : IsBlankLine text) (defines : Defines) : defines.expand text = text := by
  induction isBlank with
  | nil => rw [Defines.expand_eq, fragments, List.flatMap_nil]
  | comment flat =>
    rw [Defines.expand_eq, fragments_semicolon, List.flatMap_singleton]
    rfl
  | blank space behind induction =>
    rw [Defines.expand_eq, fragments_blank space, List.flatMap_cons, ← Defines.expand_eq, induction]
    rfl

theorem along_line_eq_nil (isBlank : IsBlankLine text) {α : Type}
    {read : Position → Lexeme → Option α} (gap : ∀ position text, read position ⟨text, .gap⟩ = none)
    (number column : Nat) : Lexeme.alongLine read number column (lexemes text) = [] := by
  induction isBlank generalizing column with
  | nil => rw [lexemes_nil, Lexeme.alongLine]
  | comment flat => exact Lexeme.along_line_semicolon gap flat.no_feed number column
  | @blank c rest space behind induction =>
    have cut : lexemes (c :: rest) = ⟨[c], .gap⟩ :: lexemes rest :=
      (Lexeme.Written.blank space).lexemes_append (by simp [Stops])
    rw [cut, Lexeme.alongLine, gap, induction]
    rfl

theorem scan_line_eq (isBlank : IsBlankLine text) (defines : Defines) (number : Nat) :
    defines.scanLine number text = ⟨[], [], []⟩ := by
  rw [Defines.scanLine, Defines.complaints_of_is_code defines isBlank.is_code,
    Defines.expand_line_unchanged isBlank.is_code (isBlank.expand_eq defines), ExpandedLine.faults,
    ExpandedLine.tokens, Diagnostic.ofLine, Token.ofLine, ExpandedLine.unchanged,
    isBlank.along_line_eq_nil (fun _ _ => rfl), isBlank.along_line_eq_nil (fun _ _ => rfl)]
  rfl

/-- A line without tokens moves the lines below it and does nothing else. -/
theorem scan_eq (isBlank : IsBlankLine text) (defines : Defines) (before after : List (List Char)) :
    defines.scan 0 (before ++ text :: after) =
      (defines.scan 0 (before ++ after)).placedBy (.below before.length) := by
  have early : (defines.scan 0 before).placedBy (.below before.length) = defines.scan 0 before := by
    apply (defines.within_scan 0 before).placed_by_eq
    intro position bounds
    exact if_pos (by omega)
  rw [Defines.scan_split, isBlank.scan_line_eq, Defines.after_line_of_is_code _ isBlank.is_code,
    Defines.scan_succ _ (Nat.le_refl _), Defines.scan_append, Nat.zero_add, Scan.placed_by_append,
    early]
  rfl

end IsBlankLine

/-! ### Sources -/

/-- A comment behind a line changes nothing, unless a broken literal is open at the end of the line:
the code, the symbols, the listed lines and the number of resolved references stay, and so do the
complaints, but for their columns on that line. Their order stays too, unless a name in the comment is
replaced and names in the line stand for themselves. A line without tokens moves the lines below it and
changes nothing else. -/
theorem comments_change_nothing (origin : UInt16) (source : List Char) :
    let lines := Text.splitLines (Text.normalize source)
    let plain := assemble origin source
    (∀ before line after comment, lines = before ++ line :: after → IsFlat comment →
      let defines := Defines.empty.afterLines before
      (∀ lexeme ∈ lexemes (defines.expandLine line).text, ¬ lexeme.IsQuotedFault) →
        let commented :=
          assemble origin (Text.joinLines (before ++ (line ++ ';' :: comment) :: after))
        commented.SameButColumns before.length plain ∧
          (¬ defines.Reaches line comment →
            commented.diagnostics.map Diagnostic.withoutColumn =
              plain.diagnostics.map Diagnostic.withoutColumn)) ∧
      ∀ before after blank, lines = before ++ after → IsBlankLine blank →
        assemble origin (Text.joinLines (before ++ blank :: after)) =
          plain.placedBy (.below before.length) := by
  intro lines plain
  have scanned : plain = (Defines.empty.scan 0 lines).assembly origin :=
    assemble_eq_lines origin source
  have flat : ∀ line ∈ lines, IsFlat line := fun line => Text.is_flat_of_mem_split_lines
  constructor
  · intro before line after comment cut flatComment defines sound
    rw [cut] at scanned flat
    obtain ⟨flatBefore, flatRest⟩ := List.forall_mem_append.mp flat
    obtain ⟨flatLine, flatAfter⟩ := List.forall_mem_cons.mp flatRest
    have admits : defines.Admits line comment :=
      ⟨Defines.plain_empty.after_lines flatBefore, flatLine, flatComment, sound⟩
    have flatNow : ∀ other ∈ before ++ (line ++ ';' :: comment) :: after, IsFlat other :=
      List.forall_mem_append.mpr ⟨flatBefore,
        List.forall_mem_cons.mpr ⟨is_flat_comment flatLine flatComment, flatAfter⟩⟩
    rw [assemble_join_lines origin (by simp) flatNow, scanned]
    exact Defines.assembly_comment admits origin
  · intro before after blank cut isBlank
    rw [cut] at scanned flat
    obtain ⟨flatBefore, flatAfter⟩ := List.forall_mem_append.mp flat
    have flatNow : ∀ line ∈ before ++ blank :: after, IsFlat line :=
      List.forall_mem_append.mpr ⟨flatBefore, List.forall_mem_cons.mpr ⟨isBlank.is_flat, flatAfter⟩⟩
    rw [assemble_join_lines origin (by simp) flatNow, scanned, isBlank.scan_eq]
    exact Scan.assembly_below _ origin before.length

/-- The comment holds quotes and the name of a definition. -/
theorem comments_change_nothing_load :
    let plain := assemble 0 "%define M 5\nx: ld a,M\nhalt".toList
    let commented := assemble 0 "%define M 5\nx: ld a,M; 'M \" %\nhalt".toList
    let spaced := assemble 0 "%define M 5\n\t ;M\nx: ld a,M\nhalt".toList
    plain.code = #[0x3e, 5, 0x76] ∧ commented.SameButColumns 1 plain ∧
      commented.diagnostics.map Diagnostic.withoutColumn =
        plain.diagnostics.map Diagnostic.withoutColumn ∧
      spaced = plain.placedBy (.below 1) := by
  intro plain commented spaced
  obtain ⟨behind, between⟩ :=
    comments_change_nothing 0 "%define M 5\nx: ld a,M\nhalt".toList
  have changed : ¬ (Defines.empty.afterLines ["%define M 5".toList]).Reaches "x: ld a,M".toList
      " 'M \" %".toList := by
    intro reaches
    exact absurd reaches.kept (by decide +kernel)
  have sound := behind ["%define M 5".toList] "x: ld a,M".toList ["halt".toList] " 'M \" %".toList
    (by decide +kernel) (by decide +kernel) (by decide +kernel)
  have isBlank : IsBlankLine "\t ;M".toList :=
    .blank (.inr rfl) (.blank (.inl rfl) (.comment (by decide)))
  have moved := between ["%define M 5".toList] ["x: ld a,M".toList, "halt".toList] "\t ;M".toList
    (by decide +kernel) isBlank
  exact ⟨by decide +kernel, sound.1, sound.2 changed, moved⟩

theorem diagnostics_of_two {origin : UInt16} {source : List Char} {first second : Diagnostic}
    (two : (Expansion.ofSource source).scan.complaints origin = [first, second]) :
    (assemble origin source).diagnostics =
      if first.position.le second.position then [first, second] else [second, first] := by
  rw [assemble_eq_scan, Scan.assembly, two]
  simp [List.mergeSort, List.MergeSort.Internal.splitInTwo, List.merge]

/-- The scanner that replaces names takes the comment for the rest of a literal, and replaces a name in
it. In the line, another name is replaced by itself; now its columns count, and what is wrong inside
the name is reported before what is wrong with the statement. -/
theorem comment_swaps_complaints :
    let before := ["%define c'5'd'_ c'5'd'_".toList, "%define M 1".toList]
    let line := "@a' '+'c'5'd'_ 1' '".toList
    let comment := "' M".toList
    let plain := assemble 0 (Text.joinLines (before ++ [line]))
    let commented := assemble 0 (Text.joinLines (before ++ [line ++ ';' :: comment]))
    IsFlat comment ∧
      (∀ lexeme ∈ lexemes ((Defines.empty.afterLines before).expandLine line).text,
        ¬ lexeme.IsQuotedFault) ∧
      plain.diagnostics.map Diagnostic.withoutColumn =
        [(2, .expectedEndOfLine, some (.integer 5)), (2, .unexpectedCharacter '_', some (.bad "_"))] ∧
      commented.diagnostics.map Diagnostic.withoutColumn =
        [(2, .unexpectedCharacter '_', some (.bad "_")), (2, .expectedEndOfLine, some (.integer 5))] := by
  intro before line comment plain commented
  have inOrder : plain.diagnostics = [⟨⟨2, 9⟩, .expectedEndOfLine, some (.integer 5)⟩,
      ⟨⟨2, 13⟩, .unexpectedCharacter '_', some (.bad "_")⟩] :=
    @diagnostics_of_two 0 _ ⟨⟨2, 13⟩, .unexpectedCharacter '_', some (.bad "_")⟩
      ⟨⟨2, 9⟩, .expectedEndOfLine, some (.integer 5)⟩ (by decide +kernel)
  have swapped : commented.diagnostics = [⟨⟨2, 7⟩, .unexpectedCharacter '_', some (.bad "_")⟩,
      ⟨⟨2, 7⟩, .expectedEndOfLine, some (.integer 5)⟩] :=
    @diagnostics_of_two 0 _ ⟨⟨2, 7⟩, .unexpectedCharacter '_', some (.bad "_")⟩
      ⟨⟨2, 7⟩, .expectedEndOfLine, some (.integer 5)⟩ (by decide +kernel)
  rw [inOrder, swapped]
  exact ⟨by decide +kernel, by decide +kernel, rfl, rfl⟩

end Z80Toolchain
