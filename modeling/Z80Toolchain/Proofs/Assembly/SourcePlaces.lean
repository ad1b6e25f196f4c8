import Z80Toolchain.Proofs.Assembly.Placing
import Z80Toolchain.Proofs.Source.LinesApart
import Z80Toolchain.Proofs.Source.SourceColumns

/-!
Places in the source. Expansion keeps the lines of a source, and every place of an expanded line leads
back to the source. So every token stands on its line of the source, where its first character comes
from, and every complaint but those about directives stands at a token.
-/
namespace Z80Toolchain

/-! ### Lines -/

/-- A directive leaves an empty line; the places of any other line lead back. -/
structure Expansion.Retraces (expansion : Expansion) (number : Nat) (defines : Defines)
    (line : List Char) : Prop where
  directive : ¬ IsCode line → expansion.lines[number]? = some (.unchanged [])
  code : IsCode line → ∃ expanded, expansion.lines[number]? = some expanded ∧
    (∀ column, expansion.sourcePosition ⟨number, column⟩ = ⟨number, expanded.sourceColumn column⟩) ∧
    expanded.Traces defines line

theorem Expansion.retraces_of_source {source : List Char} {number : Nat} {line : List Char}
    (found : (Text.splitLines (Text.normalize source))[number]? = some line) :
    (ofSource source).Retraces number
      (.inForce (Text.splitLines (Text.normalize source)) number) line := by
  have expanded := get_elem?_lines_of_text (Text.normalize source) number
  rw [found, Option.map_some] at expanded
  constructor
  · intro directive
    rwa [Defines.expand_line_of_not_is_code _ directive] at expanded
  · intro code
    exact ⟨_, expanded, source_position_of_line expanded, Defines.traces_expand_line _ code⟩

/-! ### Tokens -/

/-- A token stands where it begins: a token of the expanded line where its first character comes from,
a line end at the end of its line. The line end of a directive is a token on the first line only, and
stands at its start. -/
inductive Token.Begins (token : Token) (defines : Defines) (line : List Char) : Prop
  | lexeme {before after : List Lexeme} {lexeme : Lexeme} (code : IsCode line)
      (cut : lexemes (defines.expand line) = before ++ lexeme :: after)
      (read : lexeme.token? token.position = some token)
      (place : token.position.column =
        (defines.expandLine line).sourceColumn (before.flatMap Lexeme.text).length)
      (origin : defines.ComesFrom line lexeme.text.head? token.position.column)
  | lineEnd (ends : token.kind = .newLine) (code : IsCode line)
      (place : token.position.column = line.length)
  | directiveEnd (ends : token.kind = .newLine) (directive : ¬ IsCode line)
      (place : token.position = .start)

/-- The tokens of an expanded line, put back to the source. -/
theorem Token.begins_of_line {defines : Defines} {line : List Char} {number : Nat} {token : Token}
    (member : token ∈ ofLine number (number != 0) (defines.expandLine line).text) :
    token.position.line = number ∧
      (defines.expandLine line).sourceColumn token.position.column ≤ line.length ∧
      Begins ⟨token.kind, ⟨number, (defines.expandLine line).sourceColumn token.position.column⟩⟩
        defines line := by
  by_cases code : IsCode line
  · have traces := defines.traces_expand_line code
    rcases List.mem_append.mp member with inLine | last
    · obtain ⟨before, lexeme, after, cut, read⟩ := Lexeme.exists_of_mem_along_line inLine
      rw [Nat.zero_add] at read
      obtain ⟨placed, again⟩ := Lexeme.token?_place read ⟨number,
        (defines.expandLine line).sourceColumn (before.flatMap Lexeme.text).length⟩
      obtain ⟨inside, first⟩ := Lexeme.head?_of_cut cut
      obtain ⟨origin, short⟩ := traces.comes_from inside
      rw [first] at origin
      rw [traces.text] at cut
      rw [placed]
      exact ⟨rfl, Nat.le_of_lt short, .lexeme code cut again rfl origin⟩
    · split at last
      · cases last
      · obtain rfl := List.mem_singleton.mp last
        have place := traces.behind 0
        simp only [Nat.add_zero] at place
        rw [place]
        exact ⟨rfl, Nat.le_refl _, .lineEnd rfl code rfl⟩
  · rw [defines.expand_line_of_not_is_code code] at member ⊢
    -- An empty line has no token but the line end of an open line.
    obtain ⟨first, rfl⟩ : number = 0 ∧ token = ⟨.newLine, ⟨number, 0⟩⟩ := by
      simpa [ofLine, ExpandedLine.unchanged, lexemes_nil, Lexeme.alongLine] using member
    subst first
    exact ⟨rfl, Nat.zero_le _, .directiveEnd rfl code rfl⟩

namespace Expansion

/-- Every token of a source stands where it begins. -/
theorem begins_of_mem_tokens {source : List Char} {token : Token}
    (member : token ∈ (ofSource source).tokens) :
    let lines := Text.splitLines (Text.normalize source)
    ∃ line, lines[token.position.line]? = some line ∧ token.position.column ≤ line.length ∧
      token.Begins (.inForce lines token.position.line) line := by
  intro lines
  obtain ⟨original, found, rfl⟩ := List.mem_map.mp member
  rw [ofSource, tokenize_text (lines_of_text_ne_nil _) (is_flat_lines_of_text source)] at found
  obtain ⟨number, text, listed, inside⟩ := Token.exists_of_mem_of_lines found
  rw [List.getElem?_map, Array.getElem?_toList, get_elem?_lines_of_text] at listed
  obtain ⟨expanded, same, rfl⟩ := Option.map_eq_some_iff.mp listed
  obtain ⟨line, here, rfl⟩ := Option.map_eq_some_iff.mp same
  rw [Nat.zero_add, Bool.false_or] at inside
  obtain ⟨onLine, short, begins⟩ := Token.begins_of_line inside
  have place : (ofSource source).sourcePosition original.position =
      ⟨number, ((Defines.inForce lines number).expandLine line).sourceColumn
        original.position.column⟩ := by
    rw [← source_position_of_line ((get_elem?_lines_of_text _ _).trans same), ← onLine]
    rfl
  rw [place]
  exact ⟨line, here, short, begins⟩

theorem exists_token_of_fault {expansion : Expansion} {diagnostic : Diagnostic}
    (member : diagnostic ∈ expansion.lexicalFaults) :
    ∃ token ∈ expansion.tokens, token.position = diagnostic.position := by
  obtain ⟨fault, reported, rfl⟩ := List.mem_map.mp member
  have bad := List.mem_map_of_mem (f := fun fault => (fault.position, fault.token)) reported
  rw [Z80Toolchain.lexicalFaults, Lexeme.faults_from_eq (Lexeme.sound_lexemes _) .start false] at bad
  obtain ⟨token, found, same⟩ := List.mem_map.mp bad
  refine ⟨_, List.mem_map_of_mem (List.mem_filter.mp found).1, ?_⟩
  exact congrArg (fun place => expansion.sourcePosition place.1) same

/-- Every complaint that is not about a directive stands at a token. -/
theorem exists_token_of_diagnostic {origin : UInt16} {source : List Char} {diagnostic : Diagnostic}
    (member : diagnostic ∈ (assemble origin source).diagnostics) :
    diagnostic ∈ (ofSource source).diagnostics ∨
      ∃ token ∈ (ofSource source).tokens, token.position = diagnostic.position := by
  rw [assemble_eq_scan] at member
  have complaint := List.mem_mergeSort.mp member
  rcases Scan.exists_token_of_complaint _ origin complaint with early | late
  · rcases List.mem_append.mp early with directive | fault
    · exact .inl directive
    · exact .inr (exists_token_of_fault fault)
  · exact .inr late

end Expansion

/-- Positions lead back through expansion. The expansion keeps the lines of a source and empties its
directives; on any other line a copied character leads to itself, one that replaces a name leads into
the name, the end leads to the end, and the order is kept. So all tokens, and all complaints that are
not about directives, stand in the source where they begin. -/
theorem positions_lead_back (origin : UInt16) (source : List Char) :
    let lines := Text.splitLines (Text.normalize source)
    let expansion := Expansion.ofSource source
    expansion.lines.size = lines.length ∧
      (∀ number line, lines[number]? = some line →
        expansion.Retraces number (.inForce lines number) line) ∧
      (∀ token ∈ expansion.tokens, ∃ line, lines[token.position.line]? = some line ∧
        token.position.column ≤ line.length ∧
        token.Begins (.inForce lines token.position.line) line) ∧
      ∀ diagnostic ∈ (assemble origin source).diagnostics,
        diagnostic ∈ expansion.diagnostics ∨
          ∃ token ∈ expansion.tokens, token.position = diagnostic.position := by
  intro lines expansion
  refine ⟨?_, ?_, ?_, ?_⟩
  · exact Expansion.size_lines_of_text (Text.normalize source)
  · intro number line found
    exact Expansion.retraces_of_source found
  · intro token member
    exact Expansion.begins_of_mem_tokens member
  · intro diagnostic member
    exact Expansion.exists_token_of_diagnostic member

end Z80Toolchain
