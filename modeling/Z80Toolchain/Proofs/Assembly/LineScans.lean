import Z80Toolchain.Proofs.Assembly.PlacedAssemblies
import Z80Toolchain.Proofs.Source.LinesApart
import Z80Toolchain.Proofs.Source.SourceColumns

/-!
What is scanned of a source, line by line. A line gives its part of the scan from its text, its number
and the definitions in force, whatever stands around it. The line end of a first line without tokens
is left out: the encode pass does not see it. So a source whose lines give the same parts, or the same
parts at other places, is assembled in the same way.
-/
namespace Z80Toolchain

/-! ### Scans -/

namespace Scan

def append (first second : Scan) : Scan :=
  ⟨first.directives ++ second.directives, first.faults ++ second.faults,
    first.tokens ++ second.tokens⟩

instance : Append Scan := ⟨append⟩

theorem append_eq (first second : Scan) :
    first ++ second = ⟨first.directives ++ second.directives, first.faults ++ second.faults,
      first.tokens ++ second.tokens⟩ := rfl

theorem append_assoc (first second third : Scan) :
    first ++ second ++ third = first ++ (second ++ third) := by
  simp [append_eq]

theorem placed_by_append {placing : Placing} (first second : Scan) :
    (first ++ second).placedBy placing = first.placedBy placing ++ second.placedBy placing := by
  simp [append_eq, placedBy]

structure Within (places : Position → Prop) (scan : Scan) : Prop where
  directives : ∀ diagnostic ∈ scan.directives, places diagnostic.position
  faults : ∀ diagnostic ∈ scan.faults, places diagnostic.position
  tokens : ∀ token ∈ scan.tokens, places token.position

theorem Within.append {places : Position → Prop} {first second : Scan} (early : first.Within places)
    (late : second.Within places) : (first ++ second).Within places where
  directives := List.forall_mem_append.mpr ⟨early.directives, late.directives⟩
  faults := List.forall_mem_append.mpr ⟨early.faults, late.faults⟩
  tokens := List.forall_mem_append.mpr ⟨early.tokens, late.tokens⟩

theorem Within.mono {places others : Position → Prop} {scan : Scan} (within : scan.Within places)
    (fewer : ∀ position, places position → others position) : scan.Within others where
  directives diagnostic member := fewer _ (within.directives diagnostic member)
  faults diagnostic member := fewer _ (within.faults diagnostic member)
  tokens token member := fewer _ (within.tokens token member)

/-- What is wrong is wrong at a place of the scan. -/
theorem Within.complaints {places : Position → Prop} {scan : Scan} (within : scan.Within places)
    (origin : UInt16) : ∀ diagnostic ∈ scan.complaints origin, places diagnostic.position := by
  intro diagnostic member
  rcases scan.exists_token_of_complaint origin member with scanned | ⟨token, found, same⟩
  · rcases List.mem_append.mp scanned with directive | fault
    · exact within.directives diagnostic directive
    · exact within.faults diagnostic fault
  · rw [← same]
    exact within.tokens token found

end Scan

/-- A placing that moves no place of a scan leaves the scan as it is. -/
theorem Scan.Within.placed_by_eq {places : Position → Prop} {scan : Scan} (within : scan.Within places)
    {placing : Placing} (fixed : ∀ position, places position → placing.place position = position) :
    scan.placedBy placing = scan := by
  have still {list : List Diagnostic} (here : ∀ diagnostic ∈ list, places diagnostic.position) :
      list.map (Diagnostic.retold placing.retelling) = list := by
    apply (List.map_congr_left fun diagnostic member => ?_).trans (List.map_id list)
    rw [Diagnostic.retold_retelling, fixed _ (here diagnostic member)]
    rfl
  have stay : scan.tokens.map (Token.retold placing.retelling) = scan.tokens := by
    apply (List.map_congr_left fun token member => ?_).trans (List.map_id scan.tokens)
    rw [Token.retold_retelling, fixed _ (within.tokens token member)]
    rfl
  rw [placedBy, still within.directives, still within.faults, stay]

/-! ### Lines -/

namespace ExpandedLine

def tokens (expanded : ExpandedLine) (number : Nat) : List Token :=
  (Token.ofLine number true expanded.text).map fun token =>
    ⟨token.kind, ⟨number, expanded.sourceColumn token.position.column⟩⟩

def faults (expanded : ExpandedLine) (number : Nat) : List Diagnostic :=
  (Diagnostic.ofLine number expanded.text).map fun diagnostic =>
    { diagnostic with position := ⟨number, expanded.sourceColumn diagnostic.position.column⟩ }

end ExpandedLine

namespace Defines

def scanLine (defines : Defines) (number : Nat) (line : List Char) : Scan :=
  ⟨defines.complaints number line, (defines.expandLine line).faults number,
    (defines.expandLine line).tokens number⟩

/-- What is scanned of lines, the first of which has this number. -/
def scan (defines : Defines) (number : Nat) : List (List Char) → Scan
  | [] => ⟨[], [], []⟩
  | line :: rest => defines.scanLine number line ++ (defines.afterLine line).scan (number + 1) rest

variable (defines : Defines)

theorem scan_append (number : Nat) (before after : List (List Char)) :
    defines.scan number (before ++ after) =
      defines.scan number before ++
        (defines.afterLines before).scan (number + before.length) after := by
  induction before generalizing defines number with
  | nil => rfl
  | cons line before induction =>
    rw [List.cons_append, scan, induction, scan, Scan.append_assoc, List.length_cons,
      Nat.add_right_comm, Nat.add_assoc number]
    rfl

theorem within_scan_line (number : Nat) (line : List Char) :
    (defines.scanLine number line).Within (·.line = number) where
  directives := by
    intro diagnostic member
    change diagnostic ∈ defines.complaints number line at member
    unfold complaints at member
    split at member
    · split at member
      · cases member
      · rw [List.mem_singleton.mp member]
    · cases member
  faults := by
    intro diagnostic member
    obtain ⟨original, -, rfl⟩ := List.mem_map.mp member
    rfl
  tokens := by
    intro token member
    obtain ⟨original, -, rfl⟩ := List.mem_map.mp member
    rfl

theorem within_scan (number : Nat) (lines : List (List Char)) :
    (defines.scan number lines).Within fun position =>
      number ≤ position.line ∧ position.line < number + lines.length := by
  induction lines generalizing defines number with
  | nil => constructor <;> simp [scan]
  | cons line lines induction =>
    have here := defines.within_scan_line number line
    have later := induction (defines.afterLine line) (number + 1)
    apply Scan.Within.append
    · exact here.mono fun position same => by simp [same]
    · exact later.mono fun position bounds => by simp at bounds ⊢; omega

/-! ### Parts of a scan -/

theorem directives_scan (number : Nat) (lines : List (List Char)) :
    (defines.scan number lines).directives = defines.complaintsFrom number lines := by
  induction lines generalizing defines number with
  | nil => rfl
  | cons line lines induction =>
    rw [scan, complaintsFrom, ← induction]
    rfl

def Leads (place : Position → Position) (number : Nat) (lines : List ExpandedLine) : Prop :=
  ∀ index expanded, lines[index]? = some expanded → ∀ column,
    place ⟨number + index, column⟩ = ⟨number + index, expanded.sourceColumn column⟩

variable {place : Position → Position} {number : Nat}

theorem Leads.head {expanded : ExpandedLine} {lines : List ExpandedLine}
    (leads : Leads place number (expanded :: lines)) {position : Position}
    (here : position.line = number) :
    place position = ⟨number, expanded.sourceColumn position.column⟩ := by
  subst here
  exact leads 0 expanded rfl position.column

theorem Leads.tail {expanded : ExpandedLine} {lines : List ExpandedLine}
    (leads : Leads place number (expanded :: lines)) : Leads place (number + 1) lines := by
  intro index other found column
  rw [Nat.add_assoc, Nat.add_comm 1]
  exact leads (index + 1) other found column

theorem faults_scan {lines : List (List Char)}
    (leads : Leads place number (defines.expandLines lines)) :
    (defines.scan number lines).faults =
      (Diagnostic.ofLines number ((defines.expandLines lines).map ExpandedLine.text)).map
        fun diagnostic => { diagnostic with position := place diagnostic.position } := by
  induction lines generalizing defines number with
  | nil => rfl
  | cons line lines induction =>
    have later := induction (defines.afterLine line) leads.tail
    have here : (defines.scanLine number line).faults =
        (Diagnostic.ofLine number (defines.expandLine line).text).map
          fun diagnostic => { diagnostic with position := place diagnostic.position } := by
      apply List.map_congr_left
      intro diagnostic member
      rw [leads.head (Diagnostic.line_of_mem_of_line member)]
    rw [expandLines, List.map_cons, Diagnostic.ofLines, List.map_append, ← later, ← here]
    rfl

theorem tokens_scan {lines : List (List Char)}
    (leads : Leads place number (defines.expandLines lines)) :
    (defines.scan number lines).tokens =
      (Token.ofLines number true ((defines.expandLines lines).map ExpandedLine.text)).map
        fun token => { token with position := place token.position } := by
  induction lines generalizing defines number with
  | nil => rfl
  | cons line lines induction =>
    have later := induction (defines.afterLine line) leads.tail
    have here : (defines.scanLine number line).tokens =
        (Token.ofLine number true (defines.expandLine line).text).map
          fun token => { token with position := place token.position } := by
      apply List.map_congr_left
      intro token member
      rw [leads.head (Token.line_of_mem_of_line member)]
    rw [expandLines, List.map_cons, Token.ofLines, List.map_append, ← later, ← here]
    rfl

end Defines

/-! ### Lines moved down -/

theorem Lexeme.along_line_map {α : Type} {read : Position → Lexeme → Option α} {change : α → α}
    {number other : Nat}
    (step : ∀ column lexeme, read ⟨other, column⟩ lexeme = (read ⟨number, column⟩ lexeme).map change)
    (column : Nat) (pieces : List Lexeme) :
    alongLine read other column pieces = (alongLine read number column pieces).map change := by
  induction pieces generalizing column with
  | nil => rfl
  | cons lexeme pieces induction =>
    rw [alongLine, alongLine, step, induction, List.map_append, Option.toList_map]

theorem Diagnostic.of_line_succ (number : Nat) (line : List Char) :
    ofLine (number + 1) line = (ofLine number line).map fun diagnostic =>
      { diagnostic with position := ⟨number + 1, diagnostic.position.column⟩ } := by
  apply Lexeme.along_line_map
  intro column lexeme
  unfold Lexeme.fault?
  cases lexeme.content <;> rfl

theorem Token.of_line_succ (number : Nat) (closed : Bool) (line : List Char) :
    ofLine (number + 1) closed line = (ofLine number closed line).map fun token =>
      ⟨token.kind, ⟨number + 1, token.position.column⟩⟩ := by
  have along : Lexeme.alongLine Lexeme.token? (number + 1) 0 (lexemes line) =
      (Lexeme.alongLine Lexeme.token? number 0 (lexemes line)).map fun token =>
        ⟨token.kind, ⟨number + 1, token.position.column⟩⟩ := by
    apply Lexeme.along_line_map
    intro column lexeme
    unfold Lexeme.token?
    cases lexeme.content <;> rfl
  rw [ofLine, ofLine, along, List.map_append, List.isEmpty_map]
  split <;> rfl

theorem Placing.place_below {least number : Nat} (under : least ≤ number) (column : Nat) :
    (below least).place ⟨number, column⟩ = ⟨number + 1, column⟩ :=
  if_neg (Nat.not_lt.mpr under)

namespace Defines

variable (defines : Defines)

theorem scan_line_succ {least number : Nat} (under : least ≤ number) (line : List Char) :
    defines.scanLine (number + 1) line = (defines.scanLine number line).placedBy (.below least) := by
  have directives : defines.complaints (number + 1) line =
      (defines.complaints number line).map
        (Diagnostic.retold (Placing.below least).retelling) := by
    unfold complaints
    split
    · split
      · rfl
      · simp [Diagnostic.retold_retelling, Placing.place_below under]
    · rfl
  have faults : (defines.expandLine line).faults (number + 1) =
      ((defines.expandLine line).faults number).map
        (Diagnostic.retold (Placing.below least).retelling) := by
    rw [ExpandedLine.faults, ExpandedLine.faults, Diagnostic.of_line_succ, List.map_map, List.map_map]
    apply List.map_congr_left
    intro diagnostic _
    simp [Diagnostic.retold_retelling, Placing.place_below under]
  have tokens : (defines.expandLine line).tokens (number + 1) =
      ((defines.expandLine line).tokens number).map
        (Token.retold (Placing.below least).retelling) := by
    rw [ExpandedLine.tokens, ExpandedLine.tokens, Token.of_line_succ, List.map_map, List.map_map]
    apply List.map_congr_left
    intro token _
    simp [Token.retold_retelling, Placing.place_below under]
  rw [scanLine, directives, faults, tokens]
  rfl

theorem scan_succ {least number : Nat} (under : least ≤ number) (lines : List (List Char)) :
    defines.scan (number + 1) lines = (defines.scan number lines).placedBy (.below least) := by
  induction lines generalizing defines number with
  | nil => rfl
  | cons line lines induction =>
    rw [scan, scan, Scan.placed_by_append, defines.scan_line_succ under,
      induction (defines.afterLine line) (Nat.le_succ_of_le under)]

end Defines

/-! ### Token lines -/

theorem Lexeme.ends_line_of_token? {text : List Char} {lexeme : Lexeme}
    (member : lexeme ∈ lexemes text) {position : Position} {token : Token}
    (read : lexeme.token? position = some token) : token.kind.endsLine = false := by
  unfold token? at read
  cases content : lexeme.content with
  | gap | lineEnd => simp [content] at read
  | fault cause =>
    simp only [content, Option.some.injEq] at read
    rw [← read]
    rfl
  | token kind =>
    simp only [content, Option.some.injEq] at read
    obtain ⟨noFeed, noEnd, -⟩ := (sound_lexemes text lexeme member).is_written content
    rw [← read]
    simp [Token.Kind.endsLine, noFeed, noEnd]

/-- The tokens of a line end with a line end, if there are any. -/
theorem Token.of_line_cases (number : Nat) (line : List Char) :
    ofLine number true line = [] ∨ ∃ body, (∀ token ∈ body, token.kind.endsLine = false) ∧
      ofLine number true line = body ++ [⟨.newLine, ⟨number, line.length⟩⟩] := by
  rw [ofLine, Bool.true_and]
  by_cases none : (Lexeme.alongLine Lexeme.token? number 0 (lexemes line)).isEmpty
  · rw [List.isEmpty_iff.mp none]
    exact .inl rfl
  · rw [if_neg none]
    refine .inr ⟨_, ?_, rfl⟩
    intro token member
    obtain ⟨before, lexeme, after, cut, read⟩ := Lexeme.exists_of_mem_along_line member
    have here : lexeme ∈ lexemes line := by simp [cut]
    exact Lexeme.ends_line_of_token? here read

namespace Defines

theorem lines_scan_line_append (defines : Defines) (number : Nat) (line : List Char)
    (rest : List Token) :
    Token.lines ((defines.scanLine number line).tokens ++ rest) = Token.lines rest ∨
      Token.lines ((defines.scanLine number line).tokens ++ rest) =
        (defines.scanLine number line).tokens :: Token.lines rest := by
  rw [scanLine, ExpandedLine.tokens]
  rcases Token.of_line_cases number (defines.expandLine line).text with none | ⟨body, plain, found⟩
  · rw [none]
    exact .inl rfl
  · rw [found, List.map_append]
    refine .inr (Token.lines_append rest ?_ rfl)
    intro token member feed
    obtain ⟨original, inside, rfl⟩ := List.mem_map.mp member
    have other := plain original inside
    simp only at feed
    simp [feed, Token.Kind.endsLine] at other

/-- A line of tokens is what is scanned of one line. -/
theorem exists_of_mem_lines_scan {defines : Defines} {number : Nat} {lines : List (List Char)}
    {tokens : List Token} (member : tokens ∈ Token.lines (defines.scan number lines).tokens) :
    ∃ before line after, lines = before ++ line :: after ∧
      tokens = ((defines.afterLines before).scanLine (number + before.length) line).tokens := by
  induction lines generalizing defines number with
  | nil => cases member
  | cons line lines induction =>
    have later (found : tokens ∈ Token.lines ((defines.afterLine line).scan (number + 1) lines).tokens) :
        ∃ before other after, line :: lines = before ++ other :: after ∧
          tokens = ((defines.afterLines before).scanLine (number + before.length) other).tokens := by
      obtain ⟨before, other, after, rfl, same⟩ := induction found
      refine ⟨line :: before, other, after, rfl, ?_⟩
      rw [same, List.length_cons, Nat.add_right_comm, Nat.add_assoc]
      rfl
    rcases defines.lines_scan_line_append number line
      ((defines.afterLine line).scan (number + 1) lines).tokens with skipped | found
    · exact later (skipped ▸ member)
    · replace member : tokens ∈ _ :: _ := found ▸ member
      rcases List.mem_cons.mp member with rfl | behind
      · exact ⟨[], line, lines, rfl, rfl⟩
      · exact later behind

theorem tokens_scan_ne_end_of_input (defines : Defines) (number : Nat) (lines : List (List Char)) :
    ∀ token ∈ (defines.scan number lines).tokens, token.kind ≠ .endOfInput := by
  induction lines generalizing defines number with
  | nil => simp [scan]
  | cons line lines induction =>
    refine List.forall_mem_append.mpr ⟨?_, induction (defines.afterLine line) (number + 1)⟩
    intro token member final
    obtain ⟨original, found, rfl⟩ := List.mem_map.mp member
    replace final : original.kind = .endOfInput := final
    rcases Token.of_line_cases number (defines.expandLine line).text with none | ⟨body, plain, cut⟩
    · rw [none] at found
      cases found
    · rw [cut] at found
      rcases List.mem_append.mp found with early | last
      · have other := plain original early
        simp [final, Token.Kind.endsLine] at other
      · rw [List.mem_singleton.mp last] at final
        cases final

end Defines

/-! ### Sources -/

/-- An open first line without tokens has a line end of its own. -/
theorem Token.of_lines_open (number : Nat) {lines : List (List Char)} (some : lines ≠ []) :
    ofLines number false lines = ofLines number true lines ∨
      ∃ position, ofLines number false lines = ⟨.newLine, position⟩ :: ofLines number true lines := by
  obtain ⟨line, rest, rfl⟩ := List.exists_cons_of_ne_nil some
  rw [ofLines, ofLines, ofLine, ofLine]
  cases Lexeme.alongLine Lexeme.token? number 0 (lexemes line) with
  | nil => exact .inr ⟨_, rfl⟩
  | cons token tokens => exact .inl rfl

theorem Draft.run_feed {feed : Token} (ends : feed.kind = .newLine) (draft : Draft)
    (tokens : List Token) : draft.run (feed :: tokens) = draft.run tokens := by
  have skipped := draft.run_from_feed tokens (Cursor.ofTokens (feed :: tokens)).final ends
  by_cases none : tokens = []
  · subst none
    exact skipped
  · have last := Cursor.final_of_tokens_append [feed] none
    calc draft.run (feed :: tokens)
      _ = draft.runFrom ⟨tokens, (Cursor.ofTokens (feed :: tokens)).final⟩ := skipped
      _ = draft.runFrom ⟨tokens, (Cursor.ofTokens tokens).final⟩ := by rw [← last]; rfl
      _ = draft.run tokens := rfl

theorem Scan.assembly_feed {feed : Token} (ends : feed.kind = .newLine)
    (directives faults : List Diagnostic) (tokens : List Token) (origin : UInt16) :
    Scan.assembly ⟨directives, faults, feed :: tokens⟩ origin =
      Scan.assembly ⟨directives, faults, tokens⟩ origin := by
  simp only [assembly, complaints, resolved, draft, Draft.run_feed ends]

theorem leads_of_source (source : List Char) :
    Defines.Leads (Expansion.ofSource source).sourcePosition 0
      (Defines.empty.expandLines (Text.splitLines (Text.normalize source))) := by
  intro index expanded found column
  apply Expansion.source_position_of_line
  rw [Nat.zero_add, Expansion.ofSource, Expansion.of_text_eq, List.getElem?_toArray]
  exact found

/-- A source is assembled from what is scanned of its lines. -/
theorem assemble_eq_lines (origin : UInt16) (source : List Char) :
    assemble origin source =
      (Defines.empty.scan 0 (Text.splitLines (Text.normalize source))).assembly origin := by
  have listed : (Expansion.ofSource source).lines.toList =
      Defines.empty.expandLines (Text.splitLines (Text.normalize source)) := by
    rw [Expansion.ofSource, Expansion.of_text_eq]
  have some : (Expansion.ofSource source).lines.toList ≠ [] := Expansion.lines_of_text_ne_nil _
  have flat : ∀ expanded ∈ (Expansion.ofSource source).lines.toList, IsFlat expanded.text :=
    Expansion.is_flat_lines_of_text source
  have directives : (Expansion.ofSource source).diagnostics =
      (Defines.empty.scan 0 (Text.splitLines (Text.normalize source))).directives := by
    rw [Defines.directives_scan, Expansion.ofSource, Expansion.of_text_eq]
  have faults := Defines.faults_scan _ (leads_of_source source)
  have tokens := Defines.tokens_scan _ (leads_of_source source)
  rw [← listed] at faults tokens
  rw [assemble_eq_scan, Expansion.scan, directives, Expansion.lexicalFaults,
    Expansion.lexical_faults_text flat, Expansion.tokens, Expansion.tokenize_text some flat, ← faults]
  rcases Token.of_lines_open 0 (mt List.map_eq_nil_iff.mp some) with same | ⟨position, opened⟩
  · rw [same, ← tokens]
  · rw [opened, List.map_cons, Scan.assembly_feed rfl, ← tokens]

theorem assemble_join_lines (origin : UInt16) {lines : List (List Char)} (some : lines ≠ [])
    (flat : ∀ line ∈ lines, IsFlat line) :
    assemble origin (Text.joinLines lines) = (Defines.empty.scan 0 lines).assembly origin := by
  rw [assemble_eq_lines, Text.split_lines_normalize_join_lines some flat]

end Z80Toolchain
