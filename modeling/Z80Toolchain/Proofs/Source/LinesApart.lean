import Z80Toolchain.Proofs.Source.ExpandedLines
import Z80Toolchain.Proofs.Source.Substitution
import Z80Toolchain.Proofs.Source.TokenPlaces

/-!
Tokens line by line. A line feed ends every lexeme, so a text has the lexemes of its lines, and its
tokens are those of each line by itself, put to the number of the line. Only the line end of a line
without tokens depends on its surroundings: it is a token on the first line only.
-/
namespace Z80Toolchain

/-! ### Text behind a line -/

theorem take_while_append_stops {p : Char → Bool} {rest : List Char} (stops : Stops p rest)
    (line : List Char) : (line ++ rest).takeWhile p = line.takeWhile p := by
  rw [List.takeWhile_append]
  split
  · next whole =>
    rw [(List.takeWhile_prefix p).eq_of_length whole]
    cases rest with
    | nil => simp
    | cons c rest => simp [stops c rfl]
  · rfl

theorem drop_while_append_stops {p : Char → Bool} {rest : List Char} (stops : Stops p rest)
    (line : List Char) : (line ++ rest).dropWhile p = line.dropWhile p ++ rest := by
  rw [List.dropWhile_append]
  split
  · next nothing =>
    rw [List.isEmpty_iff.mp nothing, List.nil_append]
    cases rest with
    | nil => rfl
    | cons c rest => simp [stops c rfl]
  · rfl

namespace Lexeme

theorem name_append {rest : List Char} (noColon : rest.head? ≠ some ':') (text more : List Char) :
    name text (more ++ rest) = name text more := by
  unfold name
  cases more with
  | nil => simp [noColon]
  | cons c more => rfl

/-- Nothing goes on in delimited text but quoted lexemes and comments. -/
theorem first_append {c : Char} (plain : c ≠ ';' ∧ c ≠ '\'' ∧ c ≠ '"') {rest : List Char}
    (delimited : Delimited rest) (line : List Char) : first c (line ++ rest) = first c line := by
  have inNames : Stops isNameChar rest := delimited.stops fun _ => id
  have inVariables : Stops isVariableChar rest :=
    delimited.stops fun _ => is_name_char_of_is_variable_char
  have inNumerals : Stops isNumeralChar rest := delimited.stops fun _ => is_name_char_of_is_numeral_char
  have noColon : rest.head? ≠ some ':' := fun colon => (delimited ':' colon).2 rfl
  unfold first
  split
  case h_3 => exact absurd rfl plain.1
  case h_10 => rw [take_while_append_stops inVariables]
  case h_11 => exact absurd rfl plain.2.1
  case h_12 => exact absurd rfl plain.2.2
  case h_13 =>
    rw [take_while_append_stops inNumerals, take_while_append_stops inNames, drop_while_append_stops inNames,
      name_append noColon]
  all_goals rfl

theorem recovery_eq (mark : Char) (rest : List Char) :
    recovery mark rest = rest.takeWhile (fun c => c != mark && c != '\n') ++
      if (rest.dropWhile fun c => c != mark && c != '\n').head? = some mark then [mark] else [] := by
  unfold recovery
  dsimp only
  rw [drop_length_take_while]
  cases rest.dropWhile fun c => c != mark && c != '\n' with
  | nil => simp
  | cons c more =>
    dsimp only
    split <;> simp_all

theorem recovery_feed {mark : Char} (flat : mark ≠ '\n') (line rest : List Char) :
    recovery mark (line ++ '\n' :: rest) = recovery mark line := by
  have stops : Stops (fun c => c != mark && c != '\n') ('\n' :: rest) := by simp [Stops]
  rw [recovery_eq, recovery_eq, take_while_append_stops stops, drop_while_append_stops stops]
  cases line.dropWhile fun c => c != mark && c != '\n' with
  | nil => simp [flat.symm]
  | cons c more => rfl

theorem quoted_char_feed (line rest : List Char) :
    quotedChar (line ++ '\n' :: rest) = quotedChar line := by
  fun_cases quotedChar line with
  | case5 letter more other =>
    simp only [List.cons_append]
    rw [quotedChar]
    exact other
  | case6 c more other noEnd _ noLetter =>
    exact quoted_char_append (.plain (ne_backslash noEnd noLetter) other) (more ++ '\n' :: rest)
  | _ => rfl

theorem string_body_feed (line rest : List Char) :
    stringBody (line ++ '\n' :: rest) = stringBody line := by
  fun_induction stringBody line with
  | case6 letter more other c known induction =>
    simp only [List.cons_append]
    rw [stringBody, known]
    · dsimp only
      rw [induction]
    · exact other
  | case7 letter more other unknown =>
    simp only [List.cons_append]
    rw [stringBody, unknown]
    · dsimp only
      rw [recovery_feed (by decide)]
    · exact other
  | case8 c more noQuote other noEnd _ noLetter induction =>
    have noEscape := ne_backslash noEnd noLetter
    simp only [List.cons_append]
    rw [stringBody, induction]
    all_goals simp_all
  | _ => rfl

theorem character_feed (line rest : List Char) :
    character (line ++ '\n' :: rest) = character line := by
  obtain ⟨more, whole⟩ := (piece_quoted_char line).1
  unfold character
  rw [quoted_char_feed]
  generalize quotedChar line = read at whole ⊢
  obtain ⟨value, source⟩ := read
  obtain rfl : source ++ more = line := whole
  simp only [List.append_assoc, List.drop_left]
  have skipped := recovery_feed (show '\'' ≠ '\n' by decide) more rest
  cases more with
  | nil =>
    rw [List.nil_append] at skipped
    cases value <;> simp [skipped]
  | cons c more =>
    rw [List.cons_append] at skipped
    by_cases closes : c = '\''
    · subst closes
      cases value <;> simp [skipped]
    · cases value <;> simp [closes, skipped]

/-- A line feed ends every lexeme. -/
theorem first_feed (c : Char) (line rest : List Char) :
    first c (line ++ '\n' :: rest) = first c line := by
  by_cases plain : c ≠ ';' ∧ c ≠ '\'' ∧ c ≠ '"'
  · exact first_append plain (delimited_feed rest) line
  · have special : c = ';' ∨ c = '\'' ∨ c = '"' := by
      simpa only [← not_or, Decidable.not_not] using plain
    rcases special with rfl | rfl | rfl
    · simp only [first]
      rw [take_while_append_stops (by simp [Stops])]
    · exact character_feed line rest
    · simp only [first, string, string_body_feed]

end Lexeme

/-- A text has the lexemes of its first line, a line end, and the lexemes of its other lines. -/
theorem lexemes_line (line rest : List Char) :
    lexemes (line ++ '\n' :: rest) = lexemes line ++ ⟨['\n'], .lineEnd⟩ :: lexemes rest := by
  induction line using lexemes.induct with
  | case1 => rw [List.nil_append, lexemes_feed, lexemes_nil, List.nil_append]
  | case2 c line induction =>
    obtain ⟨taken, text, ⟨more, rfl⟩, -⟩ := Lexeme.cut_from_first c line
    rw [text] at induction
    simp only [List.length_cons, Nat.add_sub_cancel, List.drop_left] at induction
    have same := Lexeme.first_feed c (taken ++ more) rest
    rw [List.append_assoc] at same
    rw [List.cons_append, List.append_assoc, lexemes_append same text, lexemes_append rfl text,
      induction, List.cons_append]

/-! ### One line -/

theorem Position.advance_flat {text : List Char} (flat : '\n' ∉ text) (position : Position) :
    position.advance text = ⟨position.line, position.column + text.length⟩ := by
  induction text generalizing position with
  | nil => rfl
  | cons c text induction =>
    have other : c ≠ '\n' := fun feed => flat (by simp [feed])
    have step := induction (fun member => flat (by simp [member])) (position.next c)
    rw [next, if_neg other] at step
    rw [advance, List.foldl_cons, ← advance, next, if_neg other, step, List.length_cons,
      Nat.add_right_comm]
    rfl

namespace Lexeme

def token? (position : Position) (lexeme : Lexeme) : Option Token :=
  match lexeme.content with
  | .token kind => some ⟨kind, position⟩
  | .fault _ => some ⟨.bad (String.ofList lexeme.text), position⟩
  | .gap | .lineEnd => none

def fault? (position : Position) (lexeme : Lexeme) : Option Diagnostic :=
  match lexeme.content with
  | .fault cause => some ⟨position, cause, some (.bad (String.ofList lexeme.text))⟩
  | _ => none

theorem token?_place {position : Position} {lexeme : Lexeme} {token : Token}
    (read : lexeme.token? position = some token) (other : Position) :
    token.position = position ∧ lexeme.token? other = some ⟨token.kind, other⟩ := by
  unfold token? at read ⊢
  cases content : lexeme.content with
  | gap | lineEnd => simp [content] at read
  | token kind | fault cause =>
    simp only [content, Option.some.injEq] at read
    rw [← read]
    exact ⟨rfl, rfl⟩

theorem fault?_place {position : Position} {lexeme : Lexeme} {diagnostic : Diagnostic}
    (read : lexeme.fault? position = some diagnostic) : diagnostic.position = position := by
  unfold fault? at read
  cases content : lexeme.content with
  | fault cause =>
    simp only [content, Option.some.injEq] at read
    rw [← read]
  | gap | lineEnd | token kind => simp [content] at read

/-- What lexemes on one line give, each at its column. -/
def alongLine {α : Type} (read : Position → Lexeme → Option α) (number column : Nat) :
    List Lexeme → List α
  | [] => []
  | lexeme :: rest =>
    (read ⟨number, column⟩ lexeme).toList ++
      alongLine read number (column + lexeme.text.length) rest

structure InLine (lexeme : Lexeme) : Prop where
  noEnd : lexeme.content ≠ .lineEnd
  flat : '\n' ∉ lexeme.text

theorem flat_map_text_lexemes (text : List Char) : (lexemes text).flatMap Lexeme.text = text := by
  fun_induction lexemes text with
  | case1 => rfl
  | case2 c rest induction =>
    obtain ⟨taken, text, ⟨more, rfl⟩, -⟩ := cut_from_first c rest
    rw [List.flatMap_cons, induction, text]
    simp

theorem in_line_lexemes {line : List Char} (flat : '\n' ∉ line) :
    ∀ lexeme ∈ lexemes line, lexeme.InLine := by
  intro lexeme member
  have inside : '\n' ∉ lexeme.text := by
    intro feed
    apply flat
    rw [← flat_map_text_lexemes line]
    exact List.mem_flatMap_of_mem member feed
  cases sound_lexemes line lexeme member with
  | feed => simp at inside
  | inLine proper _ => exact ⟨proper.inLine, inside⟩

variable {pieces : List Lexeme}

theorem tokens_from_append (inLine : ∀ lexeme ∈ pieces, lexeme.InLine) (number column : Nat)
    (closed : Bool) (rest : List Lexeme) :
    tokensFrom ⟨number, column⟩ closed (pieces ++ rest) =
      alongLine token? number column pieces ++
        tokensFrom ⟨number, column + (pieces.flatMap text).length⟩
          (closed && (alongLine token? number column pieces).isEmpty) rest := by
  induction pieces generalizing column closed with
  | nil => simp [alongLine]
  | cons lexeme pieces induction =>
    obtain ⟨here, later⟩ := List.forall_mem_cons.mp inLine
    have behind := induction later (column + lexeme.text.length)
    rw [List.cons_append, tokensFrom, alongLine, token?, Position.advance_flat here.flat,
      List.flatMap_cons, List.length_append, ← Nat.add_assoc]
    cases content : lexeme.content with
    | gap => exact behind closed
    | lineEnd => exact absurd content here.noEnd
    | token kind =>
      dsimp only
      rw [behind]
      simp
    | fault cause =>
      dsimp only
      rw [behind]
      simp

theorem faults_from_append (inLine : ∀ lexeme ∈ pieces, lexeme.InLine) (number column : Nat)
    (rest : List Lexeme) :
    faultsFrom ⟨number, column⟩ (pieces ++ rest) =
      alongLine fault? number column pieces ++
        faultsFrom ⟨number, column + (pieces.flatMap text).length⟩ rest := by
  induction pieces generalizing column with
  | nil => simp [alongLine]
  | cons lexeme pieces induction =>
    obtain ⟨here, later⟩ := List.forall_mem_cons.mp inLine
    have behind := induction later (column + lexeme.text.length)
    rw [List.cons_append, faultsFrom, alongLine, fault?, Position.advance_flat here.flat,
      List.flatMap_cons, List.length_append, ← Nat.add_assoc]
    dsimp only
    rw [behind]
    cases lexeme.content <;> rfl

/-- What is found along a line comes from one of its lexemes, at the column where it starts. -/
theorem exists_of_mem_along_line {α : Type} {read : Position → Lexeme → Option α}
    {number column : Nat} {item : α} (member : item ∈ alongLine read number column pieces) :
    ∃ before lexeme after, pieces = before ++ lexeme :: after ∧
      read ⟨number, column + (before.flatMap text).length⟩ lexeme = some item := by
  induction pieces generalizing column with
  | nil => cases member
  | cons lexeme pieces induction =>
    rcases List.mem_append.mp member with here | later
    · exact ⟨[], lexeme, pieces, rfl, Option.mem_toList.mp here⟩
    · obtain ⟨before, found, after, rfl, reads⟩ := induction later
      refine ⟨lexeme :: before, found, after, rfl, ?_⟩
      rwa [List.flatMap_cons, List.length_append, ← Nat.add_assoc]

/-- A lexeme stands in its text behind the lexemes in front of it. -/
theorem head?_of_cut {text : List Char} {before after : List Lexeme} {lexeme : Lexeme}
    (cut : lexemes text = before ++ lexeme :: after) :
    (before.flatMap Lexeme.text).length < text.length ∧
      text[(before.flatMap Lexeme.text).length]? = lexeme.text.head? := by
  have member : lexeme ∈ lexemes text := by simp [cut]
  have some := List.length_pos_iff.mpr (text_ne_nil text lexeme member)
  have whole := flat_map_text_lexemes text
  rw [cut, List.flatMap_append, List.flatMap_cons] at whole
  rw [← whole]
  constructor
  · simp only [List.length_append]
    omega
  · rw [List.getElem?_append_right (Nat.le_refl _), Nat.sub_self, List.getElem?_append_left some,
      List.head?_eq_getElem?]

end Lexeme

/-! ### Lines -/

/-- The tokens of a line of this number. Behind a line end, a line without tokens has none. -/
def Token.ofLine (number : Nat) (closed : Bool) (line : List Char) : List Token :=
  Lexeme.alongLine Lexeme.token? number 0 (lexemes line) ++
    if closed && (Lexeme.alongLine Lexeme.token? number 0 (lexemes line)).isEmpty then []
    else [⟨.newLine, ⟨number, line.length⟩⟩]

def Diagnostic.ofLine (number : Nat) (line : List Char) : List Diagnostic :=
  Lexeme.alongLine Lexeme.fault? number 0 (lexemes line)

theorem Token.line_of_mem_of_line {number : Nat} {closed : Bool} {line : List Char} {token : Token}
    (member : token ∈ ofLine number closed line) : token.position.line = number := by
  rcases List.mem_append.mp member with inLine | last
  · obtain ⟨before, lexeme, after, -, read⟩ := Lexeme.exists_of_mem_along_line inLine
    rw [(Lexeme.token?_place read .start).1]
  · split at last
    · cases last
    · rw [List.mem_singleton.mp last]

theorem Token.column_le_of_mem_of_line {number : Nat} {closed : Bool} {line : List Char} {token : Token}
    (member : token ∈ ofLine number closed line) : token.position.column ≤ line.length ∧
      (token.kind ≠ .newLine → token.position.column < line.length) := by
  rcases List.mem_append.mp member with inLine | last
  · obtain ⟨before, lexeme, after, cut, read⟩ := Lexeme.exists_of_mem_along_line inLine
    have inside := (Lexeme.head?_of_cut cut).1
    rw [(Lexeme.token?_place read .start).1, Nat.zero_add]
    exact ⟨Nat.le_of_lt inside, fun _ => inside⟩
  · split at last
    · cases last
    · rw [List.mem_singleton.mp last]
      exact ⟨Nat.le_refl _, fun other => absurd rfl other⟩

theorem Diagnostic.line_of_mem_of_line {number : Nat} {line : List Char} {diagnostic : Diagnostic}
    (member : diagnostic ∈ ofLine number line) : diagnostic.position.line = number := by
  obtain ⟨before, lexeme, after, -, read⟩ := Lexeme.exists_of_mem_along_line member
  rw [Lexeme.fault?_place read]

theorem Diagnostic.column_lt_of_mem_of_line {number : Nat} {line : List Char} {diagnostic : Diagnostic}
    (member : diagnostic ∈ ofLine number line) : diagnostic.position.column < line.length := by
  obtain ⟨before, lexeme, after, cut, read⟩ := Lexeme.exists_of_mem_along_line member
  rw [Lexeme.fault?_place read, Nat.zero_add]
  exact (Lexeme.head?_of_cut cut).1

def Token.ofLines (number : Nat) (closed : Bool) : List (List Char) → List Token
  | [] => []
  | line :: rest => ofLine number closed line ++ ofLines (number + 1) true rest

def Diagnostic.ofLines (number : Nat) : List (List Char) → List Diagnostic
  | [] => []
  | line :: rest => ofLine number line ++ ofLines (number + 1) rest

/-- Only the first line can be open. -/
theorem Token.exists_of_mem_of_lines {lines : List (List Char)} {number : Nat} {closed : Bool}
    {token : Token} (member : token ∈ ofLines number closed lines) :
    ∃ index line, lines[index]? = some line ∧
      token ∈ ofLine (number + index) (closed || index != 0) line := by
  induction lines generalizing number closed with
  | nil => cases member
  | cons line lines induction =>
    rcases List.mem_append.mp member with here | later
    · exact ⟨0, line, rfl, by simpa using here⟩
    · obtain ⟨index, other, found, inside⟩ := induction later
      refine ⟨index + 1, other, found, ?_⟩
      rw [Nat.add_right_comm, Nat.add_assoc] at inside
      simpa using inside

theorem tokens_from_join_lines {lines : List (List Char)} (some : lines ≠ [])
    (flat : ∀ line ∈ lines, '\n' ∉ line) (number : Nat) (closed : Bool) :
    Lexeme.tokensFrom ⟨number, 0⟩ closed (lexemes (Text.joinLines lines)) =
      Token.ofLines number closed lines := by
  induction lines generalizing number closed with
  | nil => exact absurd rfl some
  | cons line lines induction =>
    obtain ⟨here, later⟩ := List.forall_mem_cons.mp flat
    have inLine := Lexeme.in_line_lexemes here
    cases lines with
    | nil =>
      have cut := Lexeme.tokens_from_append inLine number 0 closed []
      rw [List.append_nil, Lexeme.flat_map_text_lexemes, Nat.zero_add] at cut
      rw [Text.joinLines, cut]
      simp [Token.ofLines, Token.ofLine, Lexeme.tokensFrom]
    | cons next lines =>
      have behind := induction (List.cons_ne_nil _ _) later (number + 1) true
      rw [Text.joinLines, lexemes_line, Lexeme.tokens_from_append inLine,
        Lexeme.flat_map_text_lexemes, Nat.zero_add, Lexeme.tokensFrom]
      dsimp only
      rw [show Position.advance ⟨number, line.length⟩ ['\n'] = ⟨number + 1, 0⟩ from rfl, behind,
        show Token.ofLines number closed (line :: next :: lines) = Token.ofLine number closed line ++
          Token.ofLines (number + 1) true (next :: lines) from rfl, Token.ofLine]
      generalize Token.ofLines (number + 1) true (next :: lines) = others
      split <;> simp

theorem faults_from_join_lines {lines : List (List Char)} (flat : ∀ line ∈ lines, '\n' ∉ line)
    (number : Nat) :
    Lexeme.faultsFrom ⟨number, 0⟩ (lexemes (Text.joinLines lines)) =
      Diagnostic.ofLines number lines := by
  induction lines generalizing number with
  | nil =>
    rw [Text.joinLines, lexemes_nil]
    rfl
  | cons line lines induction =>
    obtain ⟨here, later⟩ := List.forall_mem_cons.mp flat
    have inLine := Lexeme.in_line_lexemes here
    cases lines with
    | nil =>
      have cut := Lexeme.faults_from_append inLine number 0 []
      rw [List.append_nil] at cut
      rw [Text.joinLines, cut]
      rfl
    | cons next lines =>
      have behind := induction later (number + 1)
      rw [Text.joinLines, lexemes_line, Lexeme.faults_from_append inLine,
        Lexeme.flat_map_text_lexemes, Nat.zero_add, Lexeme.faultsFrom]
      dsimp only
      rw [show Position.advance ⟨number, line.length⟩ ['\n'] = ⟨number + 1, 0⟩ from rfl, behind]
      rfl

/-! ### Expanded sources -/

namespace Defines

theorem Plain.after_line {defines : Defines} (plain : defines.Plain) {line : List Char}
    (flat : IsFlat line) : (defines.afterLine line).Plain := by
  have step := @Expansion.plain_add_line ⟨#[], defines, []⟩ plain line flat
  rwa [Expansion.add_line_eq] at step

theorem Plain.after_lines {defines : Defines} (plain : defines.Plain) {lines : List (List Char)}
    (flat : ∀ line ∈ lines, IsFlat line) : (defines.afterLines lines).Plain := by
  have run := @Expansion.plain_foldl_add_line lines flat ⟨#[], defines, []⟩ plain
  rwa [Expansion.foldl_add_line_eq] at run

theorem plain_empty : empty.Plain := by
  intro entry member
  cases member

theorem text_expand_line (defines : Defines) {line : List Char} (code : IsCode line) :
    (defines.expandLine line).text = defines.expand line := by
  rw [expand_line_of_is_code defines code, ExpandedLine.ofSubstitution]
  split
  · next same => exact same.symm
  · rfl

theorem Plain.is_flat_expand_line {defines : Defines} (plain : defines.Plain) {line : List Char}
    (flat : IsFlat line) : IsFlat (defines.expandLine line).text := by
  by_cases code : IsCode line
  · rw [defines.text_expand_line code]
    exact plain.is_flat_expand flat
  · rw [defines.expand_line_of_not_is_code code]
    simp [ExpandedLine.unchanged, IsFlat]

theorem Plain.is_flat_expand_lines {defines : Defines} (plain : defines.Plain)
    {lines : List (List Char)} (flat : ∀ line ∈ lines, IsFlat line) :
    ∀ expanded ∈ defines.expandLines lines, IsFlat expanded.text := by
  induction lines generalizing defines with
  | nil => simp [expandLines]
  | cons line lines induction =>
    obtain ⟨here, later⟩ := List.forall_mem_cons.mp flat
    exact List.forall_mem_cons.mpr
      ⟨plain.is_flat_expand_line here, induction (plain.after_line here) later⟩

end Defines

namespace Expansion

variable {expansion : Expansion}

theorem normalize_text (flat : ∀ expanded ∈ expansion.lines.toList, IsFlat expanded.text) :
    Text.normalize expansion.text = expansion.text := by
  apply Text.normalize_join_lines
  intro line member
  obtain ⟨expanded, listed, rfl⟩ := List.mem_map.mp member
  exact flat expanded listed

theorem no_feed_lines (flat : ∀ expanded ∈ expansion.lines.toList, IsFlat expanded.text) :
    ∀ line ∈ expansion.lines.toList.map ExpandedLine.text, '\n' ∉ line := by
  intro line member
  obtain ⟨expanded, listed, rfl⟩ := List.mem_map.mp member
  exact (flat expanded listed).no_feed

/-- The tokens of an expanded source are those of its lines. -/
theorem tokenize_text (some : expansion.lines.toList ≠ [])
    (flat : ∀ expanded ∈ expansion.lines.toList, IsFlat expanded.text) :
    tokenize expansion.text =
      Token.ofLines 0 false (expansion.lines.toList.map ExpandedLine.text) := by
  rw [tokenize, normalize_text flat]
  exact tokens_from_join_lines (by simpa using some) (no_feed_lines flat) 0 false

theorem lexical_faults_text
    (flat : ∀ expanded ∈ expansion.lines.toList, IsFlat expanded.text) :
    Z80Toolchain.lexicalFaults expansion.text =
      Diagnostic.ofLines 0 (expansion.lines.toList.map ExpandedLine.text) := by
  rw [Z80Toolchain.lexicalFaults, normalize_text flat]
  exact faults_from_join_lines (no_feed_lines flat) 0

theorem lines_of_text_ne_nil (text : List Char) : (ofText text).lines.toList ≠ [] := by
  intro none
  have length := size_lines_of_text text
  rw [← Array.length_toList, none] at length
  exact Text.split_lines_ne_nil text (List.length_eq_zero_iff.mp length.symm)

theorem is_flat_lines_of_text (source : List Char) :
    ∀ expanded ∈ (ofText (Text.normalize source)).lines.toList, IsFlat expanded.text := by
  rw [of_text_eq]
  exact Defines.plain_empty.is_flat_expand_lines fun line => Text.is_flat_of_mem_split_lines

end Expansion

end Z80Toolchain
