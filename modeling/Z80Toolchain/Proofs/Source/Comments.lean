import Z80Toolchain.Proofs.Source.LinesApart
import Z80Toolchain.Proofs.Source.SourceColumns

/-!
A comment behind a line. Three scanners look for it: that of directives, the one that replaces names,
and the tokenizer. The first takes any semicolon for the start of the comment. The second may still be
inside a literal, which then goes on in the comment; all in front of the comment is expanded as before
nevertheless. The third is stopped by a literal only if that literal is broken.
-/
namespace Z80Toolchain

variable {line comment : List Char}

theorem is_flat_comment (flat : IsFlat line) (flatComment : IsFlat comment) :
    IsFlat (line ++ ';' :: comment) := by
  intro c member
  rcases List.mem_append.mp member with inLine | behind
  · exact flat c inLine
  · rcases List.mem_cons.mp behind with rfl | inComment
    · decide
    · exact flatComment c inComment

/-! ### Directives -/

theorem trim_start_comment (line comment : List Char) :
    Text.trimStart (line ++ ';' :: comment) = Text.trimStart line ++ ';' :: comment :=
  drop_while_append_stops (by simp [Stops]; decide) line

theorem is_code_comment : IsCode (line ++ ';' :: comment) ↔ IsCode line := by
  unfold IsCode
  rw [trim_start_comment]
  cases Text.trimStart line with
  | nil => simp
  | cons c rest => rfl

theorem direct_comment (defines : Defines) (directive comment : List Char) :
    Expansion.direct defines (directive ++ ';' :: comment) = Expansion.direct defines directive := by
  unfold Expansion.direct Directive.parse
  rw [take_while_append_stops (by simp [Stops])]

namespace Defines

variable (defines : Defines)

theorem after_line_comment (line comment : List Char) :
    defines.afterLine (line ++ ';' :: comment) = defines.afterLine line := by
  by_cases code : IsCode line
  · rw [after_line_of_is_code defines code, after_line_of_is_code defines (is_code_comment.mpr code)]
  · obtain ⟨directive, percent⟩ := exists_directive_of_not_is_code code
    simp only [afterLine, trim_start_comment, percent, List.cons_append, direct_comment]

theorem complaints_comment (number : Nat) (line comment : List Char) :
    defines.complaints number (line ++ ';' :: comment) = defines.complaints number line := by
  by_cases code : IsCode line
  · rw [complaints_of_is_code defines code, complaints_of_is_code defines (is_code_comment.mpr code)]
  · obtain ⟨directive, percent⟩ := exists_directive_of_not_is_code code
    have blanks : (line ++ ';' :: comment).takeWhile Text.isBlank = line.takeWhile Text.isBlank :=
      take_while_append_stops (by simp [Stops]; decide) line
    simp only [complaints, trim_start_comment, percent, List.cons_append, direct_comment, blanks]

end Defines

/-! ### Fragments -/

namespace Fragment

theorem literal_rest_cons {mark c : Char} (noEscape : c ≠ '\\') (rest : List Char) :
    literalRest mark (c :: rest) =
      if c = mark then c :: marksBehind mark rest else c :: literalRest mark rest := by
  rw [literalRest]
  all_goals simp [noEscape]

/-- A literal that is not closed on its line takes in the start of the comment. -/
theorem literal_rest_comment {mark : Char} (other : mark ≠ ';') (rest comment : List Char) :
    literalRest mark (rest ++ ';' :: comment) = literalRest mark rest ∨
      literalRest mark rest = rest ∧ ∃ more behind, comment = more ++ behind ∧
        literalRest mark (rest ++ ';' :: comment) = rest ++ ';' :: more := by
  obtain ⟨behind, whole⟩ := literal_rest_leads mark comment
  fun_induction literalRest mark rest with
  | case1 =>
    refine .inr ⟨rfl, _, behind, whole.symm, ?_⟩
    rw [List.nil_append, literal_rest_cons (by decide), if_neg other.symm, List.nil_append]
  | case2 => exact .inr ⟨rfl, _, behind, whole.symm, rfl⟩
  | case3 c rest induction =>
    simp only [List.cons_append, literalRest, List.cons.injEq, true_and]
    exact induction
  | case4 rest noEnd noLetter =>
    left
    rw [List.cons_append, literal_rest_cons (Lexeme.ne_backslash noEnd noLetter), if_pos rfl,
      marksBehind, marksBehind, take_while_append_stops (by simp [Stops])]
  | case5 c rest noEnd noLetter goesOn induction =>
    rw [List.cons_append, literal_rest_cons (Lexeme.ne_backslash noEnd noLetter), if_neg goesOn]
    simp only [List.cons_append, List.cons.injEq, true_and]
    exact induction

/-- A fragment ends in front of the comment, or it is copied and reaches into it. -/
theorem first_comment (c : Char) (rest comment : List Char) :
    first c (rest ++ ';' :: comment) = first c rest ∨
      first c rest = copied (c :: rest) ∧ ∃ more behind, comment = more ++ behind ∧
        first c (rest ++ ';' :: comment) = copied (c :: (rest ++ ';' :: more)) := by
  have names : (rest ++ ';' :: comment).takeWhile isNameChar = rest.takeWhile isNameChar :=
    take_while_append_stops (by simp [Stops]; decide) rest
  unfold first
  rw [names]
  split
  · exact .inr ⟨rfl, comment, [], by simp, rfl⟩
  · next noComment =>
    split
    · have literal := literal_rest_comment noComment rest comment
      simpa only [copied.injEq, List.cons.injEq, true_and] using literal
    · exact .inl rfl

end Fragment

theorem fragments_semicolon (comment : List Char) :
    fragments (';' :: comment) = [.copied (';' :: comment)] := by
  have whole : Fragment.first ';' (comment ++ []) = .copied (';' :: comment) := by
    rw [List.append_nil]
    rfl
  have cut := fragments_append whole rfl
  rwa [List.append_nil, fragments] at cut

/-- The fragments of a line stay in front of a comment, but the last one may go on if it is copied. -/
theorem fragments_comment (line comment : List Char) :
    ∃ front opened more behind, fragments line = front ++ opened ∧
      (∀ fragment ∈ opened, ∃ text, fragment = .copied text) ∧
      fragments (line ++ ';' :: comment) =
        front ++ .copied (opened.flatMap Fragment.text ++ ';' :: more) :: behind := by
  induction line using fragments.induct with
  | case1 =>
    exact ⟨[], [], comment, [], by rw [fragments]; rfl, by simp, fragments_semicolon comment⟩
  | case2 c rest induction =>
    obtain ⟨taken, text, remaining, rfl⟩ := Fragment.text_first c rest
    rw [text] at induction
    simp only [List.length_cons, Nat.add_sub_cancel, List.drop_left] at induction
    rcases Fragment.first_comment c (taken ++ remaining) comment with same | reaches
    · obtain ⟨front, opened, more, behind, cut, copied, found⟩ := induction
      refine ⟨Fragment.first c (taken ++ remaining) :: front, opened, more, behind, ?_, copied, ?_⟩
      · rw [fragments_append rfl text, cut, List.cons_append]
      · rw [List.append_assoc] at same
        rw [List.cons_append, List.append_assoc, fragments_append same text, found, List.cons_append]
    · obtain ⟨all, more, behind, rfl, found⟩ := reaches
      obtain rfl : remaining = [] := by simpa [all, Fragment.text] using text
      refine ⟨[], [.copied (c :: taken)], more, fragments behind, ?_, by simp, ?_⟩
      · rw [fragments_append rfl text, all, List.append_nil, fragments]
        rfl
      · rw [List.append_nil] at found
        have cut := @fragments_append c (taken ++ ';' :: more) behind _ (by simpa using found) rfl
        simpa [Fragment.text] using cut

/-! ### Expanded lines -/

namespace Defines

variable (defines : Defines)

theorem substitute_from_kept {fragments : List Fragment}
    (kept : ∀ fragment ∈ fragments, defines.replacement? fragment = none) (column : Nat) :
    defines.substituteFrom column fragments = (fragments.flatMap Fragment.text).zipIdx column := by
  induction fragments generalizing column with
  | nil => rfl
  | cons fragment fragments induction =>
    obtain ⟨here, later⟩ := List.forall_mem_cons.mp kept
    rw [substitute_from_cons, induction later, List.flatMap_cons, List.zipIdx_append, placeFragment,
      here]

/-- All in front of a comment is expanded as before. -/
theorem substitute_comment (line comment : List Char) :
    ∃ tail, defines.substitute (line ++ ';' :: comment) =
      defines.substitute line ++ (';', line.length) :: tail := by
  obtain ⟨front, opened, more, behind, cut, copied, found⟩ := fragments_comment line comment
  have length : line.length =
      (front.flatMap Fragment.text).length + (opened.flatMap Fragment.text).length := by
    rw [← flat_map_text_fragments line, cut, List.flatMap_append, List.length_append]
  have kept : ∀ fragment ∈ opened, defines.replacement? fragment = none := by
    intro fragment member
    obtain ⟨text, rfl⟩ := copied fragment member
    rfl
  have plain : defines.substitute line = defines.substituteFrom 0 front ++
      (opened.flatMap Fragment.text).zipIdx (front.flatMap Fragment.text).length := by
    rw [substitute, cut, substitute_from_append, substitute_from_kept defines kept, Nat.zero_add]
  refine ⟨more.zipIdx (line.length + 1) ++
    defines.substituteFrom (line.length + (';' :: more).length) behind, ?_⟩
  rw [plain, substitute, found, substitute_from_append, substitute_from_cons, length]
  simp [placeFragment, replacement?, Fragment.text, List.zipIdx_append, Nat.add_assoc]

theorem expand_comment (line comment : List Char) :
    ∃ tail, defines.expand (line ++ ';' :: comment) = defines.expand line ++ ';' :: tail := by
  obtain ⟨tail, found⟩ := defines.substitute_comment line comment
  refine ⟨tail.map Prod.fst, ?_⟩
  rw [expand, found, List.map_append, List.map_cons]
  rfl

/-- A line that changes does so with a comment as well. -/
theorem expand_eq_of_comment
    (same : defines.expand (line ++ ';' :: comment) = line ++ ';' :: comment) :
    defines.expand line = line := by
  obtain ⟨front, opened, more, behind, cut, copied, found⟩ := fragments_comment line comment
  have each := defines.expand_fragment_of_expand_eq same
  rw [found] at each
  have itself : ∀ fragment ∈ fragments line, defines.expandFragment fragment = fragment.text := by
    intro fragment member
    rw [cut] at member
    rcases List.mem_append.mp member with early | last
    · exact each fragment (List.mem_append_left _ early)
    · obtain ⟨text, rfl⟩ := copied fragment last
      rfl
  rw [expand_eq, List.flatMap_def, List.map_congr_left itself, ← List.flatMap_def,
    flat_map_text_fragments]

/-- A name in the comment is replaced, and the line comes out as it was only because names in it stand
for themselves. -/
structure Reaches (line comment : List Char) : Prop where
  code : IsCode line
  kept : defines.expand line = line
  itself : ∃ fragment ∈ fragments line, defines.replacement? fragment ≠ none
  changed : defines.expand (line ++ ';' :: comment) ≠ line ++ ';' :: comment

/-- A map that leads the columns of a line to those of the line with a comment. -/
structure Stretches (line comment : List Char) (stretch : Nat → Nat) : Prop where
  follows : ∀ column < (defines.expandLine line).text.length,
    stretch ((defines.expandLine line).sourceColumn column) =
      (defines.expandLine (line ++ ';' :: comment)).sourceColumn column
  ends : stretch line.length = line.length + 1 + comment.length
  /-- Only a comment that is reached moves what is in front of it. -/
  still : ¬ defines.Reaches line comment → ∀ column < line.length, stretch column = column
  /-- The places where fragments start do not move. -/
  starts : ∀ fragment start offset, defines.Stands line fragment start offset →
    stretch start = start

variable {defines}

theorem Stands.start_lt {fragment : Fragment} {start offset : Nat}
    (stands : defines.Stands line fragment start offset) : start < line.length := by
  have some := List.length_pos_iff.mpr (text_ne_nil_of_mem_fragments stands.mem_fragments)
  have bound := stands.end_le
  omega

/-- In a line that comes out as it was, the column of what stands for a fragment is where it starts. -/
theorem Stands.column_eq {fragment : Fragment} {start offset : Nat}
    (stands : defines.Stands line fragment start offset) (same : defines.expand line = line) :
    ((defines.substitute line).map Prod.snd)[start]? = some start := by
  have itself := defines.expand_fragment_of_expand_eq same fragment stands.mem_fragments
  have some := List.length_pos_iff.mpr (text_ne_nil_of_mem_fragments stands.mem_fragments)
  have short : 0 < (defines.expandFragment fragment).length := by rwa [itself]
  have found := stands.get_elem?_substitute short
  rw [Nat.add_zero, stands.offset_eq same] at found
  obtain ⟨c, rest, text⟩ := List.exists_cons_of_length_pos some
  rw [List.getElem?_map, found, placeFragment]
  cases replaced : defines.replacement? fragment with
  | none => simp [text]
  | some body =>
    rw [expand_fragment_of_replaced replaced, text] at itself
    simp [itself]

theorem source_column_commented (code : IsCode line)
    (changed : defines.expand (line ++ ';' :: comment) ≠ line ++ ';' :: comment) {column : Nat}
    (inside : column < (defines.expand line).length) :
    ((defines.substitute line).map Prod.snd)[column]? =
      some ((defines.expandLine (line ++ ';' :: comment)).sourceColumn column) := by
  obtain ⟨tail, found⟩ := defines.substitute_comment line comment
  have short : column < (defines.substitute line).length := by simpa [expand] using inside
  have same : (defines.substitute (line ++ ';' :: comment))[column]? =
      some (defines.substitute line)[column] := by
    rw [found, List.getElem?_append_left short, List.getElem?_eq_getElem short]
  rw [expand_line_changed (is_code_comment.mpr code) changed,
    ExpandedLine.source_column_changed defines _ _ same, List.getElem?_map,
    List.getElem?_eq_getElem short]
  rfl

theorem source_column_of_changed (code : IsCode line) (changed : defines.expand line ≠ line)
    {column : Nat} (inside : column < (defines.expand line).length) :
    ((defines.substitute line).map Prod.snd)[column]? =
      some ((defines.expandLine line).sourceColumn column) := by
  have short : column < (defines.substitute line).length := by simpa [expand] using inside
  have found := List.getElem?_eq_getElem short
  rw [expand_line_changed code changed, ExpandedLine.source_column_changed defines _ _ found,
    List.getElem?_map, found]
  rfl

def stretchBy (line comment : List Char) (motion : Nat → Nat) (column : Nat) : Nat :=
  if column < line.length then motion column else line.length + 1 + comment.length

theorem stretch_by_of_lt {column : Nat} (inside : column < line.length) (motion : Nat → Nat) :
    stretchBy line comment motion column = motion column :=
  if_pos inside

theorem stretch_by_end (motion : Nat → Nat) :
    stretchBy line comment motion line.length = line.length + 1 + comment.length :=
  if_neg (Nat.lt_irrefl _)

/-- Unless the comment is reached, only the end of the line moves. -/
theorem stretches_id (code : IsCode line) (apart : ¬ defines.Reaches line comment) :
    defines.Stretches line comment (stretchBy line comment id) where
  follows := by
    intro column inside
    have traces := defines.traces_expand_line code
    rw [stretch_by_of_lt (traces.comes_from inside).2]
    by_cases changed : defines.expand (line ++ ';' :: comment) = line ++ ';' :: comment
    · have same := defines.expand_eq_of_comment changed
      rw [expand_line_unchanged code same, expand_line_unchanged (is_code_comment.mpr code) changed]
      rfl
    · have found := source_column_commented code changed (traces.text ▸ inside)
      by_cases same : defines.expand line = line
      · have kept : ∀ fragment ∈ fragments line, defines.replacement? fragment = none := by
          intro fragment member
          apply Decidable.not_not.mp
          intro replaced
          exact apart ⟨code, same, ⟨fragment, member, replaced⟩, changed⟩
        rw [expand_line_unchanged code same] at inside ⊢
        have within : column < line.length := inside
        rw [substitute, substitute_from_kept defines kept, flat_map_text_fragments, List.getElem?_map,
          List.getElem?_zipIdx, List.getElem?_eq_getElem within, Nat.zero_add] at found
        exact Option.some.inj found
      · rw [source_column_of_changed code same (traces.text ▸ inside)] at found
        exact Option.some.inj found
  ends := stretch_by_end id
  still := fun _ column inside => stretch_by_of_lt inside id
  starts := fun fragment start offset stands => stretch_by_of_lt stands.start_lt id

/-- If the comment is reached, the line takes up columns that it did not need before. -/
theorem stretches_columns (reaches : defines.Reaches line comment) :
    defines.Stretches line comment (stretchBy line comment fun column =>
      ((defines.substitute line).map Prod.snd)[column]?.getD column) where
  follows := by
    intro column inside
    rw [expand_line_unchanged reaches.code reaches.kept] at inside ⊢
    have within : column < line.length := inside
    have short : column < (defines.expand line).length := by rwa [reaches.kept]
    have place : (ExpandedLine.unchanged line).sourceColumn column = column := rfl
    rw [place, stretch_by_of_lt within, source_column_commented reaches.code reaches.changed short]
    rfl
  ends := stretch_by_end _
  still := fun apart => absurd reaches apart
  starts := by
    intro fragment start offset stands
    rw [stretch_by_of_lt stands.start_lt, stands.column_eq reaches.kept]
    rfl

theorem exists_stretches (code : IsCode line) (comment : List Char) :
    ∃ stretch, defines.Stretches line comment stretch := by
  by_cases reaches : defines.Reaches line comment
  · exact ⟨_, stretches_columns reaches⟩
  · exact ⟨_, stretches_id code reaches⟩

end Defines

/-! ### Lexemes -/

namespace Lexeme

def IsQuotedFault (lexeme : Lexeme) : Prop :=
  lexeme.IsFault ∧ (lexeme.text.head? = some '\'' ∨ lexeme.text.head? = some '"')

instance decidableIsFault : (lexeme : Lexeme) → Decidable lexeme.IsFault
  | ⟨_, .fault cause⟩ => isTrue ⟨cause, rfl⟩
  | ⟨_, .token _⟩ | ⟨_, .gap⟩ | ⟨_, .lineEnd⟩ => isFalse (by simp [IsFault])

instance decidableIsQuotedFault (lexeme : Lexeme) : Decidable lexeme.IsQuotedFault :=
  inferInstanceAs (Decidable (_ ∧ _))

theorem character_append {rest : List Char} (sound : ¬ (character rest).IsFault) (more : List Char) :
    character (rest ++ more) = character rest := by
  obtain ⟨behind, whole⟩ := (piece_quoted_char rest).1
  unfold character at sound ⊢
  cases read : quotedChar rest with
  | mk value source =>
    rw [read] at whole
    obtain rfl : source ++ behind = rest := whole
    simp only [read, List.drop_left] at sound ⊢
    split at sound
    · next c behind =>
      rw [List.append_assoc, quoted_char_append (quotes_quoted_char read)]
      simp
    · exact absurd ⟨_, rfl⟩ sound

theorem string_append {rest : List Char} (sound : ¬ (string rest).IsFault) (more : List Char) :
    string (rest ++ more) = string rest := by
  obtain ⟨behind, whole⟩ := (piece_string_body rest).1
  unfold string at sound ⊢
  cases read : stringBody rest with
  | mk value text =>
    cases value with
    | none =>
      rw [read] at sound
      exact absurd ⟨_, rfl⟩ sound
    | some value =>
      rw [read] at whole
      obtain rfl : text ++ behind = rest := whole
      rw [List.append_assoc, string_body_append (quotes_all_string_body read)]

/-- A lexeme ends in front of a comment, unless it is a broken literal. -/
theorem first_comment {c : Char} (noComment : c ≠ ';') {rest : List Char}
    (sound : ¬ (first c rest).IsQuotedFault) (comment : List Char) :
    first c (rest ++ ';' :: comment) = first c rest := by
  have delimited : Delimited (';' :: comment) := delimited_cons comment (by decide) (by decide)
  obtain ⟨taken, text, -⟩ := cut_from_first c rest
  by_cases quoted : c = '\'' ∨ c = '"'
  · have whole : ¬ (first c rest).IsFault := by
      intro fault
      apply sound
      simpa [IsQuotedFault, text, fault] using quoted
    rcases quoted with rfl | rfl
    · exact character_append whole _
    · exact string_append whole _
  · rw [not_or] at quoted
    exact first_append ⟨noComment, quoted⟩ delimited rest

variable {α : Type} {read : Position → Lexeme → Option α}

theorem along_line_semicolon (gap : ∀ position text, read position ⟨text, .gap⟩ = none)
    (flat : '\n' ∉ comment) (number column : Nat) :
    alongLine read number column (lexemes (';' :: comment)) = [] := by
  have cut := (Written.comment flat).lexemes_append (show Stops _ [] by simp [Stops])
  rw [List.append_nil, lexemes_nil] at cut
  rw [show lexemes (';' :: comment) = [⟨';' :: comment, .gap⟩] from cut, alongLine, gap]
  rfl

/-- What is found along a line, gaps apart, is found in front of its comment too. -/
theorem along_line_comment (gap : ∀ position text, read position ⟨text, .gap⟩ = none)
    (flat : '\n' ∉ line) (flatComment : '\n' ∉ comment)
    (sound : ∀ lexeme ∈ lexemes line, ¬ lexeme.IsQuotedFault) (number column : Nat) :
    alongLine read number column (lexemes (line ++ ';' :: comment)) =
      alongLine read number column (lexemes line) := by
  induction line using lexemes.induct generalizing column with
  | case1 => rw [List.nil_append, along_line_semicolon gap flatComment, lexemes_nil, alongLine]
  | case2 c rest induction =>
    by_cases semicolon : c = ';'
    · subst semicolon
      have flatRest : '\n' ∉ rest := fun feed => flat (List.mem_cons_of_mem _ feed)
      rw [List.cons_append, along_line_semicolon gap flatRest,
        along_line_semicolon gap (by simp [flatRest, flatComment])]
    · obtain ⟨taken, text, ⟨more, rfl⟩, -⟩ := cut_from_first c rest
      rw [text] at induction
      simp only [List.length_cons, Nat.add_sub_cancel, List.drop_left] at induction
      rw [lexemes_append rfl text] at sound
      obtain ⟨here, later⟩ := List.forall_mem_cons.mp sound
      have same := first_comment semicolon here comment
      rw [List.append_assoc] at same
      rw [List.cons_append, List.append_assoc, lexemes_append same text, lexemes_append rfl text,
        alongLine, alongLine, induction (fun feed => flat (by simp [feed])) later]

end Lexeme

/-- A comment changes neither the tokens of a line nor what is wrong with them. -/
theorem along_line_expanded {α : Type} {read : Position → Lexeme → Option α}
    (gap : ∀ position text, read position ⟨text, .gap⟩ = none) {defines : Defines}
    (plain : defines.Plain) (flat : IsFlat line) (flatComment : IsFlat comment)
    (sound : ∀ lexeme ∈ lexemes (defines.expand line), ¬ lexeme.IsQuotedFault) (number : Nat) :
    Lexeme.alongLine read number 0 (lexemes (defines.expand (line ++ ';' :: comment))) =
      Lexeme.alongLine read number 0 (lexemes (defines.expand line)) := by
  obtain ⟨tail, found⟩ := defines.expand_comment line comment
  have flatExpanded := (plain.is_flat_expand (is_flat_comment flat flatComment)).no_feed
  rw [found] at flatExpanded ⊢
  exact Lexeme.along_line_comment gap (plain.is_flat_expand flat).no_feed
    (fun feed => flatExpanded (by simp [feed])) sound number 0

end Z80Toolchain
