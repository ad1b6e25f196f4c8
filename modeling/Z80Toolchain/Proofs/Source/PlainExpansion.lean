import Z80Toolchain.Assembly.Assemble

/-!
Sources without directives are their own expansion. Fragments cover their line, so a line in which
no name is defined comes out as it was; the expanded text is then the source, and every place in it
leads back to itself.
-/
namespace Z80Toolchain

/-! ### Lines of a text -/

namespace Text

/-- Text without a carriage return is normal. -/
theorem normalize_of_no_return {text : List Char} (clean : ∀ c ∈ text, c ≠ '\r') :
    normalize text = text := by
  fun_induction normalize text with
  | case1 => rfl
  | case2 rest => exact absurd rfl (clean '\r' (by simp))
  | case3 rest => exact absurd rfl (clean '\r' (by simp))
  | case4 c rest _ _ induction =>
    rw [induction fun other member => clean other (by simp [member])]

theorem split_lines_append {line : List Char} (flat : '\n' ∉ line) (rest : List Char) :
    splitLines (line ++ '\n' :: rest) = line :: splitLines rest := by
  induction line with
  | nil => simp [splitLines]
  | cons c line induction =>
    have other : c ≠ '\n' := fun feed => flat (by simp [feed])
    simp [splitLines, other, induction fun member => flat (by simp [member])]

theorem split_lines_of_flat {line : List Char} (flat : '\n' ∉ line) : splitLines line = [line] := by
  induction line with
  | nil => rfl
  | cons c line induction =>
    have other : c ≠ '\n' := fun feed => flat (by simp [feed])
    simp [splitLines, other, induction fun member => flat (by simp [member])]

theorem split_lines_join_lines {lines : List (List Char)} (some : lines ≠ [])
    (flat : ∀ line ∈ lines, '\n' ∉ line) : splitLines (joinLines lines) = lines := by
  induction lines with
  | nil => exact absurd rfl some
  | cons line lines induction =>
    have first := flat line (by simp)
    cases lines with
    | nil => exact split_lines_of_flat first
    | cons next lines =>
      rw [joinLines, split_lines_append first,
        induction (List.cons_ne_nil _ _) fun line member => flat line (by simp [member])]

theorem mem_join_lines {c : Char} {lines : List (List Char)} (member : c ∈ joinLines lines) :
    c = '\n' ∨ ∃ line ∈ lines, c ∈ line := by
  induction lines with
  | nil => simp [joinLines] at member
  | cons line lines induction =>
    cases lines with
    | nil => exact .inr ⟨line, by simp, member⟩
    | cons next lines =>
      rw [joinLines, List.mem_append, List.mem_cons] at member
      rcases member with inside | feed | later
      · exact .inr ⟨line, by simp, inside⟩
      · exact .inl feed
      · rcases induction later with feed | ⟨other, found, inside⟩
        · exact .inl feed
        · exact .inr ⟨other, by simp [found], inside⟩

end Text

/-! ### Fragments cover their line -/

namespace Fragment

theorem literal_rest_leads (mark : Char) (rest : List Char) : literalRest mark rest <+: rest := by
  fun_induction literalRest mark rest with
  | case1 => exact List.prefix_refl _
  | case2 => exact List.prefix_refl _
  | case3 c rest induction =>
    exact List.cons_prefix_cons.mpr ⟨rfl, List.cons_prefix_cons.mpr ⟨rfl, induction⟩⟩
  | case4 c rest =>
    refine List.cons_prefix_cons.mpr ⟨rfl, ?_⟩
    unfold marksBehind
    split
    · exact List.takeWhile_prefix _
    · exact List.nil_prefix
  | case5 c rest _ _ _ induction => exact List.cons_prefix_cons.mpr ⟨rfl, induction⟩

/-- A fragment is its first character and what it takes of the rest. -/
theorem text_first (c : Char) (rest : List Char) :
    ∃ taken, (first c rest).text = c :: taken ∧ taken <+: rest := by
  unfold first
  split
  · exact ⟨rest, rfl, List.prefix_refl _⟩
  · split
    · exact ⟨_, rfl, literal_rest_leads c rest⟩
    · split
      · exact ⟨_, rfl, List.takeWhile_prefix _⟩
      · split
        · exact ⟨_, rfl, List.takeWhile_prefix _⟩
        · exact ⟨[], rfl, List.nil_prefix⟩

end Fragment

theorem flat_map_text_fragments (line : List Char) : (fragments line).flatMap Fragment.text = line := by
  fun_induction fragments line with
  | case1 => rfl
  | case2 c rest induction =>
    obtain ⟨taken, text, remaining, rfl⟩ := Fragment.text_first c rest
    rw [List.flatMap_cons, induction, text]
    simp

namespace Defines

def expandFragment (defines : Defines) : Fragment → List Char
  | .word text => (defines.find? text).getD text
  | .copied text => text

theorem map_fst_substitute_from (defines : Defines) (column : Nat) (fragments : List Fragment) :
    (defines.substituteFrom column fragments).map Prod.fst =
      fragments.flatMap defines.expandFragment := by
  induction fragments generalizing column with
  | nil => rfl
  | cons fragment fragments induction =>
    simp only [substituteFrom, List.map_append, induction, List.flatMap_cons]
    congr 1
    cases fragment with
    | word text =>
      cases found : defines.find? text <;> simp [expandFragment, found, Function.comp_def]
    | copied text => simp [expandFragment]

theorem expand_fragment_empty (fragment : Fragment) : empty.expandFragment fragment = fragment.text := by
  cases fragment <;> rfl

end Defines

theorem of_substitution_empty (line : List Char) :
    ExpandedLine.ofSubstitution line (Defines.empty.substitute line) = .unchanged line := by
  have same : (Defines.empty.substitute line).map Prod.fst = line := by
    rw [Defines.substitute, Defines.map_fst_substitute_from,
      funext Defines.expand_fragment_empty, flat_map_text_fragments]
  rw [ExpandedLine.ofSubstitution, if_pos same]

/-! ### Sources without directives -/

def IsCode (line : List Char) : Prop :=
  (Text.trimStart line).head? ≠ some '%'

instance decidableIsCode (line : List Char) : Decidable (IsCode line) :=
  inferInstanceAs (Decidable (_ ≠ _))

namespace Expansion

theorem add_line_code {line : List Char} (code : IsCode line) (lines : Array ExpandedLine) :
    addLine ⟨lines, .empty, []⟩ line = ⟨lines.push (.unchanged line), .empty, []⟩ := by
  unfold addLine
  split
  · rename_i directive percent
    exact absurd (by rw [percent]; rfl) code
  · rw [of_substitution_empty]

theorem foldl_add_line_code {lines : List (List Char)} (code : ∀ line ∈ lines, IsCode line)
    (before : Array ExpandedLine) :
    lines.foldl addLine ⟨before, .empty, []⟩ =
      ⟨before ++ lines.map ExpandedLine.unchanged, .empty, []⟩ := by
  induction lines generalizing before with
  | nil => simp
  | cons line lines induction =>
    rw [List.foldl_cons, add_line_code (code line (by simp)),
      induction fun line member => code line (by simp [member])]
    simp

theorem of_text_code {text : List Char} (code : ∀ line ∈ Text.splitLines text, IsCode line) :
    ofText text = ⟨((Text.splitLines text).map ExpandedLine.unchanged).toArray, .empty, []⟩ := by
  rw [ofText, start, foldl_add_line_code code]
  simp

/-- A text made of unchanged lines, in which every place is its own source. -/
theorem text_unchanged (lines : List (List Char)) :
    (Expansion.mk (lines.map ExpandedLine.unchanged).toArray .empty []).text =
      Text.joinLines lines := by
  simp [text, ExpandedLine.unchanged, Function.comp_def]

theorem source_position_unchanged (lines : List (List Char)) (position : Position) :
    (Expansion.mk (lines.map ExpandedLine.unchanged).toArray .empty []).sourcePosition position =
      position := by
  unfold sourcePosition
  split
  · rename_i columns found
    simp only [List.getElem?_toArray, List.getElem?_map] at found
    cases line : lines[position.line]? <;> simp [line, ExpandedLine.unchanged] at found
  · rfl

end Expansion

/-- A source without directives is assembled from its own tokens. -/
theorem assemble_code {source : List Char} (normal : Text.normalize source = source)
    (code : ∀ line ∈ Text.splitLines source, IsCode line) (origin : UInt16) :
    ∃ expansion : Expansion, expansion.diagnostics = [] ∧
      expansion.tokens = tokenize source ∧
      expansion.lexicalFaults = lexicalFaults source ∧
      assemble origin source = expansion.finish (expansion.draft origin) := by
  refine ⟨Expansion.ofText source, ?_, ?_, ?_, ?_⟩
  · rw [Expansion.of_text_code code]
  · rw [Expansion.tokens, Expansion.of_text_code code, Expansion.text_unchanged,
      Text.join_lines_split_lines]
    simp [Expansion.source_position_unchanged]
  · rw [Expansion.lexicalFaults, Expansion.of_text_code code, Expansion.text_unchanged,
      Text.join_lines_split_lines]
    simp [Expansion.source_position_unchanged]
  · rw [assemble, normal]

end Z80Toolchain
