import Z80Toolchain.Proofs.Source.ExpandedLines
import Z80Toolchain.Proofs.Source.Substitution

/-!
The columns of an expanded line. A line is the fragments it is cut into, and the expanded line is what
stands for them, so both are known at once from the fragments in front of a place. A character that is
copied leads back to itself, one that replaces a name leads back to the name, and the order of columns
is kept. A line that comes out as it was remembers no columns; there nothing can have moved, because
every name that was replaced was replaced by itself.
-/
namespace Z80Toolchain

/-! ### Fragments with their columns -/

namespace Defines

variable (defines : Defines)

def replacement? : Fragment → Option (List Char)
  | .word text => defines.find? text
  | .copied _ => none

def placeFragment (column : Nat) (fragment : Fragment) : List (Char × Nat) :=
  match defines.replacement? fragment with
  | some body => body.map fun c => (c, column)
  | none => fragment.text.zipIdx column

variable {defines}

theorem expand_fragment_of_replaced {fragment : Fragment} {body : List Char}
    (replaced : defines.replacement? fragment = some body) :
    defines.expandFragment fragment = body := by
  cases fragment with
  | word text => rw [expandFragment, show defines.find? text = some body from replaced]; rfl
  | copied text => cases replaced

theorem expand_fragment_of_kept {fragment : Fragment} (kept : defines.replacement? fragment = none) :
    defines.expandFragment fragment = fragment.text := by
  cases fragment with
  | word text => rw [expandFragment, show defines.find? text = none from kept]; rfl
  | copied text => rfl

variable (defines)

theorem substitute_from_cons (column : Nat) (fragment : Fragment) (rest : List Fragment) :
    defines.substituteFrom column (fragment :: rest) =
      defines.placeFragment column fragment ++
        defines.substituteFrom (column + fragment.text.length) rest := by
  cases fragment with
  | word text =>
    simp only [substituteFrom, placeFragment, replacement?]
    cases defines.find? text <;> rfl
  | copied text => rfl

theorem substitute_from_append (column : Nat) (before after : List Fragment) :
    defines.substituteFrom column (before ++ after) =
      defines.substituteFrom column before ++
        defines.substituteFrom (column + (before.flatMap Fragment.text).length) after := by
  induction before generalizing column with
  | nil => rfl
  | cons fragment before induction =>
    rw [List.cons_append, substitute_from_cons, induction, substitute_from_cons, List.flatMap_cons,
      List.length_append, List.append_assoc, Nat.add_assoc]

theorem map_fst_place_fragment (column : Nat) (fragment : Fragment) :
    (defines.placeFragment column fragment).map Prod.fst = defines.expandFragment fragment := by
  unfold placeFragment
  split
  · next body replaced => simp [expand_fragment_of_replaced replaced, Function.comp_def]
  · next kept => simp [expand_fragment_of_kept kept]

theorem length_place_fragment (column : Nat) (fragment : Fragment) :
    (defines.placeFragment column fragment).length = (defines.expandFragment fragment).length := by
  rw [← map_fst_place_fragment defines column, List.length_map]

theorem length_substitute_from (column : Nat) (fragments : List Fragment) :
    (defines.substituteFrom column fragments).length =
      (fragments.flatMap defines.expandFragment).length := by
  rw [← map_fst_substitute_from defines column, List.length_map]

end Defines

/-! ### Lines that come out as they were -/

namespace Fragment

/-- A word has characters of names only, and none follows it. -/
theorem of_first_word {c : Char} {rest text : List Char} (found : first c rest = word text) :
    (∀ d ∈ text, isNameChar d = true) ∧ Stops isNameChar (rest.drop (text.length - 1)) := by
  have shape : isNameChar c = true ∧ text = c :: rest.takeWhile isNameChar := by
    unfold first at found
    split at found
    · cases found
    · split at found
      · cases found
      · split at found
        · next start =>
          obtain rfl := Fragment.word.inj found
          refine ⟨?_, rfl⟩
          rcases start with start | rfl
          · exact is_name_char_of_is_name_start start
          · decide
        · split at found <;> cases found
  obtain ⟨inside, rfl⟩ := shape
  constructor
  · intro d member
    rcases List.mem_cons.mp member with rfl | member
    · exact inside
    · exact mem_take_while member
  · rw [List.length_cons, Nat.add_sub_cancel, drop_length_take_while]
    exact stops_drop_while isNameChar rest

end Fragment

theorem fragments_append {c : Char} {taken rest : List Char} {fragment : Fragment}
    (found : Fragment.first c (taken ++ rest) = fragment) (text : fragment.text = c :: taken) :
    fragments (c :: (taken ++ rest)) = fragment :: fragments rest := by
  rw [fragments, found, text]
  simp

theorem text_ne_nil_of_mem_fragments {line : List Char} {fragment : Fragment}
    (member : fragment ∈ fragments line) : fragment.text ≠ [] := by
  fun_induction fragments line with
  | case1 => cases member
  | case2 c rest induction =>
    rcases List.mem_cons.mp member with rfl | later
    · obtain ⟨taken, text, -⟩ := Fragment.text_first c rest
      simp [text]
    · exact induction later

namespace Defines

variable (defines : Defines)

/-- Expansion drops no character that is in no name. -/
theorem count_le_expand (line : List Char) :
    line.countP (!isNameChar ·) ≤ (defines.expand line).countP (!isNameChar ·) := by
  induction line using fragments.induct with
  | case1 => exact Nat.zero_le _
  | case2 c rest induction =>
    obtain ⟨taken, text, remaining, rfl⟩ := Fragment.text_first c rest
    rw [text] at induction
    simp only [List.length_cons, Nat.add_sub_cancel, List.drop_left] at induction
    rw [expand_append defines rfl text, ← List.cons_append, List.countP_append, List.countP_append]
    refine Nat.add_le_add ?_ induction
    generalize found : Fragment.first c (taken ++ remaining) = fragment at text ⊢
    cases fragment with
    | word word =>
      obtain rfl : word = c :: taken := text
      have none : (c :: taken).countP (!isNameChar ·) = 0 := by
        simpa [List.countP_eq_zero] using (Fragment.of_first_word found).1
      omega
    | copied copied =>
      obtain rfl : copied = c :: taken := text
      exact Nat.le_refl _

/-- If a line comes out as it was, each of its fragments does. -/
theorem expand_fragment_of_expand_eq {line : List Char} (same : defines.expand line = line) :
    ∀ fragment ∈ fragments line, defines.expandFragment fragment = fragment.text := by
  induction line using fragments.induct with
  | case1 => simp [fragments]
  | case2 c rest induction =>
    obtain ⟨taken, text, remaining, rfl⟩ := Fragment.text_first c rest
    rw [text] at induction
    simp only [List.length_cons, Nat.add_sub_cancel, List.drop_left] at induction
    rw [expand_append defines rfl text, ← List.cons_append] at same
    have head : defines.expandFragment (Fragment.first c (taken ++ remaining)) = c :: taken := by
      generalize found : Fragment.first c (taken ++ remaining) = fragment at text same
      cases fragment with
      | copied copied => exact text
      | word word =>
        obtain rfl : word = c :: taken := text
        obtain ⟨inside, stops⟩ := Fragment.of_first_word found
        rw [List.length_cons, Nat.add_sub_cancel, List.drop_left] at stops
        -- The rest keeps its characters outside names, so none is left for what replaces the word.
        have counts := congrArg (List.countP (!isNameChar ·)) same
        rw [List.countP_append, List.countP_append] at counts
        have none : (c :: taken).countP (!isNameChar ·) = 0 := by
          simpa [List.countP_eq_zero] using inside
        have rest := defines.count_le_expand remaining
        have body : (defines.expandFragment (.word (c :: taken))).countP (!isNameChar ·) = 0 := by
          omega
        have names : ∀ d ∈ defines.expandFragment (.word (c :: taken)), isNameChar d = true := by
          simpa [List.countP_eq_zero] using body
        have apart : Stops isNameChar (defines.expand remaining) := by
          rwa [Stops, defines.head?_expand stops]
        have words := congrArg (List.takeWhile isNameChar) same
        rwa [take_while_of_stops names apart, take_while_of_stops inside stops] at words
    rw [head] at same
    intro fragment member
    rw [fragments, text] at member
    simp only [List.length_cons, Nat.add_sub_cancel, List.drop_left] at member
    rcases List.mem_cons.mp member with rfl | later
    · rw [head, text]
    · exact induction (List.append_cancel_left same) fragment later

end Defines

/-! ### Places of fragments -/

namespace Defines

/-- A fragment starts at a column of the line, and what stands for it at one of the expanded line. -/
def Stands (defines : Defines) (line : List Char) (fragment : Fragment) (start offset : Nat) : Prop :=
  ∃ before after, fragments line = before ++ fragment :: after ∧
    start = (before.flatMap Fragment.text).length ∧
    offset = (before.flatMap defines.expandFragment).length

variable {defines : Defines} {line : List Char}

/-- Every character of an expanded line stands for some fragment. -/
theorem exists_stands {column : Nat} (inside : column < (defines.expand line).length) :
    ∃ fragment start offset index, defines.Stands line fragment start offset ∧
      column = offset + index ∧ index < (defines.expandFragment fragment).length := by
  suffices split : ∀ (all : List Fragment) (column : Nat),
      column < (all.flatMap defines.expandFragment).length →
        ∃ before fragment after index, all = before ++ fragment :: after ∧
          column = (before.flatMap defines.expandFragment).length + index ∧
          index < (defines.expandFragment fragment).length by
    rw [expand_eq] at inside
    obtain ⟨before, fragment, after, index, cut, rfl, within⟩ := split _ _ inside
    exact ⟨fragment, _, _, index, ⟨before, after, cut, rfl, rfl⟩, rfl, within⟩
  intro all
  induction all with
  | nil => intro column inside; exact absurd inside (Nat.not_lt_zero _)
  | cons fragment all induction =>
    intro column inside
    rw [List.flatMap_cons, List.length_append] at inside
    by_cases here : column < (defines.expandFragment fragment).length
    · exact ⟨[], fragment, all, column, rfl, (Nat.zero_add _).symm, here⟩
    · obtain ⟨before, other, after, index, rfl, found, within⟩ :=
        induction (column - (defines.expandFragment fragment).length) (by omega)
      refine ⟨fragment :: before, other, after, index, rfl, ?_, within⟩
      rw [List.flatMap_cons, List.length_append]
      omega

namespace Stands

variable {fragment : Fragment} {start offset : Nat}

/-- A fragment stands in its line. -/
theorem exists_line (stands : defines.Stands line fragment start offset) :
    ∃ front back, line = front ++ (fragment.text ++ back) ∧ front.length = start := by
  obtain ⟨before, after, cut, rfl, rfl⟩ := stands
  refine ⟨_, after.flatMap Fragment.text, ?_, rfl⟩
  rw [← flat_map_text_fragments line, cut, List.flatMap_append, List.flatMap_cons]

/-- What stands for a fragment stands in the expanded line, with its columns. -/
theorem exists_substitute (stands : defines.Stands line fragment start offset) :
    ∃ front back, defines.substitute line = front ++ (defines.placeFragment start fragment ++ back) ∧
      front.length = offset := by
  obtain ⟨before, after, cut, rfl, rfl⟩ := stands
  have placed := defines.substitute_from_append 0 before (fragment :: after)
  rw [substitute_from_cons, Nat.zero_add] at placed
  exact ⟨_, _, (congrArg _ cut).trans placed, defines.length_substitute_from 0 before⟩

theorem mem_fragments (stands : defines.Stands line fragment start offset) :
    fragment ∈ fragments line := by
  obtain ⟨before, after, cut, -, -⟩ := stands
  rw [cut]
  exact List.mem_append_right _ List.mem_cons_self

theorem get_elem?_line (stands : defines.Stands line fragment start offset) {index : Nat}
    (within : index < fragment.text.length) : getElem? line (start + index) = fragment.text[index]? := by
  obtain ⟨front, back, rfl, rfl⟩ := stands.exists_line
  rw [List.getElem?_append_right (Nat.le_add_right _ _), Nat.add_sub_cancel_left,
    List.getElem?_append_left within]

theorem end_le (stands : defines.Stands line fragment start offset) :
    start + fragment.text.length ≤ line.length := by
  obtain ⟨front, back, rfl, rfl⟩ := stands.exists_line
  simp only [List.length_append]
  omega

theorem get_elem?_substitute (stands : defines.Stands line fragment start offset) {index : Nat}
    (within : index < (defines.expandFragment fragment).length) :
    (defines.substitute line)[offset + index]? = (defines.placeFragment start fragment)[index]? := by
  obtain ⟨front, back, cut, rfl⟩ := stands.exists_substitute
  rw [← length_place_fragment defines start] at within
  rw [cut, List.getElem?_append_right (Nat.le_add_right _ _), Nat.add_sub_cancel_left,
    List.getElem?_append_left within]

theorem get_elem?_expand (stands : defines.Stands line fragment start offset) {index : Nat}
    (within : index < (defines.expandFragment fragment).length) :
    (defines.expand line)[offset + index]? = (defines.expandFragment fragment)[index]? := by
  rw [expand, List.getElem?_map, stands.get_elem?_substitute within, ← List.getElem?_map,
    map_fst_place_fragment]

/-- In a line that comes out as it was, fragments have not moved. -/
theorem offset_eq (stands : defines.Stands line fragment start offset)
    (same : defines.expand line = line) : offset = start := by
  obtain ⟨before, after, cut, rfl, rfl⟩ := stands
  have each := defines.expand_fragment_of_expand_eq same
  rw [cut] at each
  rw [List.flatMap_def, List.flatMap_def,
    List.map_congr_left fun other member => each other (List.mem_append_left _ member)]

end Stands

/-! ### Order of columns -/

variable (defines)

theorem columns_place_fragment (column : Nat) (fragment : Fragment) :
    ((defines.placeFragment column fragment).map Prod.snd).Pairwise (· ≤ ·) ∧
      ∀ source ∈ (defines.placeFragment column fragment).map Prod.snd,
        column ≤ source ∧ source ≤ column + fragment.text.length := by
  unfold placeFragment
  split
  · next body _ =>
    rw [List.map_map, show Prod.snd ∘ (fun c => (c, column)) = Function.const Char column from rfl,
      List.map_const]
    refine ⟨List.pairwise_replicate.mpr (.inr (Nat.le_refl _)), ?_⟩
    intro source member
    rw [List.eq_of_mem_replicate member]
    omega
  · rw [List.zipIdx_map_snd]
    constructor
    · exact (List.pairwise_lt_range').imp Nat.le_of_lt
    · intro source member
      have := List.mem_range'_1.mp member
      omega

/-- Columns never go back. -/
theorem columns_substitute_from (column : Nat) (fragments : List Fragment) :
    ((defines.substituteFrom column fragments).map Prod.snd).Pairwise (· ≤ ·) ∧
      ∀ source ∈ (defines.substituteFrom column fragments).map Prod.snd,
        column ≤ source ∧ source ≤ column + (fragments.flatMap Fragment.text).length := by
  induction fragments generalizing column with
  | nil => exact ⟨.nil, by simp [substituteFrom]⟩
  | cons fragment fragments induction =>
    obtain ⟨sorted, bounds⟩ := induction (column + fragment.text.length)
    obtain ⟨sortedHere, boundsHere⟩ := defines.columns_place_fragment column fragment
    rw [substitute_from_cons, List.map_append, List.flatMap_cons, List.length_append]
    constructor
    · refine List.pairwise_append.mpr ⟨sortedHere, sorted, ?_⟩
      intro left first right second
      exact Nat.le_trans (boundsHere left first).2 (bounds right second).1
    · intro source member
      rcases List.mem_append.mp member with here | later
      · have := boundsHere source here
        omega
      · have := bounds source later
        omega

end Defines

theorem source_column_of_lt {columns : List Nat} {column : Nat} (inside : column < columns.length) :
    sourceColumn columns column = columns[column] := by
  rw [sourceColumn, List.getElem?_eq_getElem inside]

theorem source_column_end (columns : List Nat) (last extra : Nat) :
    sourceColumn (columns ++ [last]) (columns.length + extra) = last + extra := by
  cases extra with
  | zero => simp [sourceColumn]
  | succ extra =>
    rw [sourceColumn, List.getElem?_eq_none (by simp)]
    simp

theorem source_column_mono {columns : List Nat} {last : Nat}
    (sorted : (columns ++ [last]).Pairwise (· ≤ ·)) {left right : Nat} (order : left ≤ right) :
    sourceColumn (columns ++ [last]) left ≤ sourceColumn (columns ++ [last]) right := by
  by_cases short : right < (columns ++ [last]).length
  · rw [source_column_of_lt short, source_column_of_lt (Nat.lt_of_le_of_lt order short)]
    rcases Nat.lt_or_eq_of_le order with less | rfl
    · exact List.pairwise_iff_getElem.mp sorted left right _ _ less
    · exact Nat.le_refl _
  · obtain ⟨extra, rfl⟩ : ∃ extra, right = columns.length + extra :=
      ⟨right - columns.length, by simp at short; omega⟩
    rw [source_column_end]
    by_cases inside : left < columns.length
    · have member : columns[left] ∈ columns := List.getElem_mem inside
      have below := (List.pairwise_append.mp sorted).2.2 _ member last (by simp)
      rw [source_column_of_lt (by simp; omega), List.getElem_append_left inside]
      omega
    · obtain ⟨less, rfl⟩ : ∃ less, left = columns.length + less := ⟨left - columns.length, by omega⟩
      rw [source_column_end]
      omega

/-! ### Expanded lines -/

namespace ExpandedLine

def sourceColumn (expanded : ExpandedLine) (column : Nat) : Nat :=
  match expanded.columns with
  | some columns => Z80Toolchain.sourceColumn columns column
  | none => column

/-- Every place of an expanded line leads back to where it comes from. -/
structure Traces (expanded : ExpandedLine) (defines : Defines) (line : List Char) : Prop where
  text : expanded.text = defines.expand line
  /-- A character that is copied leads to itself. -/
  kept : ∀ {fragment start offset}, defines.Stands line fragment start offset →
    defines.replacement? fragment = none → ∀ index < fragment.text.length,
      expanded.sourceColumn (offset + index) = start + index ∧
        expanded.text[offset + index]? = getElem? line (start + index)
  /-- A character that replaces a name leads into the name, and to its start if the line changed. -/
  replaced : ∀ {fragment start offset body}, defines.Stands line fragment start offset →
    defines.replacement? fragment = some body → ∀ index < body.length,
      start ≤ expanded.sourceColumn (offset + index) ∧
        expanded.sourceColumn (offset + index) < start + fragment.text.length ∧
        (expanded.text ≠ line → expanded.sourceColumn (offset + index) = start)
  /-- From the end on both go on equally. -/
  behind : ∀ extra, expanded.sourceColumn (expanded.text.length + extra) = line.length + extra
  ordered : ∀ {left right}, left ≤ right →
    expanded.sourceColumn left ≤ expanded.sourceColumn right

variable {defines : Defines} {line : List Char}

theorem traces_unchanged (same : defines.expand line = line) :
    (unchanged line).Traces defines line where
  text := same.symm
  kept := by
    intro fragment start offset stands kept index within
    rw [stands.offset_eq same]
    exact ⟨rfl, rfl⟩
  replaced := by
    intro fragment start offset body stands replaced index within
    have itself := defines.expand_fragment_of_expand_eq same fragment stands.mem_fragments
    rw [Defines.expand_fragment_of_replaced replaced] at itself
    rw [stands.offset_eq same, ← itself]
    exact ⟨Nat.le_add_right _ _, Nat.add_lt_add_left within _, fun changed => absurd rfl changed⟩
  behind := fun _ => rfl
  ordered := id

/-- The columns of a line that changed. -/
theorem source_column_changed (defines : Defines) (line : List Char) (text : List Char)
    {column source : Nat} {c : Char} (found : (defines.substitute line)[column]? = some (c, source)) :
    sourceColumn ⟨text, some ((defines.substitute line).map Prod.snd ++ [line.length])⟩ column =
      source := by
  obtain ⟨inside, found⟩ := List.getElem?_eq_some_iff.mp found
  have short : column < ((defines.substitute line).map Prod.snd).length := by simpa using inside
  rw [sourceColumn]
  dsimp only
  rw [source_column_of_lt (by simp; omega), List.getElem_append_left short, List.getElem_map, found]

theorem traces_changed (defines : Defines) (line : List Char) :
    Traces ⟨defines.expand line, some ((defines.substitute line).map Prod.snd ++ [line.length])⟩
      defines line where
  text := rfl
  kept := by
    intro fragment start offset stands kept index within
    have same := Defines.expand_fragment_of_kept kept
    have short : index < (defines.expandFragment fragment).length := by rwa [same]
    have found := stands.get_elem?_substitute short
    rw [Defines.placeFragment, kept] at found
    simp only [List.getElem?_zipIdx, List.getElem?_eq_getElem within, Option.map_some] at found
    constructor
    · exact source_column_changed defines line _ found
    · rw [stands.get_elem?_line within, ← same]
      exact stands.get_elem?_expand short
  replaced := by
    intro fragment start offset body stands replaced index within
    have short : index < (defines.expandFragment fragment).length := by
      rwa [Defines.expand_fragment_of_replaced replaced]
    have found := stands.get_elem?_substitute short
    rw [Defines.placeFragment, replaced] at found
    simp only [List.getElem?_map, List.getElem?_eq_getElem within, Option.map_some] at found
    have some := List.length_pos_iff.mpr (text_ne_nil_of_mem_fragments stands.mem_fragments)
    rw [source_column_changed defines line _ found]
    exact ⟨Nat.le_refl _, Nat.lt_add_of_pos_right some, fun _ => rfl⟩
  behind := by
    intro extra
    have length : (defines.expand line).length = ((defines.substitute line).map Prod.snd).length := by
      simp [Defines.expand]
    rw [sourceColumn]
    dsimp only
    rw [length, source_column_end]
  ordered := by
    intro left right order
    obtain ⟨sorted, bounds⟩ := defines.columns_substitute_from 0 (fragments line)
    rw [flat_map_text_fragments, Nat.zero_add] at bounds
    refine source_column_mono (List.pairwise_append.mpr ⟨sorted, List.pairwise_singleton _ _, ?_⟩) order
    intro column member last only
    rw [List.mem_singleton.mp only]
    exact (bounds column member).2

end ExpandedLine

namespace Defines

variable {defines : Defines} {line : List Char}

theorem expand_line_unchanged (code : IsCode line) (same : defines.expand line = line) :
    defines.expandLine line = .unchanged line := by
  rw [defines.expand_line_of_is_code code]
  exact if_pos same

theorem expand_line_changed (code : IsCode line) (changed : defines.expand line ≠ line) :
    defines.expandLine line =
      ⟨defines.expand line, some ((defines.substitute line).map Prod.snd ++ [line.length])⟩ := by
  rw [defines.expand_line_of_is_code code]
  exact if_neg changed

variable (defines)

/-- Every place of a line that is no directive leads back to where it comes from. -/
theorem traces_expand_line (code : IsCode line) : (defines.expandLine line).Traces defines line := by
  by_cases same : defines.expand line = line
  · rw [expand_line_unchanged code same]
    exact ExpandedLine.traces_unchanged same
  · rw [expand_line_changed code same]
    exact ExpandedLine.traces_changed defines line

end Defines

/-- The column holds the character, or it lies in a name that is replaced. -/
def Defines.ComesFrom (defines : Defines) (line : List Char) (first : Option Char) (column : Nat) :
    Prop :=
  getElem? line column = first ∨
    ∃ name start offset body, defines.Stands line name start offset ∧
      defines.replacement? name = some body ∧ start ≤ column ∧ column < start + name.text.length

theorem ExpandedLine.Traces.comes_from {expanded : ExpandedLine} {defines : Defines}
    {line : List Char} (traces : expanded.Traces defines line) {column : Nat}
    (inside : column < expanded.text.length) :
    defines.ComesFrom line expanded.text[column]? (expanded.sourceColumn column) ∧
      expanded.sourceColumn column < line.length := by
  have within := inside
  rw [traces.text] at within
  obtain ⟨fragment, start, offset, index, stands, rfl, short⟩ := Defines.exists_stands within
  have bound := stands.end_le
  cases replaced : defines.replacement? fragment with
  | none =>
    rw [Defines.expand_fragment_of_kept replaced] at short
    obtain ⟨column, same⟩ := traces.kept stands replaced index short
    rw [column]
    exact ⟨.inl same.symm, by omega⟩
  | some body =>
    rw [Defines.expand_fragment_of_replaced replaced] at short
    obtain ⟨low, high, -⟩ := traces.replaced stands replaced index short
    exact ⟨.inr ⟨fragment, start, offset, body, stands, replaced, low, high⟩, by omega⟩

theorem Expansion.source_position_of_line {expansion : Expansion} {number : Nat}
    {expanded : ExpandedLine} (line : expansion.lines[number]? = some expanded) (column : Nat) :
    expansion.sourcePosition ⟨number, column⟩ = ⟨number, expanded.sourceColumn column⟩ := by
  rw [sourcePosition, line, Option.bind_some, ExpandedLine.sourceColumn]
  cases expanded.columns <;> rfl

end Z80Toolchain
