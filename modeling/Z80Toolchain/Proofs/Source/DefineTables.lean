import Z80Toolchain.Proofs.Source.LexemeShape
import Z80Toolchain.Proofs.Source.PlainExpansion

/-!
The tables of definitions that the directives of a source build. A body is part of one line, in front
of its comment; so no body of such a table has a line end or a semicolon.
-/
namespace Z80Toolchain

/-! ### Lines -/

def IsFlat (text : List Char) : Prop :=
  ∀ c ∈ text, c ≠ '\n' ∧ c ≠ '\r'

instance decidableIsFlat (text : List Char) : Decidable (IsFlat text) :=
  List.decidableBAll _ text

namespace IsFlat

theorem no_feed {text : List Char} (flat : IsFlat text) : '\n' ∉ text :=
  fun feed => (flat '\n' feed).1 rfl

theorem normalize {text : List Char} (flat : IsFlat text) : Text.normalize text = text :=
  Text.normalize_of_no_return fun c member => (flat c member).2

end IsFlat

namespace Text

theorem no_return_normalize (text : List Char) : '\r' ∉ normalize text := by
  fun_induction normalize text with
  | case1 => simp
  | case2 rest induction => simpa using induction
  | case3 rest _ induction => simpa using induction
  | case4 c rest _ noReturn induction =>
    have other : c ≠ '\r' := noReturn
    simpa using ⟨other.symm, induction⟩

theorem normalize_join_lines {lines : List (List Char)} (flat : ∀ line ∈ lines, IsFlat line) :
    normalize (joinLines lines) = joinLines lines := by
  apply normalize_of_no_return
  intro c member
  rcases mem_join_lines member with rfl | ⟨line, found, inside⟩
  · decide
  · exact (flat line found c inside).2

theorem split_lines_normalize_join_lines {lines : List (List Char)} (some : lines ≠ [])
    (flat : ∀ line ∈ lines, IsFlat line) : splitLines (normalize (joinLines lines)) = lines := by
  rw [normalize_join_lines flat]
  exact split_lines_join_lines some fun line member => (flat line member).no_feed

theorem mem_of_mem_split_lines {text line : List Char} (found : line ∈ splitLines text) {c : Char}
    (inside : c ∈ line) : c ∈ text ∧ c ≠ '\n' := by
  induction text generalizing line with
  | nil =>
    rw [splitLines, List.mem_singleton] at found
    simp [found] at inside
  | cons d rest induction =>
    rw [splitLines] at found
    split at found
    · rcases List.mem_cons.mp found with rfl | later
      · cases inside
      · have := induction later inside
        simp [this]
    · next noFeed =>
      cases lines : splitLines rest with
      | nil => exact absurd lines (split_lines_ne_nil rest)
      | cons first others =>
        rw [lines] at found induction
        rcases List.mem_cons.mp found with rfl | later
        · rcases List.mem_cons.mp inside with rfl | inside
          · simp [noFeed]
          · have := induction List.mem_cons_self inside
            simp [this]
        · have := induction (List.mem_cons_of_mem _ later) inside
          simp [this]

theorem is_flat_of_mem_split_lines {source line : List Char}
    (found : line ∈ splitLines (normalize source)) : IsFlat line := by
  intro c inside
  obtain ⟨member, noFeed⟩ := mem_of_mem_split_lines found inside
  refine ⟨noFeed, ?_⟩
  rintro rfl
  exact no_return_normalize source member

theorem mem_of_mem_trim {text : List Char} {c : Char} (inside : c ∈ trim text) : c ∈ text := by
  have start := (List.dropWhile_sublist isBlank (l := (trimStart text).reverse)).subset
    (List.mem_reverse.mp inside)
  exact (List.dropWhile_sublist isBlank).subset (List.mem_reverse.mp start)

end Text

/-! ### Directives -/

/-- A body is part of its line, in front of the comment. -/
theorem Directive.mem_of_parse {text name body : List Char}
    (parsed : parse text = .ok (define name body)) {c : Char} (inside : c ∈ body) :
    c ∈ text ∧ c ≠ ';' := by
  have kept : c ∈ text.takeWhile (· != ';') := by
    unfold parse at parsed
    dsimp only [Text.splitWord] at parsed
    unfold ofWords at parsed
    split at parsed
    · split at parsed
      · cases parsed
      · cases parsed
        have behindName := (List.dropWhile_sublist _).subset (Text.mem_of_mem_trim inside)
        exact (List.dropWhile_sublist _).subset ((List.dropWhile_sublist _).subset behindName)
    · split at parsed
      · split at parsed <;> cases parsed
      · cases parsed
  exact ⟨(List.takeWhile_sublist _).subset kept, by simpa using mem_take_while kept⟩

namespace Defines

/-- The bodies have neither line ends nor comments. -/
def Plain (defines : Defines) : Prop :=
  ∀ entry ∈ defines.entries, IsFlat entry.2 ∧ ';' ∉ entry.2

theorem Plain.of_find? {defines : Defines} (plain : defines.Plain) {name body : List Char}
    (found : defines.find? name = some body) : IsFlat body ∧ ';' ∉ body := by
  obtain ⟨entry, member, rfl⟩ := Option.map_eq_some_iff.mp found
  exact plain entry (List.mem_of_find?_eq_some member)

theorem Plain.insert {defines : Defines} (plain : defines.Plain) {name body : List Char}
    (flat : IsFlat body) (noComment : ';' ∉ body) : (defines.insert name body).Plain := by
  unfold Defines.insert
  split
  · intro entry member
    obtain ⟨old, oldMember, rfl⟩ := List.mem_map.mp member
    split
    · exact ⟨flat, noComment⟩
    · exact plain old oldMember
  · intro entry member
    rcases List.mem_append.mp member with old | new
    · exact plain entry old
    · rw [List.mem_singleton.mp new]
      exact ⟨flat, noComment⟩

theorem Plain.erase {defines : Defines} (plain : defines.Plain) (name : List Char) :
    (defines.erase name).Plain :=
  fun entry member => plain entry (List.mem_filter.mp member).1

/-- One directive keeps bodies plain. -/
theorem Plain.direct {defines next : Defines} (plain : defines.Plain) {text : List Char}
    (flat : IsFlat text) (done : Expansion.direct defines text = .ok next) : next.Plain := by
  unfold Expansion.direct at done
  cases parsed : Directive.parse text with
  | error cause =>
    rw [parsed] at done
    cases done
  | ok directive =>
    rw [parsed] at done
    change directive.apply defines = .ok next at done
    cases directive with
    | define name body =>
      cases done
      apply plain.insert
      · exact fun c inside => flat c (Directive.mem_of_parse parsed inside).1
      · exact fun comment => (Directive.mem_of_parse parsed comment).2 rfl
    | undefine name =>
      simp only [Directive.apply] at done
      split at done
      · cases done
        exact plain.erase name
      · cases done

end Defines

/-! ### Sources -/

def Defines.IsBuilt (defines : Defines) : Prop :=
  ∃ source, (Expansion.ofText (Text.normalize source)).defines = defines

namespace Expansion

theorem plain_add_line {expansion : Expansion} (plain : expansion.defines.Plain) {line : List Char}
    (flat : IsFlat line) : (expansion.addLine line).defines.Plain := by
  unfold addLine
  split
  · next directive percent =>
    have inside : IsFlat directive := by
      intro c member
      apply flat c
      apply (List.dropWhile_sublist Text.isBlank).subset
      change c ∈ Text.trimStart line
      rw [percent]
      exact List.mem_cons_of_mem _ member
    dsimp only
    split
    · next next done => exact plain.direct inside done
    · exact plain
  · exact plain

theorem plain_foldl_add_line {lines : List (List Char)} (flat : ∀ line ∈ lines, IsFlat line)
    {expansion : Expansion} (plain : expansion.defines.Plain) :
    (lines.foldl addLine expansion).defines.Plain := by
  induction lines generalizing expansion with
  | nil => exact plain
  | cons line lines induction =>
    rw [List.forall_mem_cons] at flat
    exact induction flat.2 (plain_add_line plain flat.1)

end Expansion

theorem Defines.IsBuilt.plain {defines : Defines} (built : defines.IsBuilt) : defines.Plain := by
  obtain ⟨source, rfl⟩ := built
  apply Expansion.plain_foldl_add_line
  · exact fun line => Text.is_flat_of_mem_split_lines
  · intro entry member
    cases member

end Z80Toolchain
