import Z80Toolchain.Proofs.Assembly.Placing
import Z80Toolchain.Proofs.Assembly.Reporting

/-!
Assemblies at other places. If the tokens of a source are put to other places, so is everything in the
assembly; only the complaints have to be sorted again. If the new places are in the order of the old
ones, nothing else changes. In any case the complaints are the same, and those that stay at their
places stay in their order.
-/
namespace Z80Toolchain

def Assembly.placedBy (placing : Placing) (assembly : Assembly) : Assembly where
  code := assembly.code
  diagnostics := assembly.diagnostics.map (Diagnostic.retold placing.retelling)
  symbols := assembly.symbols.placedBy placing
  resolved := assembly.resolved
  lines := assembly.lines.map (Line.placedBy placing)

/-! ### Sorted complaints -/

theorem Position.le_iff {first second : Position} :
    first.le second = true ↔
      first.line < second.line ∨ first.line = second.line ∧ first.column ≤ second.column := by
  simp [le]

theorem Position.le_antisymm {first second : Position} (early : first.le second = true)
    (late : second.le first = true) : first = second := by
  rw [le_iff] at early late
  obtain ⟨line, column⟩ := first
  obtain ⟨otherLine, otherColumn⟩ := second
  simp only [mk.injEq] at early late ⊢
  omega

namespace IsStableSort

theorem filter {sorted given : List Diagnostic} (isSort : IsStableSort sorted given)
    (p : Position → Bool) :
    IsStableSort (sorted.filter fun diagnostic => p diagnostic.position)
      (given.filter fun diagnostic => p diagnostic.position) where
  ordered := isSort.ordered.filter _
  stable position := by
    have commute (list : List Diagnostic) :
        (list.filter fun diagnostic => p diagnostic.position).filter
            (fun diagnostic => diagnostic.position = position) =
          (list.filter fun diagnostic => diagnostic.position = position).filter
            fun diagnostic => p diagnostic.position := by
      rw [List.filter_filter, List.filter_filter]
      simp [Bool.and_comm]
    rw [commute, commute, isSort.stable]

theorem head_le {head other : Diagnostic} {rest : List Diagnostic}
    (ordered : (head :: rest).Pairwise fun left right => left.position.le right.position = true)
    (member : other ∈ head :: rest) : head.position.le other.position = true := by
  rcases List.mem_cons.mp member with rfl | later
  · simpa using Position.le_total other.position other.position
  · exact (List.pairwise_cons.mp ordered).1 other later

/-- A list is sorted in one way only. -/
theorem unique {left right given : List Diagnostic} (first : IsStableSort left given)
    (second : IsStableSort right given) : left = right := by
  have same (position : Position) := (first.stable position).trans (second.stable position).symm
  have ordered := first.ordered
  have others := second.ordered
  clear first second
  induction left generalizing right with
  | nil =>
    cases right with
    | nil => rfl
    | cons other right => simpa using same other.position
  | cons head left induction =>
    cases right with
    | nil => simpa using same head.position
    | cons other right =>
      have mine : head ∈ other :: right := by
        have found : head ∈ (head :: left).filter fun diagnostic =>
            diagnostic.position = head.position := by simp
        rw [same] at found
        exact (List.mem_filter.mp found).1
      have yours : other ∈ head :: left := by
        have found : other ∈ (other :: right).filter fun diagnostic =>
            diagnostic.position = other.position := by simp
        rw [← same] at found
        exact (List.mem_filter.mp found).1
      have place := Position.le_antisymm (head_le ordered yours) (head_le others mine)
      obtain rfl : head = other := by
        have heads := same head.position
        rw [List.filter_cons_of_pos (by simp), List.filter_cons_of_pos (by simp [place])] at heads
        exact List.head_eq_of_cons_eq heads
      rw [induction _ ordered.of_cons others.of_cons]
      intro position
      have tails := same position
      simp only [List.filter_cons] at tails
      split at tails
      · exact List.tail_eq_of_cons_eq tails
      · exact tails

end IsStableSort

namespace Scan

variable (scan : Scan) (origin : UInt16) {placing : Placing}

/-- The assembly at new places, before its complaints are sorted. -/
theorem assembly_placed_by :
    (scan.placedBy placing).assembly origin =
      { (scan.assembly origin).placedBy placing with
        diagnostics := ((scan.complaints origin).map (Diagnostic.retold placing.retelling)).mergeSort
          fun left right => left.position.le right.position } := by
  rw [assembly, complaints_placed_by, resolved_placed_by, draft_placed_by]
  simp [assembly, Assembly.placedBy, Draft.placedBy]

/-- Places in the same order give the same assembly at new places. -/
theorem assembly_placed_by_of_ordered
    (ordered : ∀ left ∈ scan.complaints origin, ∀ right ∈ scan.complaints origin,
      left.position.le right.position =
        (placing.place left.position).le (placing.place right.position)) :
    (scan.placedBy placing).assembly origin = (scan.assembly origin).placedBy placing := by
  have sorted := @List.map_mergeSort _ _ (fun left right => left.position.le right.position)
    (fun left right => left.position.le right.position) (Diagnostic.retold placing.retelling)
    (scan.complaints origin) ordered
  rw [assembly_placed_by, ← sorted]
  rfl

end Scan

/-! ### Lines moved down -/

def Placing.below (number : Nat) : Placing where
  place position := if position.line < number then position else ⟨position.line + 1, position.column⟩
  line other := if other < number then other else other + 1
  keeps position := by
    split <;> rfl

theorem Placing.column_below (number : Nat) (position : Position) :
    ((below number).place position).column = position.column := by
  unfold below
  dsimp only
  split <;> rfl

theorem Placing.le_below (number : Nat) (left right : Position) :
    left.le right = ((below number).place left).le ((below number).place right) := by
  rw [Bool.eq_iff_iff, Position.le_iff, Position.le_iff, column_below, column_below,
    (below number).keeps, (below number).keeps]
  simp only [below]
  split <;> split <;> omega

theorem Scan.assembly_below (scan : Scan) (origin : UInt16) (number : Nat) :
    (scan.placedBy (.below number)).assembly origin =
      (scan.assembly origin).placedBy (.below number) := by
  apply scan.assembly_placed_by_of_ordered
  intro left _ right _
  exact Placing.le_below number left.position right.position

/-! ### Columns of one line -/

def Placing.onLine (number : Nat) (motion : Nat → Nat) : Placing where
  place position :=
    if position.line = number then ⟨position.line, motion position.column⟩ else position
  line := id
  keeps position := by
    split <;> rfl

def Diagnostic.withoutColumn (diagnostic : Diagnostic) : Nat × Cause × Option Token.Kind :=
  (diagnostic.position.line, diagnostic.cause, diagnostic.token)

/-- Two assemblies are the same, but complaints on this line may have other columns. As complaints are
sorted by their places, those on this line may then stand in another order. -/
structure Assembly.SameButColumns (number : Nat) (first second : Assembly) : Prop where
  code : first.code = second.code
  symbols : first.symbols = second.symbols
  lines : first.lines = second.lines
  resolved : first.resolved = second.resolved
  others : first.diagnostics.filter (fun diagnostic => diagnostic.position.line ≠ number) =
    second.diagnostics.filter fun diagnostic => diagnostic.position.line ≠ number
  complaints : (first.diagnostics.map Diagnostic.withoutColumn).Perm
    (second.diagnostics.map Diagnostic.withoutColumn)
  order : first.diagnostics.map (fun diagnostic => diagnostic.position.line) =
    second.diagnostics.map fun diagnostic => diagnostic.position.line

section

variable {number : Nat} {motion : Nat → Nat}

theorem Placing.place_on_line {position : Position} (here : position.line = number) :
    (onLine number motion).place position = ⟨position.line, motion position.column⟩ :=
  if_pos here

theorem Placing.place_on_line_of_ne {position : Position} (apart : position.line ≠ number) :
    (onLine number motion).place position = position :=
  if_neg apart

theorem Placing.line_on_line (position : Position) :
    ((onLine number motion).place position).line = position.line :=
  (onLine number motion).keeps position

theorem Diagnostic.without_column_on_line (diagnostic : Diagnostic) :
    (diagnostic.retold (Placing.onLine number motion).retelling).withoutColumn =
      diagnostic.withoutColumn := by
  rw [retold_retelling, withoutColumn, withoutColumn, Placing.line_on_line]

namespace Scan

variable (scan : Scan) (origin : UInt16)

theorem is_stable_sort_placed_by (placing : Placing) :
    IsStableSort ((scan.placedBy placing).assembly origin).diagnostics
      ((scan.complaints origin).map (Diagnostic.retold placing.retelling)) := by
  rw [assembly_placed_by]
  exact is_stable_sort_merge_sort _

variable (number motion)

/-- Complaints on other lines stay as they are. -/
theorem filter_diagnostics_on_line :
    ((scan.placedBy (.onLine number motion)).assembly origin).diagnostics.filter
        (fun diagnostic => diagnostic.position.line ≠ number) =
      (scan.assembly origin).diagnostics.filter fun diagnostic => diagnostic.position.line ≠ number := by
  let apart (position : Position) : Bool := position.line ≠ number
  let moved := Diagnostic.retold (Placing.onLine number motion).retelling
  have lines : (fun diagnostic : Diagnostic => apart diagnostic.position) ∘ moved =
      fun diagnostic => apart diagnostic.position := by
    funext diagnostic
    simp only [Function.comp_apply, apart, moved, Diagnostic.retold_retelling, Placing.line_on_line]
  have fixed : ((scan.complaints origin).map moved).filter (fun diagnostic => apart diagnostic.position) =
      (scan.complaints origin).filter fun diagnostic => apart diagnostic.position := by
    rw [List.filter_map, lines]
    apply (List.map_congr_left fun diagnostic member => ?_).trans (List.map_id _)
    have other : diagnostic.position.line ≠ number := by
      simpa [apart] using (List.mem_filter.mp member).2
    simp only [moved, Diagnostic.retold_retelling, Placing.place_on_line_of_ne other]
    rfl
  have after := (scan.is_stable_sort_placed_by origin (.onLine number motion)).filter apart
  rw [fixed] at after
  exact after.unique ((is_stable_sort_merge_sort (scan.complaints origin)).filter apart)

/-- No complaint is lost, changed, or put to another line. -/
theorem perm_diagnostics_on_line :
    (((scan.placedBy (.onLine number motion)).assembly origin).diagnostics.map
        Diagnostic.withoutColumn).Perm
      ((scan.assembly origin).diagnostics.map Diagnostic.withoutColumn) := by
  have same : ((scan.complaints origin).map (Diagnostic.retold
      (Placing.onLine number motion).retelling)).map Diagnostic.withoutColumn =
      (scan.complaints origin).map Diagnostic.withoutColumn := by
    rw [List.map_map]
    exact List.map_congr_left fun diagnostic _ => diagnostic.without_column_on_line
  rw [assembly_placed_by]
  apply ((List.mergeSort_perm _ _).map _).trans
  rw [same]
  exact (List.mergeSort_perm _ _).symm.map _

/-- The lines of complaints stay in order. -/
theorem lines_diagnostics_on_line :
    ((scan.placedBy (.onLine number motion)).assembly origin).diagnostics.map
        (fun diagnostic => diagnostic.position.line) =
      (scan.assembly origin).diagnostics.map fun diagnostic => diagnostic.position.line := by
  have sorted {list given : List Diagnostic} (isSort : IsStableSort list given) :
      (list.map fun diagnostic => diagnostic.position.line).Pairwise (· ≤ ·) := by
    rw [List.pairwise_map]
    apply isSort.ordered.imp
    intro left right order
    have := Position.le_iff.mp order
    omega
  have perm := (scan.perm_diagnostics_on_line number motion origin).map Prod.fst
  rw [List.map_map, List.map_map] at perm
  apply List.Perm.eq_of_pairwise _ (sorted (scan.is_stable_sort_placed_by origin _))
    (sorted (is_stable_sort_merge_sort (scan.complaints origin))) perm
  intro left right _ _
  exact Nat.le_antisymm

variable {number motion}

theorem same_but_columns_on_line
    (fixed : ∀ symbol ∈ (scan.draft origin).symbols.entries, symbol.position.line = number →
      motion symbol.position.column = symbol.position.column) :
    ((scan.placedBy (.onLine number motion)).assembly origin).SameButColumns number
      (scan.assembly origin) where
  code := by
    rw [assembly_placed_by]
    rfl
  symbols := by
    rw [assembly_placed_by]
    have still : (scan.draft origin).symbols.entries.map
        (Symbol.placedBy (Placing.onLine number motion)) = (scan.draft origin).symbols.entries := by
      apply (List.map_congr_left fun symbol member => ?_).trans (List.map_id _)
      have same : (Placing.onLine number motion).place symbol.position = symbol.position := by
        by_cases here : symbol.position.line = number
        · rw [Placing.place_on_line here, fixed symbol member here]
        · exact Placing.place_on_line_of_ne here
      rw [Symbol.placedBy, same]
      rfl
    exact congrArg Symbols.mk still
  lines := by
    rw [assembly_placed_by]
    exact List.map_id _
  resolved := by
    rw [assembly_placed_by]
    rfl
  others := scan.filter_diagnostics_on_line number motion origin
  complaints := scan.perm_diagnostics_on_line number motion origin
  order := scan.lines_diagnostics_on_line number motion origin

/-- If only the end of the line moves, and moves on, the order of complaints is kept. -/
theorem assembly_on_line {bound : Nat} (still : ∀ column < bound, motion column = column)
    (ends : bound ≤ motion bound)
    (short : ∀ diagnostic ∈ scan.complaints origin, diagnostic.position.line = number →
      diagnostic.position.column ≤ bound) :
    (scan.placedBy (.onLine number motion)).assembly origin =
      (scan.assembly origin).placedBy (.onLine number motion) := by
  have ordered (left right : Nat) (low : left ≤ bound) (high : right ≤ bound) :
      left ≤ right ↔ motion left ≤ motion right := by
    rcases Nat.lt_or_eq_of_le low with inside | rfl <;>
      rcases Nat.lt_or_eq_of_le high with within | rfl
    · rw [still left inside, still right within]
    · rw [still left inside]
      omega
    · rw [still right within]
      omega
    · omega
  apply scan.assembly_placed_by_of_ordered
  intro left first right second
  rw [Bool.eq_iff_iff, Position.le_iff, Position.le_iff, Placing.line_on_line, Placing.line_on_line]
  by_cases level : left.position.line = right.position.line
  · by_cases here : left.position.line = number
    · have there := level.symm.trans here
      have columns := ordered left.position.column right.position.column (short left first here)
        (short right second there)
      simp [Placing.onLine, here, there, columns]
    · rw [Placing.place_on_line_of_ne here, Placing.place_on_line_of_ne (level ▸ here)]
  · simp [level]

end Scan

end

end Z80Toolchain
