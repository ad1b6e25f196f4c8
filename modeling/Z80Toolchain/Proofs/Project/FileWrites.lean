import Mathlib.Data.List.Infix
import Z80Toolchain.Project.FileTree
import Z80Toolchain.Project.Manifest

/-!
What a write does to a file tree. It puts one file where nothing but a file can have been, so no
directory comes or goes: every path leads where it led before, and all other files are as they were.
Programs that only read leave the tree alone.
-/
namespace Z80Toolchain

/-! ### Directories -/

theorem Location.is_always_there_of_prefix {location shorter : Location}
    (there : isAlwaysThere location = true) (cut : shorter <+: location) :
    isAlwaysThere shorter = true := by
  simp only [isAlwaysThere, Bool.or_eq_true, List.all_eq_true, beq_iff_eq] at there ⊢
  rcases there with up | rfl
  · exact .inl fun name member => up name (cut.subset member)
  · rcases List.prefix_concat_iff.mp (show shorter <+: [] ++ ["/"] from cut) with whole | none
    · exact .inr whole
    · exact .inl (by simp [List.prefix_nil.mp none])

namespace FileTree

/-- The locations that something makes directories: those on the way to it, and its own if it is a
directory. -/
def Opens (location : Location) : Location × FileNode → Prop
  | (found, .directory) => location <+: found
  | (found, .file _) => location <+: found ∧ found ≠ location

theorem is_directory_at_iff {tree : FileTree} {location : Location} :
    tree.isDirectoryAt location = true ↔
      Location.isAlwaysThere location = true ∨ ∃ node ∈ tree.nodes, Opens location node := by
  rw [isDirectoryAt, Bool.or_eq_true, List.any_eq_true]
  apply or_congr_right
  apply exists_congr
  intro node
  apply and_congr_right
  intro _
  obtain ⟨found, _ | _⟩ := node <;> simp [Opens]

theorem Opens.of_prefix {location shorter : Location} {node : Location × FileNode}
    (opens : Opens location node) (cut : shorter <+: location) : Opens shorter node := by
  obtain ⟨found, contents | _⟩ := node
  · refine ⟨cut.trans opens.1, ?_⟩
    rintro rfl
    exact opens.2 (opens.1.eq_of_length_le cut.length_le).symm
  · exact cut.trans opens

theorem is_directory_at_of_prefix {tree : FileTree} {location shorter : Location}
    (directory : tree.isDirectoryAt location = true) (cut : shorter <+: location) :
    tree.isDirectoryAt shorter = true := by
  rw [is_directory_at_iff] at directory ⊢
  rcases directory with there | ⟨node, member, opens⟩
  · exact .inl (Location.is_always_there_of_prefix there cut)
  · exact .inr ⟨node, member, opens.of_prefix cut⟩

theorem is_directory_at_nil (tree : FileTree) : tree.isDirectoryAt [] = true :=
  is_directory_at_iff.mpr (.inl rfl)

/-- The directory above a directory is in one as well. -/
theorem is_directory_at_above {tree : FileTree} {location : Location}
    (directory : tree.isDirectoryAt location = true) :
    tree.isDirectoryAt (Location.above location).dropLast = true := by
  unfold Location.above
  split_ifs
  · exact tree.is_directory_at_nil
  · rwa [List.dropLast_concat]
  · apply is_directory_at_of_prefix directory
    exact (List.dropLast_prefix _).trans (List.dropLast_prefix _)

/-- A path that can be followed ends in a directory, whether something is there or not. -/
theorem is_directory_at_follow {tree : FileTree} {location final : Location} {parts : List String}
    (inside : tree.isDirectoryAt location.dropLast = true)
    (followed : tree.follow location parts = .ok final) :
    tree.isDirectoryAt final.dropLast = true := by
  induction parts generalizing location with
  | nil =>
    cases followed
    exact inside
  | cons part parts induction =>
    unfold follow at followed
    split_ifs at followed with missing blank up long
    · exact induction inside followed
    · have there : tree.isDirectoryAt location = true := by simpa using missing
      exact induction (is_directory_at_above there) followed
    · have there : tree.isDirectoryAt location = true := by simpa using missing
      apply induction _ followed
      rwa [List.dropLast_concat]

theorem is_directory_at_locate {tree : FileTree} {path : String} {location : Location}
    (located : tree.locate path = .ok location) : tree.isDirectoryAt location.dropLast = true := by
  unfold locate at located
  split_ifs at located
  · exact @is_directory_at_follow tree Location.root _ _ tree.is_directory_at_nil located
  · exact @is_directory_at_follow tree [] _ _ tree.is_directory_at_nil located

/-! ### Putting a file somewhere -/

def heldAt? (location : Location) : Location × FileNode → Option ByteArray
  | (found, .file contents) => if found = location then some contents else none
  | (_, .directory) => none

theorem file?_eq (tree : FileTree) (location : Location) :
    tree.file? location = tree.nodes.findSome? (heldAt? location) := rfl

section Insert

variable {tree : FileTree} {location : Location} (contents : ByteArray)

/-- A file in a directory opens no other one. -/
theorem is_directory_at_insert (inside : tree.isDirectoryAt location.dropLast = true)
    (free : tree.isDirectoryAt location = false) (other : Location) :
    (tree.insert location contents).isDirectoryAt other = tree.isDirectoryAt other := by
  rw [Bool.eq_iff_iff]
  constructor
  · intro directory
    rcases is_directory_at_iff.mp directory with there | ⟨node, member, opens⟩
    · exact is_directory_at_iff.mpr (.inl there)
    · rcases List.mem_append.mp member with old | new
      · exact is_directory_at_iff.mpr (.inr ⟨node, (List.mem_filter.mp old).1, opens⟩)
      · obtain rfl := List.mem_singleton.mp new
        apply is_directory_at_of_prefix inside
        obtain ⟨⟨rest, rfl⟩, apart⟩ := opens
        have some : rest ≠ [] := by
          rintro rfl
          exact apart (List.append_nil _)
        rw [List.dropLast_append_of_ne_nil some]
        exact List.prefix_append _ _
  · intro directory
    rw [is_directory_at_iff]
    rcases is_directory_at_iff.mp directory with there | ⟨⟨found, node⟩, member, opens⟩
    · exact .inl there
    · refine .inr ?_
      by_cases here : found = location
      · subst here
        refine ⟨_, List.mem_append_right _ (List.mem_singleton.mpr rfl), ?_⟩
        cases node with
        | file old => exact opens
        | directory =>
          have there : tree.isDirectoryAt found = true :=
            is_directory_at_iff.mpr (.inr ⟨_, member, List.prefix_refl found⟩)
          rw [free] at there
          cases there
      · refine ⟨_, List.mem_append_left _ (List.mem_filter.mpr ⟨member, ?_⟩), opens⟩
        simpa using here

theorem file?_insert_self : (tree.insert location contents).file? location = some contents := by
  rw [file?_eq, insert, List.findSome?_append, Option.or_of_isNone]
  · simp [heldAt?]
  · simp only [Option.isNone_iff_eq_none, List.findSome?_eq_none_iff, List.mem_filter]
    rintro ⟨found, _ | _⟩ ⟨-, apart⟩
    · exact if_neg (by simpa using apart)
    · rfl

theorem file?_insert_other {other : Location} (apart : other ≠ location) :
    (tree.insert location contents).file? other = tree.file? other := by
  have none : ∀ node, heldAt? other (location, node) = none := by
    intro node
    cases node with
    | file => exact if_neg apart.symm
    | directory => rfl
  rw [file?_eq, file?_eq, insert, List.findSome?_append, List.findSome?_singleton, none,
    Option.or_none]
  induction tree.nodes with
  | nil => rfl
  | cons node nodes induction =>
    rw [List.filter_cons, List.findSome?_cons]
    split
    · rw [List.findSome?_cons, induction]
    · next here =>
      obtain ⟨found, kind⟩ := node
      obtain rfl : found = location := by simpa using here
      rw [none, induction]

/-- Nothing but the file that is put there becomes different. -/
theorem changed_from_insert {earlier : FileTree} {changed : Location × ByteArray}
    (member : changed ∈ (tree.insert location contents).changedFrom earlier) :
    changed.1 = location ∨ changed ∈ tree.changedFrom earlier := by
  obtain ⟨held, differs⟩ := List.mem_filter.mp member
  obtain ⟨⟨found, node⟩, listed, here⟩ := List.mem_filterMap.mp held
  cases node with
  | directory => cases here
  | file bytes =>
    cases here
    rcases List.mem_append.mp listed with old | new
    · refine .inr (List.mem_filter.mpr ⟨?_, differs⟩)
      exact List.mem_filterMap.mpr ⟨_, (List.mem_filter.mp old).1, rfl⟩
    · cases List.mem_singleton.mp new
      exact .inl rfl

end Insert

/-- A tree that lists every location once does not differ from itself. -/
theorem changed_from_self {tree : FileTree} (once : (tree.nodes.map Prod.fst).Nodup) :
    tree.changedFrom tree = [] := by
  rw [changedFrom, List.filter_eq_nil_iff]
  rintro ⟨location, contents⟩ held
  obtain ⟨⟨found, node⟩, listed, here⟩ := List.mem_filterMap.mp held
  cases node with
  | directory => cases here
  | file bytes =>
    cases here
    have unique : tree.file? location = some contents := by
      obtain ⟨before, after, split⟩ := List.append_of_mem listed
      rw [split, List.map_append, List.map_cons, List.nodup_append] at once
      rw [file?_eq, split, List.findSome?_append, List.findSome?_cons]
      have none : before.findSome? (heldAt? location) = none := by
        rw [List.findSome?_eq_none_iff]
        rintro ⟨other, _ | _⟩ earlier
        · exact if_neg (once.2.2 other (List.mem_map_of_mem earlier) location List.mem_cons_self)
        · rfl
      simp [none, heldAt?]
    have same : (contents == contents) = true := by
      obtain ⟨bytes⟩ := contents
      exact beq_self_eq_true bytes
    simp [unique, bne, same]

/-- Paths lead to the same places where the directories are the same. -/
theorem follow_of_same {tree other : FileTree}
    (same : ∀ location, other.isDirectoryAt location = tree.isDirectoryAt location)
    {location final : Location} {parts : List String}
    (followed : tree.follow location parts = .ok final) :
    other.follow location parts = .ok final := by
  induction parts generalizing location with
  | nil => exact followed
  | cons part parts induction =>
    unfold follow at followed ⊢
    rw [same]
    split_ifs at followed ⊢ <;> exact induction followed

theorem locate_of_same {tree other : FileTree}
    (same : ∀ location, other.isDirectoryAt location = tree.isDirectoryAt location)
    {path : String} {location : Location} (located : tree.locate path = .ok location) :
    other.locate path = .ok location := by
  unfold locate at located ⊢
  split_ifs at located ⊢ <;> exact follow_of_same same located

/-! ### Writing a file -/

/-- A path behind which a file can be put: there is no directory, but one to put it in. -/
def CanWrite (tree : FileTree) (path : String) : Prop :=
  ∃ location, tree.locate path = .ok location ∧ tree.isDirectoryAt location = false

structure Wrote (tree : FileTree) (path : String) (contents : ByteArray) (after : FileTree) :
    Prop where
  written : after.read path = .ok contents
  writable : ∀ other, tree.CanWrite other → after.CanWrite other
  located : ∀ other location, tree.locate other = .ok location → after.locate other = .ok location
  kept : ∀ other old, tree.read other = .ok old → tree.locate other ≠ tree.locate path →
    after.read other = .ok old
  only : ∀ earlier, ∀ changed ∈ after.changedFrom earlier,
    tree.locate path = .ok changed.1 ∨ changed ∈ tree.changedFrom earlier

theorem read_eq_ok {tree : FileTree} {path : String} {contents : ByteArray}
    (read : tree.read path = .ok contents) :
    ∃ location, tree.locate path = .ok location ∧ tree.file? location = some contents := by
  unfold FileTree.read at read
  cases located : tree.locate path with
  | error reason => rw [located] at read; cases read
  | ok location =>
    rw [located] at read
    simp only [bind, Except.bind] at read
    split at read
    · next found => cases read; exact ⟨location, rfl, found⟩
    · cases read

theorem read_of_file? {tree : FileTree} {path : String} {location : Location} {contents : ByteArray}
    (located : tree.locate path = .ok location) (found : tree.file? location = some contents) :
    tree.read path = .ok contents := by
  rw [FileTree.read, located]
  simp only [bind, Except.bind, found]

theorem exists_wrote {tree : FileTree} {path : String} (writable : tree.CanWrite path)
    (contents : ByteArray) :
    ∃ after, tree.write path contents = .ok after ∧ tree.Wrote path contents after := by
  obtain ⟨location, located, free⟩ := writable
  have same := is_directory_at_insert contents (is_directory_at_locate located) free
  refine ⟨tree.insert location contents, ?_, ?_⟩
  · rw [write, located]
    simp only [bind, Except.bind, free]
    rfl
  · constructor
    · exact read_of_file? (locate_of_same same located) (file?_insert_self contents)
    · rintro other ⟨place, found, clear⟩
      exact ⟨place, locate_of_same same found, (same place).trans clear⟩
    · intro other place found
      exact locate_of_same same found
    · intro other old read apart
      obtain ⟨place, found, held⟩ := read_eq_ok read
      have elsewhere : place ≠ location := by
        rintro rfl
        exact apart (found.trans located.symm)
      exact read_of_file? (locate_of_same same found)
        ((file?_insert_other contents elsewhere).trans held)
    · intro earlier changed member
      rcases changed_from_insert contents member with rfl | old
      · exact .inl located
      · exact .inr old

/-! ### Programs that only read -/

def text? (tree : FileTree) (path : String) : Option String :=
  match tree.read path with
  | .ok contents => String.fromUTF8? contents
  | .error _ => none

theorem text?_of_read {tree : FileTree} {path text : String}
    (read : tree.read path = .ok text.toUTF8) : tree.text? path = some text := by
  rw [text?, read]
  exact dif_pos text.isValidUTF8

theorem run_bind {α β : Type} (program : StateM FileTree α) (next : α → StateM FileTree β)
    (tree : FileTree) :
    (program >>= next).run tree = (next (program.run tree).1).run (program.run tree).2 := rfl

theorem run_get (tree : FileTree) : (get : StateM FileTree FileTree).run tree = (tree, tree) := rfl

theorem run_read (tree : FileTree) (path : String) :
    (host.read path).run tree = (tree.read path, tree) := rfl

theorem run_read_text? (tree : FileTree) (path : String) :
    (host.readText? path).run tree = (tree.text? path, tree) := by
  rw [Host.readText?, run_bind, run_read, text?]
  cases tree.read path <;> rfl

theorem run_write {tree after : FileTree} {path : String} {contents : ByteArray}
    (written : tree.write path contents = .ok after) :
    (host.write path contents).run tree = (.ok (), after) := by
  unfold host
  rw [run_bind, run_get, written]
  rfl

def ReadOnly {α : Type} (program : StateM FileTree α) : Prop :=
  ∀ tree, (program.run tree).2 = tree

theorem read_only_pure {α : Type} (value : α) : ReadOnly (pure value) :=
  fun _ => rfl

theorem read_only_bind {α β : Type} {program : StateM FileTree α} {next : α → StateM FileTree β}
    (first : ReadOnly program) (later : ∀ value, ReadOnly (next value)) :
    ReadOnly (program >>= next) := by
  intro tree
  rw [run_bind, later, first]

theorem read_only_read_text? (path : String) : ReadOnly (host.readText? path) := by
  intro tree
  rw [run_read_text?]

theorem read_only_entry_steps (sources : String) (entry : ManifestEntry) :
    ReadOnly (Manifest.entrySteps host sources entry) := by
  apply read_only_bind (fun _ => rfl)
  intro isDirectory
  split
  · apply read_only_bind (fun _ => rfl)
    intro names
    cases names <;> exact read_only_pure _
  · exact read_only_pure _

theorem read_only_all_steps (sources : String) (entries : List ManifestEntry) :
    ReadOnly (Manifest.allSteps host sources entries) := by
  induction entries with
  | nil => exact read_only_pure _
  | cons entry entries induction =>
    apply read_only_bind (read_only_entry_steps sources entry)
    intro found
    cases found with
    | error failure => exact read_only_pure _
    | ok steps =>
      apply read_only_bind induction
      intro later
      cases later <;> exact read_only_pure _

theorem read_only_load (directory : String) : ReadOnly (Manifest.load host directory) := by
  apply read_only_bind (read_only_read_text? _)
  intro found
  cases found with
  | none => exact read_only_pure _
  | some text =>
    dsimp only
    cases Manifest.parse text.toList with
    | error failure => exact read_only_pure _
    | ok entries => exact read_only_all_steps _ entries

end FileTree

end Z80Toolchain
