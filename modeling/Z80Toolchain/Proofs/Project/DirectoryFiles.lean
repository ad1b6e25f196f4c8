import Mathlib.Data.List.Nodup
import Z80Toolchain.Proofs.Project.FileWrites
import Z80Toolchain.Proofs.Text.ByteOrder

/-!
The files of a directory. Behind the path of a directory a name leads to what the directory holds
under that name, unless the path gets too long to be followed. So a directory lists its regular files,
each once, and sorted they stand in the order of the bytes of their names.
-/
namespace Z80Toolchain

/-! ### Names behind paths -/

namespace Path

/-- A name of something in a directory: one part of a path that leads down. -/
structure IsName (name : String) : Prop where
  some : name ≠ ""
  notHere : name ≠ "."
  notAbove : name ≠ ".."
  whole : '/' ∉ name.toList

theorem is_name_iff {name : String} :
    IsName name ↔ name ≠ "" ∧ name ≠ "." ∧ name ≠ ".." ∧ '/' ∉ name.toList :=
  ⟨fun isName => ⟨isName.some, isName.notHere, isName.notAbove, isName.whole⟩,
    fun conditions => ⟨conditions.1, conditions.2.1, conditions.2.2.1, conditions.2.2.2⟩⟩

instance : DecidablePred IsName := fun _ => decidable_of_iff _ is_name_iff.symm

theorem split_ne_nil (text : List Char) : split text ≠ [] := by
  fun_cases split text <;> simp

theorem split_of_whole {text : List Char} (whole : '/' ∉ text) : split text = [text] := by
  induction text with
  | nil => rfl
  | cons c rest induction =>
    rw [List.mem_cons, not_or] at whole
    rw [split, if_neg (Ne.symm whole.1), induction whole.2]

theorem split_append (front rest : List Char) :
    split (front ++ '/' :: rest) = split front ++ split rest := by
  induction front with
  | nil => simp [split]
  | cons c front induction =>
    rw [List.cons_append, split, split, induction]
    by_cases slash : c = '/'
    · simp [slash]
    · cases parts : split front with
      | nil => exact absurd parts (split_ne_nil front)
      | cons part others => simp [slash]

/-- A name goes behind the path: behind its last slash if it ends with one, else behind a new one. -/
theorem join_name {path name : String} (some : path ≠ "") (isName : IsName name) :
    ∃ front : List Char, (join path name).toList = front ++ '/' :: name.toList ∧
      (path.toList = front ∨ path.toList = front ++ ['/']) := by
  have relative : ¬ name.toList.head? = Option.some '/' := by
    intro slash
    exact isName.whole (List.mem_of_mem_head? slash)
  have nonempty : ¬ path.isEmpty = true := by simpa using some
  rw [join, if_neg (by simp [nonempty, relative])]
  split
  · next slash =>
    obtain ⟨front, same⟩ := List.getLast?_eq_some_iff.mp (by simpa using slash)
    exact ⟨front, by simp [same], .inr same⟩
  · exact ⟨path.toList, by simp, .inl rfl⟩

theorem parts_of_to_list {path name : String} {front : List Char}
    (spelled : path.toList = front ++ '/' :: name.toList) (whole : '/' ∉ name.toList) :
    parts path = (split front).map String.ofList ++ [name] := by
  rw [parts, spelled, split_append, split_of_whole whole, List.map_append, List.map_singleton,
    String.ofList_toList]

end Path

namespace FileTree

variable {tree : FileTree}

theorem follow_append (location : Location) (first second : List String) :
    tree.follow location (first ++ second) =
      tree.follow location first >>= (tree.follow · second) := by
  induction first generalizing location with
  | nil => rfl
  | cons part first induction =>
    rw [List.cons_append, follow, follow]
    split_ifs
    · rfl
    · exact induction _
    · exact induction _
    · rfl
    · exact induction _

/-- A slash at the end of a path leads to the same place. -/
theorem follow_blank {location final : Location} (followed : tree.follow location [""] = .ok final) :
    final = location := by
  unfold follow at followed
  split_ifs at followed with missing blank
  · cases followed
    rfl
  all_goals exact absurd (.inl rfl) blank

theorem follow_name {location : Location} {name : String} (isName : Path.IsName name)
    (directory : tree.isDirectoryAt location = true) :
    tree.follow location [name] =
      if nameLimit < name.utf8ByteSize then .error .nameTooLong else .ok (location ++ [name]) := by
  have down : ¬ (name = "" ∨ name = ".") := not_or.mpr ⟨isName.some, isName.notHere⟩
  rw [follow, if_neg (by simp [directory]), if_neg down, if_neg isName.notAbove]
  rfl

def startOf (path : String) : Location :=
  if path.toList.head? == some '/' then Location.root else []

theorem locate_of_short {path : String} (short : ¬ pathLimit < path.utf8ByteSize)
    (some : path ≠ "") : tree.locate path = tree.follow (startOf path) (Path.parts path) := by
  have nonempty : ¬ path.isEmpty = true := by simpa using some
  rw [locate, if_neg short, if_neg nonempty]
  rfl

theorem locate_eq_ok {path : String} {location : Location}
    (located : tree.locate path = .ok location) :
    path ≠ "" ∧ tree.follow (startOf path) (Path.parts path) = .ok location := by
  unfold locate at located
  split at located
  · cases located
  · split at located
    · cases located
    · next some => exact ⟨by simpa using some, located⟩

theorem start_of_eq {path other : String} (same : path.toList.head? = other.toList.head?) :
    startOf path = startOf other := by
  unfold startOf
  rw [same]

/-- Where the path of a directory leads with a name behind it. -/
theorem locate_join {path name : String} {location : Location} (isName : Path.IsName name)
    (located : tree.locate path = .ok location) (directory : tree.isDirectoryAt location = true) :
    tree.locate (Path.join path name) =
      if pathLimit < (Path.join path name).utf8ByteSize then .error .nameTooLong
      else if nameLimit < name.utf8ByteSize then .error .nameTooLong
      else .ok (location ++ [name]) := by
  obtain ⟨some, followed⟩ := locate_eq_ok located
  obtain ⟨front, joined, spelled⟩ := Path.join_name some isName
  split
  · next long => rw [locate, if_pos long]
  · next short =>
    have nonempty : Path.join path name ≠ "" := by
      intro empty
      simp [empty] at joined
    have start : startOf (Path.join path name) = startOf path := by
      apply start_of_eq
      rw [joined]
      rcases spelled with same | slash
      · rw [same, List.head?_append_of_ne_nil]
        rw [← same]
        simpa using some
      · rw [slash]
        cases front <;> rfl
    have arrived :
        tree.follow (startOf path) ((Path.split front).map String.ofList) = .ok location := by
      rcases spelled with same | slash
      · rwa [Path.parts, same] at followed
      · rw [@Path.parts_of_to_list path "" front slash (by simp), follow_append] at followed
        cases middle : tree.follow (startOf path) ((Path.split front).map String.ofList) with
        | error reason =>
          rw [middle] at followed
          cases followed
        | ok place =>
          rw [middle] at followed
          rw [follow_blank followed]
    rw [locate_of_short short nonempty, start, Path.parts_of_to_list joined isName.whole,
      follow_append, arrived, ← follow_name isName directory]
    rfl

/-! ### What a directory holds -/

/-- Every location is listed once, under names that a path can spell. -/
structure WellFormed (tree : FileTree) : Prop where
  once : (tree.nodes.map Prod.fst).Nodup
  named : ∀ node ∈ tree.nodes, ∀ name ∈ node.1, Path.IsName name

/-- The names of the regular files directly in the directory that a path leads to, each once. A
path that is too long leads to no file. -/
structure FilesIn (tree : FileTree) (path : String) (names : List String) : Prop where
  listed : ∀ name, name ∈ names ↔ Path.IsName name ∧ tree.isFile (Path.join path name) = true
  once : names.Nodup

theorem is_some_file?_iff {location : Location} :
    (tree.file? location).isSome = true ↔ ∃ contents, (location, .file contents) ∈ tree.nodes := by
  rw [file?_eq, List.findSome?_isSome_iff]
  constructor
  · rintro ⟨⟨found, node⟩, member, held⟩
    cases node with
    | directory => cases held
    | file contents =>
      by_cases here : found = location
      · subst here
        exact ⟨contents, member⟩
      · simp [heldAt?, here] at held
  · rintro ⟨contents, member⟩
    exact ⟨_, member, by simp [heldAt?]⟩

def nameIn? (location : Location) : Location × FileNode → Option String
  | (found, .file _) => if found.dropLast = location then found.getLast? else none
  | (_, .directory) => none

theorem names_in_eq (location : Location) :
    tree.namesIn location = tree.nodes.filterMap (nameIn? location) := rfl

theorem name_in?_eq_some {location : Location} {node : Location × FileNode} {name : String} :
    nameIn? location node = some name ↔
      ∃ contents, node = (location ++ [name], .file contents) := by
  constructor
  · intro named
    obtain ⟨found, contents | _⟩ := node
    · obtain ⟨inside, last⟩ := Option.ite_none_right_eq_some.mp named
      obtain ⟨above, rfl⟩ := List.getLast?_eq_some_iff.mp last
      rw [List.dropLast_concat] at inside
      exact ⟨contents, by rw [inside]⟩
    · cases named
  · rintro ⟨contents, rfl⟩
    simp [nameIn?]

theorem mem_names_in {location : Location} {name : String} :
    name ∈ tree.namesIn location ↔ (tree.file? (location ++ [name])).isSome = true := by
  rw [names_in_eq, List.mem_filterMap, is_some_file?_iff]
  simp only [name_in?_eq_some]
  constructor
  · rintro ⟨node, member, contents, rfl⟩
    exact ⟨contents, member⟩
  · rintro ⟨contents, member⟩
    exact ⟨_, member, contents, rfl⟩

theorem nodup_names_in (wellFormed : tree.WellFormed) (location : Location) :
    (tree.namesIn location).Nodup := by
  rw [names_in_eq]
  apply List.Pairwise.filterMap _ _ (List.pairwise_map.mp wellFormed.once)
  intro node other apart name named otherName otherNamed same
  obtain ⟨contents, rfl⟩ := name_in?_eq_some.mp named
  obtain ⟨others, rfl⟩ := name_in?_eq_some.mp otherNamed
  exact apart (by rw [same])

theorem is_name_of_mem_names_in (wellFormed : tree.WellFormed) {location : Location} {name : String}
    (member : name ∈ tree.namesIn location) : Path.IsName name := by
  obtain ⟨contents, listed⟩ := is_some_file?_iff.mp (mem_names_in.mp member)
  exact wellFormed.named _ listed name (List.mem_append_right _ (List.mem_singleton.mpr rfl))

/-- Only the files directly in a directory have a path of one name behind that of the directory. -/
theorem mem_names_in_of_is_file {path name : String} {location : Location}
    (isName : Path.IsName name) (located : tree.locate path = .ok location)
    (directory : tree.isDirectoryAt location = true)
    (file : tree.isFile (Path.join path name) = true) : name ∈ tree.namesIn location := by
  rw [isFile, locate_join isName located directory] at file
  split_ifs at file
  exact mem_names_in.mpr file

theorem is_directory_iff {path : String} :
    tree.isDirectory path = true ↔
      ∃ location, tree.locate path = .ok location ∧ tree.isDirectoryAt location = true := by
  unfold isDirectory
  cases tree.locate path <;> simp

/-- A directory can always be listed. -/
theorem exists_files_in (wellFormed : tree.WellFormed) {path : String}
    (directory : tree.isDirectory path = true) :
    ∃ names, tree.fileNames path = .ok names ∧ tree.FilesIn path names := by
  obtain ⟨location, located, there⟩ := is_directory_iff.mp directory
  refine ⟨(tree.namesIn location).filter fun name => tree.isFile (Path.join path name), ?_, ?_, ?_⟩
  · rw [fileNames, located]
    exact if_pos there
  · intro name
    rw [List.mem_filter]
    constructor
    · rintro ⟨member, file⟩
      exact ⟨is_name_of_mem_names_in wellFormed member, file⟩
    · rintro ⟨isName, file⟩
      exact ⟨mem_names_in_of_is_file isName located there file, file⟩
  · exact (nodup_names_in wellFormed location).filter _

/-! ### The order of names -/

/-- Names that are sorted as texts are sorted by their bytes. -/
theorem merge_sort_bytes_before {names : List String} (once : names.Nodup) :
    (names.mergeSort fun left right => decide (left ≤ right)).Pairwise fun left right =>
      Text.BytesBefore (Text.bytes left) (Text.bytes right) := by
  let inOrder (left right : String) : Bool := decide (left ≤ right)
  have sorted : (names.mergeSort inOrder).Pairwise fun left right => inOrder left right = true := by
    apply List.pairwise_mergeSort
    · intro first second third early late
      simp only [inOrder, decide_eq_true_eq] at early late ⊢
      exact String.le_trans early late
    · intro first second
      simpa [inOrder] using String.le_total first second
  have apart : (names.mergeSort inOrder).Nodup := (List.mergeSort_perm names inOrder).nodup_iff.mpr once
  apply (sorted.and apart).imp
  rintro left right ⟨ordered, other⟩
  apply Text.bytes_before
  by_contra reversed
  exact other (String.le_antisymm (of_decide_eq_true ordered) (String.not_lt.mp reversed))

/-- The files of a directory have one order only. -/
theorem FilesIn.unique {path : String} {names others : List String}
    (first : tree.FilesIn path names) (second : tree.FilesIn path others)
    (sorted : names.Pairwise fun left right =>
      Text.BytesBefore (Text.bytes left) (Text.bytes right))
    (sortedOthers : others.Pairwise fun left right =>
      Text.BytesBefore (Text.bytes left) (Text.bytes right)) : names = others := by
  have same : names.Perm others := by
    apply (List.perm_ext_iff_of_nodup first.once second.once).mpr
    intro name
    rw [first.listed, second.listed]
  apply List.Perm.eq_of_pairwise _ sorted sortedOthers same
  intro left right _ _ before after
  exact absurd after before.asymm

end FileTree

end Z80Toolchain
