import Z80Toolchain.Proofs.Project.DirectoryFiles
import Z80Toolchain.Proofs.Project.ManifestWords

/-!
The steps of a project. An entry of the manifest makes one step if it is a file, and one for each
regular file in it if it is a directory. Its address goes to the first of these steps and to nothing
else, even if there is no first one. Whether the files of the steps can be read is not asked here.
-/
namespace Z80Toolchain.Manifest

/-! ### Steps of an entry -/

/-- The paths that an entry stands for: its own, or if it is a directory those of the regular files
directly in it, in the order of the bytes of their names. -/
inductive Stands (tree : FileTree) (path : String) : List String → Prop
  | file (plain : tree.isDirectory path = false) : Stands tree path [path]
  | directory {names : List String} (there : tree.isDirectory path = true)
      (holds : tree.FilesIn path names)
      (sorted : names.Pairwise fun left right =>
        Text.BytesBefore (Text.bytes left) (Text.bytes right)) :
      Stands tree path (names.map (Path.join path))

/-- The steps of an entry, the first of which takes its address. -/
structure StepsFor (tree : FileTree) (path : String) (address : Option UInt16)
    (steps : List BuildStep) : Prop where
  paths : Stands tree path (steps.map BuildStep.path)
  first : ∀ step ∈ steps.head?, step.address = address
  floating : ∀ step ∈ steps.tail, step.address = none

def Group.Steps (tree : FileTree) (sources : String) (group : Group) (steps : List BuildStep) : Prop :=
  ∃ address, LastAddress none group.addresses address ∧
    StepsFor tree (sources ++ "/" ++ String.ofList group.word) address steps

theorem Stands.unique {tree : FileTree} {path : String} {paths others : List String}
    (first : Stands tree path paths) (second : Stands tree path others) : paths = others := by
  cases first with
  | file plain =>
    cases second with
    | file => rfl
    | directory there => cases plain.symm.trans there
  | directory there holds sorted =>
    cases second with
    | file plain => cases plain.symm.trans there
    | directory _ held ordered => rw [holds.unique held sorted ordered]

theorem eq_map_of_floating {steps : List BuildStep} (floating : ∀ step ∈ steps, step.address = none) :
    steps = (steps.map BuildStep.path).map fun path => ⟨path, none⟩ := by
  induction steps with
  | nil => rfl
  | cons step steps induction =>
    obtain ⟨here, later⟩ := List.forall_mem_cons.mp floating
    rw [List.map_cons, List.map_cons, ← induction later, ← here]

theorem StepsFor.unique {tree : FileTree} {path : String} {address : Option UInt16}
    {steps others : List BuildStep} (first : StepsFor tree path address steps)
    (second : StepsFor tree path address others) : steps = others := by
  have same := first.paths.unique second.paths
  cases steps with
  | nil =>
    rw [List.map_nil, eq_comm, List.map_eq_nil_iff] at same
    exact same.symm
  | cons step steps =>
    cases others with
    | nil => cases same
    | cons other others =>
      obtain ⟨path, paths⟩ := List.cons.inj same
      have address : step.address = other.address :=
        (first.first step rfl).trans (second.first other rfl).symm
      have here : step = other := by
        cases step
        cases other
        cases path
        cases address
        rfl
      have left : steps = _ := eq_map_of_floating first.floating
      have right : others = _ := eq_map_of_floating second.floating
      rw [here, left, right, paths]

theorem Group.right_unique_steps (tree : FileTree) (sources : String) :
    Relator.RightUnique (Group.Steps tree sources) := by
  rintro group steps others ⟨address, last, made⟩ ⟨other, same, remade⟩
  obtain rfl := last.unique same
  exact made.unique remade

section
variable {tree : FileTree} (path : String) (address : Option UInt16)

theorem steps_for_directory_steps {names : List String} (there : tree.isDirectory path = true)
    (holds : tree.FilesIn path names) :
    StepsFor tree path address (directorySteps path address names) := by
  have same := List.mergeSort_perm names fun left right => decide (left ≤ right)
  have sorted := FileTree.merge_sort_bytes_before holds.once
  have listed : tree.FilesIn path (names.mergeSort fun left right => decide (left ≤ right)) :=
    ⟨fun name => same.mem_iff.trans (holds.listed name), same.nodup_iff.mpr holds.once⟩
  have stands := Stands.directory there listed sorted
  unfold directorySteps
  generalize (names.mergeSort fun left right => decide (left ≤ right)) = ordered at stands
  cases ordered with
  | nil => exact ⟨stands, by simp, by simp⟩
  | cons first rest =>
    refine ⟨?_, by simp, by simp⟩
    rw [List.map_cons, List.map_map]
    exact stands

open FileTree (host run_bind)

variable (wellFormed : tree.WellFormed)
include wellFormed

theorem run_entry_steps (sources : String) (entry : ManifestEntry) :
    ∃ steps, (entrySteps host sources entry).run tree = (.ok steps, tree) ∧
      StepsFor tree (Path.join sources entry.name) entry.address steps := by
  have asked : (host.isDirectory (Path.join sources entry.name)).run tree =
      (tree.isDirectory (Path.join sources entry.name), tree) := rfl
  rw [entrySteps, run_bind, asked]
  cases there : tree.isDirectory (Path.join sources entry.name) with
  | false =>
    refine ⟨[⟨Path.join sources entry.name, entry.address⟩], rfl, .file there, ?_, ?_⟩
    · simp
    · simp
  | true =>
    obtain ⟨names, listed, holds⟩ := FileTree.exists_files_in wellFormed there
    have found : (host.fileNames (Path.join sources entry.name)).run tree = (.ok names, tree) := by
      rw [← listed]
      rfl
    refine ⟨_, ?_, steps_for_directory_steps _ _ there holds⟩
    rw [if_pos rfl, run_bind, found]
    rfl

theorem run_all_steps (sources : String) {groups : List Group} {entries : List ManifestEntry}
    (named : List.Forall₂ Group.Names groups entries)
    (below : ∀ group ∈ groups, Path.join sources (String.ofList group.word) =
      sources ++ "/" ++ String.ofList group.word) :
    ∃ blocks, (allSteps host sources entries).run tree = (.ok blocks.flatten, tree) ∧
      List.Forall₂ (Group.Steps tree sources) groups blocks := by
  induction named with
  | nil => exact ⟨[], rfl, .nil⟩
  | @cons group entry groups entries names _ induction =>
    obtain ⟨here, later⟩ := List.forall_mem_cons.mp below
    obtain ⟨steps, ran, stepsFor⟩ := run_entry_steps wellFormed sources entry
    obtain ⟨blocks, others, made⟩ := induction later
    rw [names.word, here] at stepsFor
    refine ⟨steps :: blocks, ?_, .cons ⟨entry.address, names.address, stepsFor⟩ made⟩
    rw [allSteps, run_bind, ran]
    dsimp only
    rw [run_bind, others]
    rfl

end

/-- The sources of a project lie below its source directory. -/
theorem join_sources (directory : String) {word : List Char} (relative : word.head? ≠ some '/') :
    Path.join (Path.join directory sourceDirectory) (String.ofList word) =
      Path.join directory sourceDirectory ++ "/" ++ String.ofList word := by
  have last : (Path.join directory sourceDirectory).toList.getLast? = some 'c' := by
    unfold Path.join sourceDirectory
    split_ifs <;> simp
  have nonempty : Path.join directory sourceDirectory ≠ "" := by
    intro empty
    rw [empty] at last
    cases last
  rw [Path.join, if_neg (by simp [nonempty, relative]), if_neg (by simp [last])]

/-- How words turn into steps: group by group, and addresses behind the last group are of no use. -/
structure Plan (tree : FileTree) (sources : String) (words : List (List Char)) where
  groups : List Group
  unused : List (List Char)
  blocks : List (List BuildStep)
  split : words = groups.flatMap Group.words ++ unused
  sound : ∀ group ∈ groups, group.IsSound
  given : ∀ word ∈ unused, ∃ address, GivesAddress word address
  made : List.Forall₂ (Group.Steps tree sources) groups blocks

open FileTree (host run_bind run_read_text?)

section
variable {tree : FileTree} {directory text : String}
  (readable : tree.text? (Path.join directory fileName) = some text)
include readable

theorem run_load_of_error {failure : Failure} (refused : parse text.toList = .error failure) :
    (load host directory).run tree = (.error failure, tree) := by
  rw [load, run_bind, run_read_text?, readable]
  dsimp only
  rw [refused]
  rfl

theorem run_load_of_ok {entries : List ManifestEntry} (parsed : parse text.toList = .ok entries) :
    (load host directory).run tree =
      (allSteps host (Path.join directory sourceDirectory) entries).run tree := by
  rw [load, run_bind, run_read_text?, readable]
  dsimp only
  rw [parsed]

end

/-- Groups of words make the steps of a project, however they were found. -/
theorem run_load_of_groups {tree : FileTree} (wellFormed : tree.WellFormed)
    {directory text : String} (readable : tree.text? (Path.join directory fileName) = some text)
    (relative : ∀ word ∈ Text.words text.toList, word.head? ≠ some '/')
    {groups : List Group} {unused : List (List Char)}
    (split : Text.words text.toList = groups.flatMap Group.words ++ unused)
    (isSound : ∀ group ∈ groups, group.IsSound)
    (given : ∀ word ∈ unused, ∃ address, GivesAddress word address) :
    ∃ blocks, (load host directory).run tree = (.ok blocks.flatten, tree) ∧
      List.Forall₂ (Group.Steps tree (Path.join directory sourceDirectory)) groups blocks := by
  obtain ⟨entries, read, named⟩ := entries_from_groups isSound given
  rw [← split] at read
  rw [run_load_of_ok readable read]
  apply run_all_steps wellFormed _ named
  intro group member
  apply join_sources
  apply relative
  rw [split]
  apply List.mem_append_left
  exact List.mem_flatMap.mpr ⟨group, member, by simp [Group.words]⟩

/-- The manifest of a project is refused for its first malformed address. Without one there is a plan,
and the steps are those of any plan: every word that names a source makes the steps of that source,
and the first of them takes the last address given in front of the word. -/
theorem load_assigns_addresses {tree : FileTree} (wellFormed : tree.WellFormed)
    {directory text : String} (readable : tree.text? (Path.join directory fileName) = some text)
    (relative : ∀ word ∈ Text.words text.toList, word.head? ≠ some '/') :
    Text.Separated text.toList (Text.words text.toList) ∧
    (∀ before word after, Text.words text.toList = before ++ word :: after →
      (∀ earlier ∈ before, ¬ Malformed earlier) → Malformed word →
      ((load host directory).run tree).1 = .error (.invalidAddress (String.ofList word))) ∧
    ((∀ word ∈ Text.words text.toList, ¬ Malformed word) →
      Nonempty (Plan tree (Path.join directory sourceDirectory) (Text.words text.toList))) ∧
    ∀ plan : Plan tree (Path.join directory sourceDirectory) (Text.words text.toList),
      ((load host directory).run tree).1 = .ok plan.blocks.flatten := by
  have steps := @run_load_of_groups tree wellFormed directory text readable relative
  refine ⟨Text.separated_words _, ?_, ?_, ?_⟩
  · intro before word after split sound malformed
    have refused := @entries_from_refused none before after word sound malformed
    rw [← split] at refused
    rw [run_load_of_error readable refused]
  · intro sound
    obtain ⟨groups, unused, split, isSound, given⟩ := exists_groups sound
    obtain ⟨blocks, -, made⟩ := steps split isSound given
    exact ⟨⟨groups, unused, blocks, split, isSound, given, made⟩⟩
  · intro plan
    obtain ⟨blocks, ran, made⟩ := steps plan.split plan.sound plan.given
    rw [ran, List.right_unique_forall₂' (Group.right_unique_steps _ _) made plan.made]

/-- A project with a directory of two files and a directory in it, an empty directory, and an address
with nothing behind it. -/
def libraryProject : FileTree :=
  ⟨[(["p", "build.zbld"], .file "0x100 0X+2000 lib\n 0xA none main.z80 0x30".toUTF8),
    (["p", "src", "lib", "b.z80"], .file "ret".toUTF8),
    (["p", "src", "lib", "a.z80"], .file "nop".toUTF8),
    (["p", "src", "lib", "inner", "c.z80"], .file "nop".toUTF8),
    (["p", "src", "none"], .directory)]⟩

theorem well_formed_library_project : libraryProject.WellFormed := by
  constructor
  · decide
  · decide

theorem files_in_lib : libraryProject.FilesIn "p/src/lib" ["a.z80", "b.z80"] := by
  refine ⟨fun name => ⟨?_, ?_⟩, by decide⟩
  · intro member
    rcases List.mem_pair.mp member with rfl | rfl
    · exact ⟨by decide, by decide⟩
    · exact ⟨by decide, by decide⟩
  · rintro ⟨isName, file⟩
    have located : libraryProject.locate "p/src/lib" = .ok ["p", "src", "lib"] := rfl
    have listed := FileTree.mem_names_in_of_is_file isName located rfl file
    have names : libraryProject.namesIn ["p", "src", "lib"] = ["b.z80", "a.z80"] := rfl
    rw [names] at listed
    simpa [or_comm] using listed

theorem files_in_none : libraryProject.FilesIn "p/src/none" [] := by
  refine ⟨fun name => ⟨by simp, ?_⟩, .nil⟩
  rintro ⟨isName, file⟩
  have located : libraryProject.locate "p/src/none" = .ok ["p", "src", "none"] := rfl
  exact FileTree.mem_names_in_of_is_file isName located rfl file

theorem gives_address_library :
    GivesAddress "0x100".toList 0x100 ∧ GivesAddress "0X+2000".toList 0x2000 ∧
      GivesAddress "0xA".toList 0xA ∧ GivesAddress "0x30".toList 0x30 :=
  ⟨(gives_address_iff rfl).mpr rfl, (gives_address_iff rfl).mpr rfl, (gives_address_iff rfl).mpr rfl,
    (gives_address_iff rfl).mpr rfl⟩

def libraryPlan : Plan libraryProject "p/src"
    (["0x100", "0X+2000", "lib", "0xA", "none", "main.z80", "0x30"].map String.toList) where
  groups := [⟨["0x100".toList, "0X+2000".toList], "lib".toList⟩, ⟨["0xA".toList], "none".toList⟩,
    ⟨[], "main.z80".toList⟩]
  unused := ["0x30".toList]
  blocks := [[⟨"p/src/lib/a.z80", some 0x2000⟩, ⟨"p/src/lib/b.z80", none⟩], [],
    [⟨"p/src/main.z80", none⟩]]
  split := rfl
  sound := by
    obtain ⟨first, second, third, -⟩ := gives_address_library
    refine List.forall_mem_cons.mpr ⟨⟨?_, by decide⟩,
      List.forall_mem_cons.mpr ⟨⟨?_, by decide⟩, List.forall_mem_singleton.mpr ⟨by simp, by decide⟩⟩⟩
    · exact List.forall_mem_cons.mpr ⟨⟨_, first⟩, List.forall_mem_singleton.mpr ⟨_, second⟩⟩
    · exact List.forall_mem_singleton.mpr ⟨_, third⟩
  given := by
    intro word member
    rw [List.mem_singleton.mp member]
    exact ⟨_, gives_address_library.2.2.2⟩
  made := by
    obtain ⟨-, second, third, -⟩ := gives_address_library
    refine .cons ⟨some 0x2000, .given rfl second, .directory rfl files_in_lib ?_, ?_, ?_⟩
      (.cons ⟨some 0xA, .given rfl third, .directory rfl files_in_none .nil, ?_, ?_⟩
      (.cons ⟨none, .nothing, .file rfl, ?_, ?_⟩ .nil))
    · exact List.pairwise_pair.mpr (Text.bytes_before (by decide))
    all_goals simp

theorem load_assigns_addresses_library :
    libraryProject.WellFormed ∧
    libraryProject.text? "p/build.zbld" = some "0x100 0X+2000 lib\n 0xA none main.z80 0x30" ∧
    ((load host "p").run libraryProject).1 =
      .ok [⟨"p/src/lib/a.z80", some 0x2000⟩, ⟨"p/src/lib/b.z80", none⟩, ⟨"p/src/main.z80", none⟩] := by
  have readable : libraryProject.text? (Path.join "p" fileName) =
      some "0x100 0X+2000 lib\n 0xA none main.z80 0x30" := FileTree.text?_of_read rfl
  obtain ⟨-, -, -, planned⟩ := load_assigns_addresses well_formed_library_project readable (by decide)
  exact ⟨well_formed_library_project, readable, planned libraryPlan⟩

end Z80Toolchain.Manifest
