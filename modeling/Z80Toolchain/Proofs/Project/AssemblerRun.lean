import Mathlib.Data.List.Chain
import Z80Toolchain.Program.Assembler
import Z80Toolchain.Proofs.Assembly.Layout
import Z80Toolchain.Proofs.Project.FileWrites
import Z80Toolchain.Proofs.Project.Linking
import Z80Toolchain.Proofs.Roundtrip

/-!
A run of the assembler on a file tree. It succeeds if every source can be read and is free of errors
at the address where it is placed, and if no source starts in front of the end of the one before it.
The image then holds each source where it was assembled, and no other file is changed. Otherwise no
file is touched. Only sources with a line of about 2 GiB can be too long for the image.
-/
namespace Z80Toolchain

/-! ### Sources at their addresses -/

/-- A source with its text, and the address that it is assembled at. -/
structure PlacedSource where
  path : String
  origin : UInt16
  text : String
deriving DecidableEq, Repr

namespace PlacedSource

def assembly (placed : PlacedSource) : Assembly :=
  assemble placed.origin placed.text.toList

def block (placed : PlacedSource) : Block :=
  ⟨placed.origin.toNat, placed.assembly.code.toList⟩

def segment (placed : PlacedSource) : Segment :=
  ⟨placed.path, some placed.origin, placed.assembly.code.toList⟩

theorem stop_block_le {placed : PlacedSource} (modest : placed.assembly.IsModest) :
    placed.block.stop ≤ Address.space := by
  have fits := assemble_fits modest
  rwa [← Array.length_toList] at fits

def listed (path : String) (origin : UInt16) (bytes : List UInt8) : PlacedSource :=
  ⟨path, origin, listingText (disassemble bytes)⟩

theorem modest_of_short {placed : PlacedSource} (short : placed.block.bytes.length < Line.vast) :
    placed.assembly.IsModest := by
  intro line member
  have inside := (assemble_tile placed.origin placed.text.toList).stop_le line member
  have size : placed.block.bytes.length = placed.assembly.code.size := Array.length_toList
  exact Nat.lt_of_le_of_lt (Nat.le_trans (Nat.sub_le _ _) inside) (size ▸ short)

theorem block_listed (path : String) {origin : UInt16} {bytes : List UInt8}
    (fits : origin.toNat + bytes.length ≤ Address.space) :
    (listed path origin bytes).assembly.diagnostics = [] ∧
      (listed path origin bytes).block = ⟨origin.toNat, bytes⟩ := by
  obtain ⟨clean, code, -⟩ := assemble_listing (disassemble_from_tiles 0 bytes) fits
  exact ⟨clean, congrArg (Block.mk _) code⟩

end PlacedSource

structure SourceFile.IsPlaced (source : SourceFile) (next : Nat) (placed : PlacedSource) : Prop where
  named : placed.path = source.path
  readable : source.text = some placed.text
  starts : placed.origin.toNat = source.address.elim next UInt16.toNat

/-- All sources are placed, those without an address where the one before them ends. -/
inductive Places : Nat → List SourceFile → List PlacedSource → Prop
  | nil (next : Nat) : Places next [] []
  | cons {next : Nat} {source : SourceFile} {placed : PlacedSource} {sources : List SourceFile}
      {others : List PlacedSource} (here : source.IsPlaced next placed)
      (later : Places placed.block.stop sources others) :
      Places next (source :: sources) (placed :: others)

theorem SourceFile.IsPlaced.unique {source : SourceFile} {next : Nat} {left right : PlacedSource}
    (first : source.IsPlaced next left) (second : source.IsPlaced next right) : left = right := by
  obtain ⟨path, origin, text⟩ := left
  obtain ⟨otherPath, otherOrigin, otherText⟩ := right
  obtain rfl : path = otherPath := first.named.trans second.named.symm
  obtain rfl : text = otherText := Option.some.inj (first.readable.symm.trans second.readable)
  obtain rfl : origin = otherOrigin := UInt16.toNat_inj.mp (first.starts.trans second.starts.symm)
  rfl

theorem Places.unique {next : Nat} {sources : List SourceFile} {left right : List PlacedSource}
    (first : Places next sources left) (second : Places next sources right) : left = right := by
  induction first generalizing right with
  | nil => cases second; rfl
  | cons here _ induction =>
    cases second with
    | cons there later =>
      obtain rfl := here.unique there
      rw [induction later]

/-- No source that a build gets to has a line whose end could count as negative. -/
def Modest : Nat → List SourceFile → Prop
  | _, [] => True
  | next, source :: rest => ∀ placed, source.IsPlaced next placed →
    placed.assembly.IsModest ∧ Modest placed.block.stop rest

theorem Places.modest_iff {next : Nat} {sources : List SourceFile} {placed : List PlacedSource}
    (places : Places next sources placed) :
    Modest next sources ↔ ∀ source ∈ placed, source.assembly.IsModest := by
  induction places with
  | nil => simp [Modest]
  | cons here later induction =>
    rw [List.forall_mem_cons, ← induction]
    constructor
    · exact fun modest => modest _ here
    · intro both other found
      obtain rfl := here.unique found
      exact both

theorem Assembly.succeeded_iff {assembly : Assembly} :
    assembly.succeeded = true ↔ assembly.diagnostics = [] :=
  List.isEmpty_iff

/-- Sources without errors, none of which starts in front of the end of the one before it. -/
structure Linkable (placed : List PlacedSource) : Prop where
  clean : ∀ source ∈ placed, source.assembly.succeeded
  apart : placed.IsChain fun left right => left.block.stop ≤ right.block.start

/-! ### Assembling -/

namespace Build

theorem origin_of?_eq_some {build : Build} {source : SourceFile} {origin : UInt16} :
    build.originOf? source = some origin ↔
      origin.toNat = source.address.elim build.next UInt16.toNat := by
  unfold originOf?
  cases source.address with
  | some address =>
    rw [Option.some_inj, ← UInt16.toNat_inj]
    exact eq_comm
  | none =>
    have bound := origin.toNat_lt
    dsimp only [Option.elim]
    split
    · next room =>
      rw [Option.some_inj, ← UInt16.toNat_inj, UInt16.toNat_ofNat_of_lt' room]
      exact eq_comm
    · next full =>
      simp only [Address.space] at full
      constructor
      · intro found
        cases found
      · omega

variable (choice : ListingChoice) (build : Build)

/-- One placed source. -/
theorem add_source_of_is_placed {source : SourceFile} {placed : PlacedSource}
    (here : source.IsPlaced build.next placed) (modest : placed.assembly.IsModest) :
    ∃ after, addSource choice build source = (after, none) ∧
      after.segments = build.segments ++ [placed.segment] ∧
      after.faults = build.faults + placed.assembly.diagnostics.length ∧
      after.next = placed.block.stop := by
  obtain ⟨named, readable, starts⟩ := here
  have origin := origin_of?_eq_some.mpr starts
  simp only [addSource, readable, origin]
  refine ⟨_, rfl, ?_, rfl, ?_⟩
  · rw [PlacedSource.segment, named]
    rfl
  · have fits := PlacedSource.stop_block_le modest
    have stop : placed.block.stop = placed.origin.toNat + placed.assembly.code.size := by
      rw [Block.stop, PlacedSource.block, Array.length_toList]
    simp only [Address.space] at fits
    change (placed.origin.toNat + placed.assembly.code.size) % 4294967296 = placed.block.stop
    rw [stop] at fits ⊢
    exact Nat.mod_eq_of_lt (by omega)

/-- A source that cannot be placed ends the build. -/
theorem exists_is_placed (source : SourceFile) :
    (∃ placed, source.IsPlaced build.next placed) ∨
      ∃ stopped failure, addSource choice build source = (stopped, some failure) := by
  unfold addSource
  dsimp only
  cases readable : source.text with
  | none => exact .inr ⟨_, _, rfl⟩
  | some text =>
    dsimp only
    cases origin : build.originOf? source with
    | none => exact .inr ⟨_, _, rfl⟩
    | some address =>
      exact .inl ⟨⟨source.path, address, text⟩, rfl, readable, origin_of?_eq_some.mp origin⟩

theorem add_sources_of_places {sources : List SourceFile} {placed : List PlacedSource}
    (places : Places build.next sources placed) (modest : Modest build.next sources) :
    ∃ final, addSources choice build sources =
        (final, if final.faults = 0 then none else some (.faultySources final.faults)) ∧
      final.segments = build.segments ++ placed.map PlacedSource.segment ∧
      (final.faults = 0 ↔
        build.faults = 0 ∧ ∀ source ∈ placed, source.assembly.succeeded) := by
  generalize start : build.next = next at places modest
  induction places generalizing build with
  | nil next => exact ⟨build, rfl, by simp, by simp⟩
  | cons here later induction =>
    obtain ⟨short, others⟩ := modest _ here
    obtain ⟨after, added, segments, faults, stop⟩ :=
      build.add_source_of_is_placed choice (start ▸ here) short
    obtain ⟨final, done, whole, clean⟩ := induction after stop others
    refine ⟨final, ?_, ?_, ?_⟩
    · rw [addSources, added]
      exact done
    · rw [whole, segments, List.append_assoc, List.map_cons, List.singleton_append]
    · rw [clean, faults, Nat.add_eq_zero_iff, List.length_eq_zero_iff, ← Assembly.succeeded_iff,
        List.forall_mem_cons, and_assoc]

theorem add_sources_stops {sources : List SourceFile} (modest : Modest build.next sources)
    (unplaced : ∀ placed, ¬ Places build.next sources placed) :
    ∃ stopped failure, addSources choice build sources = (stopped, some failure) := by
  induction sources generalizing build with
  | nil => exact absurd (.nil _) (unplaced [])
  | cons source sources induction =>
    rcases build.exists_is_placed choice source with ⟨placed, here⟩ | ⟨stopped, failure, ended⟩
    · obtain ⟨short, others⟩ := modest _ here
      obtain ⟨after, added, -, -, stop⟩ := build.add_source_of_is_placed choice here short
      have later : ∀ others, ¬ Places after.next sources others :=
        fun others places => unplaced (placed :: others) (.cons here (stop ▸ places))
      obtain ⟨stopped, failure, ended⟩ := induction after (stop ▸ others) later
      refine ⟨stopped, failure, ?_⟩
      rw [addSources, added]
      exact ended
    · refine ⟨stopped, failure, ?_⟩
      rw [addSources, ended]

/-- A build gets to its end with the segments of placed sources that are free of errors, or there are
no such sources. -/
theorem add_sources_cases (text : String) {origin : UInt16} {sources : List SourceFile}
    (modest : Modest origin.toNat sources) :
    (∃ build placed, addSources choice (.start text origin) sources = (build, none) ∧
        Places origin.toNat sources placed ∧
        (∀ source ∈ placed, source.assembly.succeeded) ∧
        build.segments = placed.map PlacedSource.segment) ∨
      ∃ build failure, addSources choice (.start text origin) sources = (build, some failure) ∧
        ∀ placed, Places origin.toNat sources placed → ¬ Linkable placed := by
  by_cases placeable : ∃ placed, Places origin.toNat sources placed
  · obtain ⟨placed, places⟩ := placeable
    obtain ⟨final, done, segments, clean⟩ := add_sources_of_places choice (.start text origin) places modest
    by_cases sound : final.faults = 0
    · rw [if_pos sound] at done
      exact .inl ⟨final, placed, done, places, (clean.mp sound).2, segments⟩
    · rw [if_neg sound] at done
      refine .inr ⟨final, _, done, ?_⟩
      intro other found linkable
      obtain rfl := places.unique found
      exact sound (clean.mpr ⟨rfl, linkable.clean⟩)
  · rw [not_exists] at placeable
    obtain ⟨stopped, failure, ended⟩ := add_sources_stops choice (.start text origin) modest placeable
    exact .inr ⟨stopped, failure, ended, fun placed places => absurd places (placeable placed)⟩

end Build

/-! ### Linking -/

theorem Segment.blocks_placed (stop : Nat) (placed : List PlacedSource) :
    blocks stop (placed.map PlacedSource.segment) = placed.map PlacedSource.block := by
  induction placed generalizing stop with
  | nil => rfl
  | cons source placed induction => exact congrArg (source.block :: ·) (induction _)

theorem Block.in_order_placed (first : PlacedSource) (rest : List PlacedSource) :
    InOrder first.block.start ((first :: rest).map PlacedSource.block) ↔
      (first :: rest).IsChain fun left right => left.block.stop ≤ right.block.start := by
  induction rest generalizing first with
  | nil => simp [InOrder]
  | cons second rest induction =>
    rw [List.isChain_cons_cons, ← induction second]
    simp [InOrder]

theorem Segment.stop_blocks_placed (stop : Nat) {placed : List PlacedSource}
    (modest : ∀ source ∈ placed, source.assembly.IsModest) :
    ∀ block ∈ blocks stop (placed.map PlacedSource.segment), block.stop ≤ Address.space := by
  rw [blocks_placed]
  exact List.forall_mem_map.mpr fun source member => PlacedSource.stop_block_le (modest source member)

namespace Image

section

variable {placed : List PlacedSource} (modest : ∀ source ∈ placed, source.assembly.IsModest)

include modest

/-- Placed sources that follow one another are laid out from the first one on. -/
theorem link_of_apart
    (apart : placed.IsChain fun left right => left.block.stop ≤ right.block.start) :
    ∃ image, link (placed.map PlacedSource.segment) = .ok image ∧
      ∀ first ∈ placed.head?,
        Lays first.origin.toNat (placed.map PlacedSource.block) image.bytes := by
  cases placed with
  | nil => exact ⟨⟨0, []⟩, rfl, by simp⟩
  | cons first rest =>
    have ordered := (Block.in_order_placed first rest).mpr apart
    rw [← Segment.blocks_placed first.block.start] at ordered
    obtain ⟨image, linked, -, lays⟩ := @fold_add ⟨first.origin, []⟩ _ [] (lays_nil _) ordered
      (Segment.stop_blocks_placed _ modest)
    rw [List.nil_append, Segment.blocks_placed] at lays
    refine ⟨image, linked, ?_⟩
    intro other head
    cases head
    exact lays

theorem link_of_overlap
    (overlaps : ¬ placed.IsChain fun left right => left.block.stop ≤ right.block.start) :
    ∃ name start stop,
      link (placed.map PlacedSource.segment) = .error (.overlap name start stop) := by
  cases placed with
  | nil => exact absurd .nil overlaps
  | cons first rest =>
    rw [← Block.in_order_placed, ← Segment.blocks_placed first.block.start] at overlaps
    exact @fold_add_overlap ⟨first.origin, []⟩ _ overlaps (Segment.stop_blocks_placed _ modest)

end

/-- The sources of a build never overflow the image, since each was assembled below the end of
memory. -/
theorem overlap_of_link_error {choice : ListingChoice} {text : String} {origin : UInt16}
    {sources : List SourceFile} {build : Build} {failure : Failure}
    (modest : Modest origin.toNat sources)
    (built : Build.addSources choice (.start text origin) sources = (build, none))
    (refused : link build.segments = .error failure) :
    ∃ name start stop, failure = .overlap name start stop := by
  rcases Build.add_sources_cases choice text modest with
    ⟨final, placed, done, places, -, segments⟩ | ⟨stopped, cause, ended, -⟩
  · have short := places.modest_iff.mp modest
    rw [built] at done
    cases done
    rw [segments] at refused
    by_cases apart : placed.IsChain fun left right => left.block.stop ≤ right.block.start
    · obtain ⟨image, linked, -⟩ := link_of_apart short apart
      rw [linked] at refused
      cases refused
    · obtain ⟨name, start, stop, overlap⟩ := link_of_overlap short apart
      rw [overlap] at refused
      cases refused
      exact ⟨name, start, stop, rfl⟩
  · rw [built] at ended
    cases ended

end Image

/-! ### Running -/

namespace Assembler

/-- What is made from sources: an image with every source in its place, or nothing. -/
theorem make_cases {options : Options} {sources : List SourceFile}
    (modest : Modest options.origin.toNat sources) :
    (∃ product placed, make options sources = .ok product ∧
        Places options.origin.toNat sources placed ∧ Linkable placed ∧
        ∀ first ∈ placed.head?,
          Lays first.origin.toNat (placed.map PlacedSource.block) product.image.bytes) ∨
      ∃ output failure, make options sources = .error (output, failure) ∧
        ∀ placed, Places options.origin.toNat sources placed → ¬ Linkable placed := by
  unfold make
  rcases Build.add_sources_cases options.choice (banner ++ "1. Read Files and Assemble\n") modest with
    ⟨build, placed, done, places, clean, segments⟩ | ⟨build, failure, ended, broken⟩
  · have short := places.modest_iff.mp modest
    simp only [done, Build.say, segments]
    by_cases apart : placed.IsChain fun left right => left.block.stop ≤ right.block.start
    · obtain ⟨image, linked, lays⟩ := Image.link_of_apart short apart
      simp only [linked]
      exact .inl ⟨_, placed, rfl, places, ⟨clean, apart⟩, lays⟩
    · obtain ⟨name, start, stop, overlap⟩ := Image.link_of_overlap short apart
      simp only [overlap]
      refine .inr ⟨_, _, rfl, ?_⟩
      intro other found linkable
      obtain rfl := places.unique found
      exact apart linkable.apart
  · simp only [ended]
    exact .inr ⟨_, _, rfl, broken⟩

end Assembler

def FileTree.source (tree : FileTree) (step : BuildStep) : SourceFile :=
  ⟨step.path, step.address, tree.text? step.path⟩

namespace Assembler

open FileTree (host run_bind run_read_text? run_write)

theorem run_read_sources (tree : FileTree) (steps : List BuildStep) :
    (steps.mapM (readSource host)).run tree = (steps.map tree.source, tree) := by
  induction steps with
  | nil => rfl
  | cons step steps induction =>
    have here : (readSource host step).run tree = (tree.source step, tree) := by
      rw [readSource, run_bind, run_read_text?]
      rfl
    rw [List.mapM_cons, run_bind, here, run_bind, induction]
    rfl

theorem read_only_find_steps (options : Options) : FileTree.ReadOnly (findSteps host options) := by
  unfold findSteps
  split
  · exact FileTree.read_only_load _
  · exact FileTree.read_only_pure _

/-- A run is what is made of its sources, and then written. -/
theorem run_of_steps {options : Options} {tree : FileTree} {steps : List BuildStep}
    (found : ((findSteps host options).run tree).1 = .ok steps) :
    (runOptions host options).run tree =
      match make options (steps.map tree.source) with
      | .error (output, failure) => (failed output failure, tree)
      | .ok product => (writeProduct host options product).run tree := by
  rw [runOptions, run_bind, read_only_find_steps, found]
  show (steps.mapM (readSource host) >>= _).run tree = _
  rw [run_bind, run_read_sources]
  cases make options (steps.map tree.source) <;> rfl

/-- The files of a run can be written, and they are not the same file. -/
structure Options.Writable (options : Options) (tree : FileTree) : Prop where
  output : tree.CanWrite options.output
  symbols : ∀ path ∈ options.symbols,
    tree.CanWrite path ∧ tree.locate path ≠ tree.locate options.output

/-- The files that a run is asked to write. -/
def Options.targets (options : Options) : List String :=
  options.output :: options.symbols.toList

/-- The tree after a run that wrote its files. -/
structure Written (options : Options) (tree : FileTree) (image : List UInt8) (after : FileTree) :
    Prop where
  image : after.read options.output = .ok ⟨image.toArray⟩
  only : ∀ changed ∈ after.changedFrom tree, changed ∈ tree.changedFrom tree ∨
    ∃ path ∈ options.targets, tree.locate path = .ok changed.1

/-- Where the files can be written, they are, and the run succeeds. -/
theorem run_write_product {options : Options} {tree : FileTree} (product : Product)
    (writable : options.Writable tree) :
    ((writeProduct host options product).run tree).1.exitCode = 0 ∧
      Written options tree product.image.bytes ((writeProduct host options product).run tree).2 := by
  obtain ⟨after, written, wrote⟩ := FileTree.exists_wrote writable.output ⟨product.image.bytes.toArray⟩
  have first : ∀ changed ∈ after.changedFrom tree, changed ∈ tree.changedFrom tree ∨
      ∃ path ∈ options.targets, tree.locate path = .ok changed.1 := by
    intro changed member
    rcases wrote.only tree changed member with here | old
    · exact .inr ⟨options.output, List.mem_cons_self, here⟩
    · exact .inl old
  rw [writeProduct, run_bind, run_write written]
  unfold writeSymbols
  dsimp only
  cases wanted : options.symbols with
  | none => exact ⟨rfl, wrote.written, first⟩
  | some path =>
    obtain ⟨canWrite, apart⟩ := writable.symbols path wanted
    obtain ⟨final, named, kept⟩ :=
      FileTree.exists_wrote (wrote.writable path canWrite) product.build.symbols.yaml.toUTF8
    -- Both paths lead where they led before the first write.
    obtain ⟨place, located, -⟩ := writable.output
    obtain ⟨other, found, -⟩ := canWrite
    have still := wrote.located _ _ found
    dsimp only
    rw [run_bind, run_write named]
    refine ⟨rfl, kept.kept options.output _ wrote.written ?_, ?_⟩
    · rw [wrote.located _ _ located, still]
      rw [located, found] at apart
      exact apart.symm
    · intro changed member
      rcases kept.only tree changed member with here | old
      · rw [still, ← found] at here
        exact .inr ⟨path, by simp [Options.targets, wanted], here⟩
      · exact first changed old

/-- A run writes its files or leaves the tree alone. -/
theorem run_written_or_failed {options : Options} {tree : FileTree} {steps : List BuildStep}
    (found : ((findSteps host options).run tree).1 = .ok steps)
    (writable : options.Writable tree) :
    (∃ product, make options (steps.map tree.source) = .ok product ∧
        ((runOptions host options).run tree).1.exitCode = 0 ∧
        Written options tree product.image.bytes ((runOptions host options).run tree).2) ∨
      ∃ reason, make options (steps.map tree.source) = .error reason ∧
        ((runOptions host options).run tree).1.exitCode ≠ 0 ∧
        ((runOptions host options).run tree).2 = tree := by
  rw [run_of_steps found]
  cases made : make options (steps.map tree.source) with
  | ok product =>
    obtain ⟨success, written⟩ := run_write_product product writable
    exact .inl ⟨product, rfl, success, written⟩
  | error reason =>
    refine .inr ⟨reason, rfl, ?_, rfl⟩
    intro success
    cases success

/-- What a run comes to where its files can be written: an image of its sources, or nothing at all. -/
theorem run_cases {options : Options} {tree : FileTree} {steps : List BuildStep}
    (found : ((findSteps host options).run tree).1 = .ok steps)
    (writable : options.Writable tree)
    (modest : Modest options.origin.toNat (steps.map tree.source)) :
    (∃ placed image, Places options.origin.toNat (steps.map tree.source) placed ∧ Linkable placed ∧
        ((runOptions host options).run tree).1.exitCode = 0 ∧
        ((runOptions host options).run tree).2.read options.output = .ok image ∧
        ∀ first ∈ placed.head?,
          Lays first.origin.toNat (placed.map PlacedSource.block) image.data.toList) ∨
      ((runOptions host options).run tree).1.exitCode ≠ 0 ∧
        ∀ placed, Places options.origin.toNat (steps.map tree.source) placed → ¬ Linkable placed := by
  rcases make_cases modest with
    ⟨product, placed, made, places, linkable, lays⟩ | ⟨output, failure, refused, broken⟩
  · rcases run_written_or_failed found writable with
      ⟨other, same, success, written⟩ | ⟨reason, failed, -⟩
    · rw [made] at same
      cases same
      exact .inl ⟨placed, _, places, linkable, success, written.image, lays⟩
    · rw [made] at failed
      cases failed
  · rcases run_written_or_failed found writable with
      ⟨other, made, -⟩ | ⟨reason, -, failed, -⟩
    · rw [refused] at made
      cases made
    · exact .inr ⟨failed, broken⟩

def gapProject : FileTree :=
  ⟨[(["p", "build.zbld"], .file "0x100 a.z80 0x104 b.z80".toUTF8),
    (["p", "src", "a.z80"], .file (listingText (disassemble [0x00])).toUTF8),
    (["p", "src", "b.z80"], .file (listingText (disassemble [0xC9])).toUTF8)]⟩

def gapOptions : Options :=
  ⟨["main.z80"], "p/main.bin", 0, some "p", some "p/main.yaml", ⟨false, false⟩⟩

def gapSteps : List BuildStep :=
  [⟨"p/src/a.z80", some 0x100⟩, ⟨"p/src/b.z80", some 0x104⟩]

theorem find_steps_gap : ((findSteps host gapOptions).run gapProject).1 = .ok gapSteps := by
  have manifest : gapProject.text? (Path.join "p" Manifest.fileName) =
      some "0x100 a.z80 0x104 b.z80" := FileTree.text?_of_read rfl
  show ((Manifest.load host "p").run gapProject).1 = _
  rw [Manifest.load, run_bind, run_read_text?, manifest]
  rfl

theorem places_gap : Places gapOptions.origin.toNat (gapSteps.map gapProject.source)
    [.listed "p/src/a.z80" 0x100 [0x00], .listed "p/src/b.z80" 0x104 [0xC9]] := by
  have first : gapProject.text? "p/src/a.z80" = some (listingText (disassemble [0x00])) :=
    FileTree.text?_of_read rfl
  have second : gapProject.text? "p/src/b.z80" = some (listingText (disassemble [0xC9])) :=
    FileTree.text?_of_read rfl
  exact .cons ⟨rfl, first, rfl⟩ (.cons ⟨rfl, second, rfl⟩ (.nil _))

theorem writable_gap : gapOptions.Writable gapProject := by
  have output : gapProject.locate "p/main.bin" = .ok ["p", "main.bin"] := rfl
  have symbols : gapProject.locate "p/main.yaml" = .ok ["p", "main.yaml"] := rfl
  constructor
  · exact ⟨_, output, rfl⟩
  · intro path wanted
    cases wanted
    exact ⟨⟨_, symbols, rfl⟩, by simp [gapOptions, output, symbols]⟩

end Assembler

end Z80Toolchain
