import Z80Toolchain.Project.Image
import Z80Toolchain.Proofs.Assembly.Encodings

/-!
Linking as a layout of blocks. Each segment becomes a block at its address, or behind the block before
it. An image that could be linked holds every block at its place and zeros between them, and it ends
where the last block ends. The image is carried from segment to segment, with the blocks laid so far.
-/
namespace Z80Toolchain

/-! ### Blocks -/

structure Block where
  start : Nat
  bytes : List UInt8
deriving DecidableEq, Repr

namespace Block

def stop (block : Block) : Nat :=
  block.start + block.bytes.length

def Covers (block : Block) (address : Nat) : Prop :=
  block.start ≤ address ∧ address < block.stop

/-- No block starts below the stop of the one before it. -/
def InOrder : Nat → List Block → Prop
  | _, [] => True
  | stop, block :: rest => stop ≤ block.start ∧ InOrder block.stop rest

end Block

/-- Bytes from a base address on that hold the blocks, zeros elsewhere, and nothing behind the last
block. -/
structure Lays (base : Nat) (blocks : List Block) (bytes : List UInt8) : Prop where
  size : base + bytes.length = (blocks.map Block.stop).getLastD base
  held : ∀ block ∈ blocks, base ≤ block.start ∧ StandsAt bytes (block.start - base) block.bytes
  zero : ∀ index < bytes.length, (∀ block ∈ blocks, ¬ block.Covers (base + index)) →
    bytes[index]? = some 0

theorem lays_nil (base : Nat) : Lays base [] [] :=
  ⟨rfl, by simp, by simp⟩

/-- One more block, behind a gap of zeros. -/
theorem Lays.append {base : Nat} {blocks : List Block} {bytes : List UInt8}
    (lays : Lays base blocks bytes) {block : Block} (behind : base + bytes.length ≤ block.start) :
    Lays base (blocks ++ [block])
      (bytes ++ (List.replicate (block.start - (base + bytes.length)) 0 ++ block.bytes)) where
  size := by
    rw [List.map_append, List.map_singleton, List.getLastD_concat, Block.stop]
    simp only [List.length_append, List.length_replicate]
    omega
  held := by
    rw [List.forall_mem_append]
    constructor
    · intro other member
      obtain ⟨above, stands⟩ := lays.held other member
      exact ⟨above, stands.append_right _⟩
    · intro other member
      obtain rfl := List.mem_singleton.mp member
      refine ⟨by omega, ?_⟩
      have stands := stands_at_append
        (bytes ++ List.replicate (other.start - (base + bytes.length)) 0) other.bytes
      rw [List.length_append, List.length_replicate, List.append_assoc] at stands
      have place : bytes.length + (other.start - (base + bytes.length)) = other.start - base := by
        omega
      rwa [place] at stands
  zero := by
    intro index bound free
    rw [List.forall_mem_append] at free
    by_cases old : index < bytes.length
    · rw [List.getElem?_append_left old]
      exact lays.zero index old free.1
    · have outside := free.2 block (List.mem_singleton.mpr rfl)
      simp only [Block.Covers, Block.stop, List.length_append, List.length_replicate] at outside bound
      rw [List.getElem?_append_right (by omega), List.getElem?_append_left (by simp; omega),
        List.getElem?_replicate, if_pos (by omega)]

/-! ### Segments -/

namespace Segment

def block (segment : Segment) (stop : Nat) : Block :=
  ⟨segment.address.elim stop UInt16.toNat, segment.bytes⟩

def blocks (stop : Nat) : List Segment → List Block
  | [] => []
  | segment :: rest => segment.block stop :: blocks (segment.block stop).stop rest

end Segment

namespace Image

def extended (image : Image) (block : Block) : Image :=
  { image with bytes := image.bytes ++
      (List.replicate (block.start - image.stop) 0 ++ block.bytes) }

theorem stop_extended {image : Image} {block : Block} (behind : image.stop ≤ block.start) :
    (image.extended block).stop = block.stop := by
  simp only [stop, extended, Block.stop, List.length_append, List.length_replicate] at behind ⊢
  omega

variable {image : Image} {segment : Segment}

theorem start_of_le (behind : image.stop ≤ (segment.block image.stop).start) :
    image.startOf segment = .ok (segment.block image.stop).start := by
  unfold startOf
  unfold Segment.block at *
  cases bound : segment.address with
  | none => rfl
  | some address =>
    rw [bound] at behind
    exact if_neg (Nat.not_lt.mpr behind)

/-- Only a segment with an address can start too early. -/
theorem start_of_lt (early : (segment.block image.stop).start < image.stop) :
    ∃ address, image.startOf segment = .error (.overlap segment.name address image.stop) := by
  unfold startOf
  unfold Segment.block at early
  cases bound : segment.address with
  | none =>
    rw [bound] at early
    exact absurd early (Nat.lt_irrefl _)
  | some address =>
    rw [bound] at early
    exact ⟨address, if_pos early⟩

theorem add_of_fits (behind : image.stop ≤ (segment.block image.stop).start)
    (fits : (segment.block image.stop).stop ≤ Address.space) :
    image.add segment = .ok (image.extended (segment.block image.stop)) := by
  rw [add, start_of_le behind]
  exact if_neg (Nat.not_lt.mpr fits)

theorem add_of_lt (early : (segment.block image.stop).start < image.stop) :
    ∃ address, image.add segment = .error (.overlap segment.name address image.stop) := by
  obtain ⟨address, refused⟩ := start_of_lt early
  refine ⟨address, ?_⟩
  rw [add, refused]
  rfl

variable {segments : List Segment}

/-- Segments that follow one another can be added, and each becomes its block. -/
theorem fold_add {laid : List Block} (lays : Lays image.base.toNat laid image.bytes)
    (ordered : Block.InOrder image.stop (Segment.blocks image.stop segments))
    (fits : ∀ block ∈ Segment.blocks image.stop segments, block.stop ≤ Address.space) :
    ∃ final, segments.foldlM add image = .ok final ∧ final.base = image.base ∧
      Lays image.base.toNat (laid ++ Segment.blocks image.stop segments) final.bytes := by
  induction segments generalizing image laid with
  | nil =>
    refine ⟨image, rfl, rfl, ?_⟩
    rwa [Segment.blocks, List.append_nil]
  | cons segment segments induction =>
    obtain ⟨behind, later⟩ := ordered
    obtain ⟨here, others⟩ := List.forall_mem_cons.mp fits
    have moved := stop_extended behind
    rw [← moved] at later others
    obtain ⟨final, linked, base, whole⟩ := induction (lays.append behind) later others
    refine ⟨final, ?_, base, ?_⟩
    · rw [List.foldlM_cons, add_of_fits behind here]
      exact linked
    · rw [moved, List.append_assoc, List.singleton_append] at whole
      exact whole

/-- Below the end of memory, segments that do not follow one another are refused for that reason. -/
theorem fold_add_overlap
    (overlaps : ¬ Block.InOrder image.stop (Segment.blocks image.stop segments))
    (fits : ∀ block ∈ Segment.blocks image.stop segments, block.stop ≤ Address.space) :
    ∃ name start stop, segments.foldlM add image = .error (.overlap name start stop) := by
  induction segments generalizing image with
  | nil => exact absurd trivial overlaps
  | cons segment segments induction =>
    obtain ⟨here, others⟩ := List.forall_mem_cons.mp fits
    by_cases behind : image.stop ≤ (segment.block image.stop).start
    · have moved := stop_extended behind
      have later : ¬ Block.InOrder (segment.block image.stop).stop _ :=
        fun ordered => overlaps ⟨behind, ordered⟩
      rw [← moved] at later others
      obtain ⟨name, start, stop, refused⟩ := induction later others
      refine ⟨name, start, stop, ?_⟩
      rw [List.foldlM_cons, add_of_fits behind here]
      exact refused
    · obtain ⟨address, refused⟩ := add_of_lt (Nat.lt_of_not_le behind)
      refine ⟨segment.name, address, image.stop, ?_⟩
      rw [List.foldlM_cons, refused]
      rfl

end Image

end Z80Toolchain
