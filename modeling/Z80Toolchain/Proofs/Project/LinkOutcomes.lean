import Z80Toolchain.Proofs.Project.Linking

/-!
Which segments can be linked, and what stops the others. Segments fit when each starts no lower than
the one before it stops and none goes beyond the end of memory. The first one that does not fit is
named in the failure. Writing down the address of a segment that follows another changes nothing.
-/
namespace Z80Toolchain

namespace Segment

/-! ### Segments that fit -/

/-- Segments that can stand behind an address, one behind the other, up to the end of memory. -/
structure Fit (stop : Nat) (segments : List Segment) : Prop where
  ordered : Block.InOrder stop (blocks stop segments)
  inside : ∀ block ∈ blocks stop segments, block.stop ≤ Address.space

def stopBehind (stop : Nat) (segments : List Segment) : Nat :=
  segments.foldl (fun reached segment => (segment.block reached).stop) stop

/-- What is wrong with a segment that is to stand behind `stop`. -/
inductive Violates (stop : Nat) (segment : Segment) : Failure → Prop
  | overlap {address : UInt16} (bound : segment.address = some address)
      (early : address.toNat < stop) :
      Violates stop segment (.overlap segment.name address stop)
  | overflow (behind : stop ≤ (segment.block stop).start)
      (beyond : Address.space < (segment.block stop).stop) :
      Violates stop segment (.imageOverflow segment.name (segment.block stop).stop)

theorem fit_nil (stop : Nat) : Fit stop [] :=
  ⟨trivial, by simp [blocks]⟩

theorem fit_cons {stop : Nat} {segment : Segment} {rest : List Segment} :
    Fit stop (segment :: rest) ↔
      (stop ≤ (segment.block stop).start ∧ (segment.block stop).stop ≤ Address.space) ∧
        Fit (segment.block stop).stop rest := by
  constructor
  · rintro ⟨⟨behind, ordered⟩, inside⟩
    obtain ⟨here, others⟩ := List.forall_mem_cons.mp inside
    exact ⟨⟨behind, here⟩, ordered, others⟩
  · rintro ⟨⟨behind, here⟩, ordered, others⟩
    exact ⟨⟨behind, ordered⟩, List.forall_mem_cons.mpr ⟨here, others⟩⟩

/-- A segment either fits or is at fault. -/
theorem fits_or_violates (stop : Nat) (segment : Segment) :
    (stop ≤ (segment.block stop).start ∧ (segment.block stop).stop ≤ Address.space) ∨
      ∃ failure, Violates stop segment failure := by
  rcases Nat.lt_or_ge (segment.block stop).start stop with early | behind
  · cases bound : segment.address with
    | none => simp [block, bound] at early
    | some address =>
      simp only [block, bound, Option.elim] at early
      exact .inr ⟨_, .overlap bound early⟩
  · rcases Nat.lt_or_ge Address.space (segment.block stop).stop with beyond | inside
    · exact .inr ⟨_, .overflow behind beyond⟩
    · exact .inl ⟨behind, inside⟩

/-- Segments fit, or there is a first one that is at fault. -/
theorem fit_or_violates (stop : Nat) (segments : List Segment) :
    Fit stop segments ∨
      ∃ before segment after failure, segments = before ++ segment :: after ∧ Fit stop before ∧
        Violates (stopBehind stop before) segment failure := by
  induction segments generalizing stop with
  | nil => exact .inl (fit_nil stop)
  | cons first rest induction =>
    rcases fits_or_violates stop first with fits | ⟨failure, violates⟩
    · rcases induction (first.block stop).stop with fit | ⟨before, segment, after, failure, found⟩
      · exact .inl (fit_cons.mpr ⟨fits, fit⟩)
      · obtain ⟨rfl, fit, violates⟩ := found
        exact .inr ⟨first :: before, segment, after, failure, rfl, fit_cons.mpr ⟨fits, fit⟩, violates⟩
    · exact .inr ⟨[], first, rest, failure, rfl, fit_nil stop, violates⟩

/-! ### Written addresses -/

/-- A segment without an address, bound to the address where it stands; beyond the end of memory
there is none to be bound to. -/
def bound (stop : Nat) (segment : Segment) : Segment :=
  match segment.address with
  | some _ => segment
  | none => if stop < Address.space then { segment with address := some (.ofNat stop) } else segment

def pinned (stop : Nat) : List Segment → List Segment
  | [] => []
  | segment :: rest => segment.bound stop :: pinned (segment.block stop).stop rest

@[simp] theorem name_bound (stop : Nat) (segment : Segment) :
    (segment.bound stop).name = segment.name := by
  unfold bound
  split
  · rfl
  · split <;> rfl

@[simp] theorem bytes_bound (stop : Nat) (segment : Segment) :
    (segment.bound stop).bytes = segment.bytes := by
  unfold bound
  split
  · rfl
  · split <;> rfl

end Segment

namespace Image

open Segment

theorem add_of_violates {image : Image} {segment : Segment} {failure : Failure}
    (violates : Violates image.stop segment failure) : image.add segment = .error failure := by
  cases violates with
  | overlap bound early =>
    rw [add, startOf, bound]
    simp only [if_pos early]
    rfl
  | overflow behind beyond =>
    rw [add, start_of_le behind]
    exact if_pos beyond

/-- Linking stops at the first segment that does not fit. -/
theorem fold_add_of_violates {image : Image} {before after : List Segment} {segment : Segment}
    {failure : Failure} (fit : Fit image.stop before)
    (violates : Violates (stopBehind image.stop before) segment failure) :
    (before ++ segment :: after).foldlM add image = .error failure := by
  induction before generalizing image with
  | nil =>
    rw [List.nil_append, List.foldlM_cons, add_of_violates violates]
    rfl
  | cons first before induction =>
    obtain ⟨⟨behind, inside⟩, later⟩ := fit_cons.mp fit
    rw [List.cons_append, List.foldlM_cons, add_of_fits behind inside]
    have moved := stop_extended behind
    rw [← moved] at later
    refine induction later ?_
    rw [moved]
    exact violates

/-- Behind an image, a segment may name the address where it would stand anyway. -/
theorem start_of_bound (image : Image) (segment : Segment) :
    image.startOf (segment.bound image.stop) = image.startOf segment := by
  unfold Segment.bound
  split
  · rfl
  · next floating =>
    split
    · next inside =>
      have same : (UInt16.ofNat image.stop).toNat = image.stop := Nat.mod_eq_of_lt inside
      simp [startOf, floating, same]
    · rfl

theorem add_bound (image : Image) (segment : Segment) :
    image.add (segment.bound image.stop) = image.add segment := by
  simp only [add, start_of_bound, name_bound, bytes_bound]

theorem fold_add_pinned (image : Image) (segments : List Segment) :
    (pinned image.stop segments).foldlM add image = segments.foldlM add image := by
  induction segments generalizing image with
  | nil => rfl
  | cons segment rest induction =>
    rw [pinned, List.foldlM_cons, List.foldlM_cons, add_bound]
    rcases fits_or_violates image.stop segment with ⟨behind, inside⟩ | ⟨failure, violates⟩
    · rw [add_of_fits behind inside, ← stop_extended behind]
      exact induction _
    · rw [add_of_violates violates]
      rfl

theorem base_of_pinned (segments : List Segment) :
    baseOf (pinned (baseOf segments).toNat segments) = baseOf segments := by
  cases segments with
  | nil => rfl
  | cons segment rest =>
    unfold baseOf pinned bound
    cases bound : segment.address <;> simp [bound, Address.space]

/-- Segments that fit are linked, each at its place. -/
theorem link_of_fit {segments : List Segment} (fit : Fit (baseOf segments).toNat segments) :
    ∃ image, link segments = .ok image ∧ image.base = baseOf segments ∧
      Lays (baseOf segments).toNat (blocks (baseOf segments).toNat segments) image.bytes :=
  @fold_add ⟨baseOf segments, []⟩ segments [] (lays_nil _) fit.ordered fit.inside

theorem link_of_violates {segments before after : List Segment} {segment : Segment}
    {failure : Failure} (split : segments = before ++ segment :: after)
    (fit : Fit (baseOf segments).toNat before)
    (violates : Violates (stopBehind (baseOf segments).toNat before) segment failure) :
    link segments = .error failure := by
  have stopped := @fold_add_of_violates ⟨baseOf segments, []⟩ before after segment failure fit violates
  rwa [← split] at stopped

/-- Linking succeeds for segments that fit and lays each at its place. It names the first segment that
does not fit, and asks for no address that follows from the segments before. -/
theorem link_exact (segments : List Segment) :
    let base := (baseOf segments).toNat
    ((∃ image, link segments = .ok image) ↔ Fit base segments) ∧
      (∀ image, link segments = .ok image →
        image.base = baseOf segments ∧ Lays base (blocks base segments) image.bytes) ∧
      (∀ failure, link segments = .error failure ↔
        ∃ before segment after, segments = before ++ segment :: after ∧ Fit base before ∧
          Violates (stopBehind base before) segment failure) ∧
      link (pinned base segments) = link segments := by
  intro base
  refine ⟨⟨?_, fun fit => ?_⟩, ?_, fun failure => ⟨?_, ?_⟩, ?_⟩
  · rintro ⟨image, linked⟩
    rcases fit_or_violates base segments with fit | ⟨before, segment, after, failure, found⟩
    · exact fit
    · rw [link_of_violates found.1 found.2.1 found.2.2] at linked
      cases linked
  · obtain ⟨image, linked, -⟩ := link_of_fit fit
    exact ⟨image, linked⟩
  · intro image linked
    rcases fit_or_violates base segments with fit | ⟨before, segment, after, failure, found⟩
    · obtain ⟨final, same, laid⟩ := link_of_fit fit
      obtain rfl : final = image := Except.ok.inj (same.symm.trans linked)
      exact laid
    · rw [link_of_violates found.1 found.2.1 found.2.2] at linked
      cases linked
  · intro refused
    rcases fit_or_violates base segments with fit | ⟨before, segment, after, other, found⟩
    · obtain ⟨image, linked, -⟩ := link_of_fit fit
      rw [linked] at refused
      cases refused
    · obtain rfl : other = failure :=
        Except.error.inj ((link_of_violates found.1 found.2.1 found.2.2).symm.trans refused)
      exact ⟨before, segment, after, found⟩
  · rintro ⟨before, segment, after, split, fit, violates⟩
    exact link_of_violates split fit violates
  · rw [link, base_of_pinned]
    exact fold_add_pinned ⟨baseOf segments, []⟩ segments

end Image

end Z80Toolchain
