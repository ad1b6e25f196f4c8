import Z80Toolchain.Proofs.Assembly.FixupPlaces
import Z80Toolchain.Proofs.Assembly.Patching

/-!
Patches stay inside the code. Emission and patching have twins here that fail at the first index
behind the end of the code; in a run over any source they do not fail, and so they do what the
unchecked functions do. Since the places of patches lie apart, the code does not depend on the order
of the patches. The order of the complaints does, and nothing is said about it.
-/
namespace Z80Toolchain

/-! ### Checked access -/

def store? (code : Array UInt8) (index : Nat) (byte : UInt8) : Option (Array UInt8) :=
  if bound : index < code.size then some (code.set index byte bound) else none

theorem store?_eq_some {code : Array UInt8} {index : Nat} (bound : index < code.size)
    (byte : UInt8) : store? code index byte = some (code.setIfInBounds index byte) := by
  simp [store?, Array.setIfInBounds, bound]

theorem get_elem?_set_if_in_bounds_eq_map (code : Array UInt8) (index place : Nat) (byte : UInt8) :
    (code.setIfInBounds place byte)[index]? =
      code[index]?.map fun before => if index = place then byte else before := by
  by_cases here : index = place
  · subst here
    by_cases bound : index < code.size <;> simp [bound]
  · simp [here, Ne.symm here]

/-- Storing into bytes behind other code does not touch that code. -/
theorem store?_append (code : Array UInt8) {bytes : List UInt8} {offset : Nat}
    (bound : offset < bytes.length) (byte : UInt8) :
    store? (code ++ bytes) (code.size + offset) byte = some (code ++ bytes.set offset byte) := by
  have size : (code ++ bytes).size = code.size + bytes.length := by
    rw [← Array.length_toList, Array.toList_appendList, List.length_append, Array.length_toList]
  rw [store?_eq_some (by omega), Option.some_inj, ← Array.toList_inj, Array.toList_setIfInBounds,
    Array.toList_appendList, Array.toList_appendList, List.set_append_right _ _ (by simp),
    Array.length_toList, Nat.add_sub_cancel_left]

namespace Edit

/-- An edit that fails where it reads or writes behind the end of the code. -/
def applyInside? (code : Array UInt8) : Edit → Option (Array UInt8)
  | storeWord offset word => do
    let code ← store? code offset (UInt8.ofNat (word.toNat % 256))
    store? code (offset + 1) (UInt8.ofNat (word.toNat / 256))
  | addByte offset byte => do
    let before ← code[offset]?
    store? code offset (before + byte)

def byteAt (index : Nat) (byte : UInt8) : Edit → UInt8
  | storeWord offset word =>
    if index = offset then UInt8.ofNat (word.toNat % 256)
    else if index = offset + 1 then UInt8.ofNat (word.toNat / 256)
    else byte
  | addByte offset added => if index = offset then byte + added else byte

theorem size_apply (code : Array UInt8) (edit : Edit) : (edit.apply code).size = code.size := by
  cases edit <;> simp [apply]

/-- An edit changes each byte by itself. -/
theorem get_elem?_apply (code : Array UInt8) (edit : Edit) (index : Nat) :
    (edit.apply code)[index]? = code[index]?.map (edit.byteAt index) := by
  cases edit with
  | storeWord offset word =>
    simp only [apply, get_elem?_set_if_in_bounds_eq_map, Option.map_map]
    congr 1
    funext byte
    simp only [byteAt, Function.comp_apply]
    by_cases low : index = offset
    · rw [if_neg (by omega : index ≠ offset + 1), if_pos low, if_pos low]
    · simp only [if_neg low]
  | addByte offset added =>
    simp only [apply, Array.getElem?_modify]
    by_cases here : offset = index
    · simp [byteAt, here]
    · simp [byteAt, here, Ne.symm here]

end Edit

namespace Patch

def Covers (patch : Patch) (index : Nat) : Prop :=
  patch.offset ≤ index ∧ index < patch.offset + patch.width.size

/-- The edit of a patch is of its width and at its offset. -/
inductive Edits (patch : Patch) : Edit → Prop
  | word (wide : patch.width = .absolute) (word : UInt16) : Edits patch (.storeWord patch.offset word)
  | byte (narrow : patch.width = .relative) (byte : UInt8) : Edits patch (.addByte patch.offset byte)

variable {symbols : Symbols} {patch : Patch} {edit : Edit}

theorem edits_of_edit (edited : patch.edit symbols = .ok edit) : patch.Edits edit := by
  unfold Patch.edit at edited
  split at edited
  · cases edited
  · unfold editFor at edited
    split at edited
    · next wide =>
      dsimp only at edited
      split at edited
      · cases edited
        exact .word wide _
      · cases edited
    · next narrow =>
      dsimp only at edited
      split at edited
      · cases edited
        exact .byte narrow _
      · cases edited

theorem Edits.apply_inside? (edits : patch.Edits edit) {code : Array UInt8}
    (inside : patch.offset + patch.width.size ≤ code.size) :
    edit.applyInside? code = some (edit.apply code) := by
  cases edits with
  | word wide word =>
    simp only [wide, Width.size] at inside
    have low := store?_eq_some (by omega : patch.offset < code.size)
    have high := @store?_eq_some (code.setIfInBounds patch.offset (UInt8.ofNat (word.toNat % 256)))
      (patch.offset + 1) (by rw [Array.size_setIfInBounds]; omega)
    simp [Edit.applyInside?, Edit.apply, low, high]
  | byte narrow byte =>
    simp only [narrow, Width.size] at inside
    have bound : patch.offset < code.size := by omega
    have present : code[patch.offset]? = some code[patch.offset] := Array.getElem?_eq_getElem bound
    simp only [Edit.applyInside?, Edit.apply, present, Option.bind_eq_bind, Option.bind_some,
      store?_eq_some bound, Option.some_inj]
    refine Array.ext_getElem? fun index => ?_
    rw [get_elem?_set_if_in_bounds_eq_map, Array.getElem?_modify]
    by_cases here : patch.offset = index
    · subst here
      simp [bound]
    · simp [here, Ne.symm here]

-- a word at the last byte is refused
example : Edit.applyInside? #[0, 0] (.storeWord 1 0x1234) = none := by decide

theorem Edits.byte_at_outside (edits : patch.Edits edit) {index : Nat}
    (outside : ¬ patch.Covers index) (byte : UInt8) : edit.byteAt index byte = byte := by
  unfold Covers at outside
  cases edits with
  | word wide word =>
    simp only [wide, Width.size] at outside
    rw [Edit.byteAt, if_neg (by omega), if_neg (by omega)]
  | byte narrow added =>
    simp only [narrow, Width.size] at outside
    rw [Edit.byteAt, if_neg (by omega)]

/-! ### Patching -/

/-- Patching that fails where an edit is out of bounds. -/
def resolve? (symbols : Symbols) (code : Array UInt8) :
    List Patch → Option (Array UInt8 × List Diagnostic)
  | [] => some (code, [])
  | patch :: rest =>
    match patch.edit symbols with
    | .ok edit => do resolve? symbols (← edit.applyInside? code) rest
    | .error diagnostic => do
      let (code, diagnostics) ← resolve? symbols code rest
      return (code, diagnostic :: diagnostics)

theorem resolve?_eq_some {patches : List Patch} {code : Array UInt8}
    (inside : ∀ patch ∈ patches, patch.offset + patch.width.size ≤ code.size) :
    resolve? symbols code patches = some (resolve symbols code patches) := by
  induction patches generalizing code with
  | nil => rfl
  | cons patch rest induction =>
    obtain ⟨here, later⟩ := List.forall_mem_cons.mp inside
    cases edited : patch.edit symbols with
    | ok edit =>
      have applied := (edits_of_edit edited).apply_inside? here
      have followed := @induction (edit.apply code) (by simpa only [Edit.size_apply] using later)
      simp [resolve?, resolve, edited, applied, followed]
    | error diagnostic => simp [resolve?, resolve, edited, induction later]

/-- Patches of different bytes may change places. -/
theorem applied_comm {left right : Patch} (apart : ∀ index, left.Covers index → ¬ right.Covers index)
    (code : Array UInt8) :
    right.applied symbols (left.applied symbols code) =
      left.applied symbols (right.applied symbols code) := by
  unfold applied
  cases first : left.edit symbols with
  | error diagnostic => rfl
  | ok one =>
    cases second : right.edit symbols with
    | error diagnostic => rfl
    | ok other =>
      refine Array.ext_getElem? fun index => ?_
      simp only [Edit.get_elem?_apply, Option.map_map]
      congr 1
      funext byte
      simp only [Function.comp_apply]
      by_cases covered : left.Covers index
      · have outside := (edits_of_edit second).byte_at_outside (apart index covered)
        rw [outside, outside]
      · have outside := (edits_of_edit first).byte_at_outside covered
        rw [outside, outside]

/-- The order of patches does not matter for the code if no two of them change the same byte. -/
theorem resolve_perm {patches others : List Patch} (same : others.Perm patches)
    (apart : patches.Pairwise fun left right => left.offset + left.width.size ≤ right.offset)
    (code : Array UInt8) :
    (resolve symbols code others).1 = (resolve symbols code patches).1 := by
  simp only [resolve_eq]
  have swap : patches.Pairwise fun left right => ∀ code,
      right.applied symbols (left.applied symbols code) =
        left.applied symbols (right.applied symbols code) := by
    refine apart.imp fun ordered => applied_comm fun index covers => ?_
    unfold Covers at covers ⊢
    omega
  -- any two members have to commute, also a patch with itself
  refine (same.symm.foldl_eq' (fun left first right second => ?_) code).symm
  exact swap.forall_of_forall_of_flip (fun _ _ _ => rfl)
    (swap.imp fun commutes code => (commutes code).symm) first second

end Patch

/-! ### Emission -/

namespace Draft

def storeBaselines? (code : Array UInt8) : List Patch → Option (Array UInt8)
  | [] => some code
  | patch :: rest =>
    match patch.width with
    | .absolute => storeBaselines? code rest
    | .relative => do storeBaselines? (← store? code patch.offset (UInt8.ofInt patch.addend)) rest

/-- Emission that writes baselines into the appended code, by index, and fails out of bounds. -/
def emit? (draft : Draft) (head : Token) (encoding : Encoding) : Option Draft := do
  let patches := encoding.references.map (Patch.ofReference draft.origin draft.code.size)
  let code ← storeBaselines? (draft.code ++ encoding.bytes) patches
  return { draft.emit head encoding with code }

theorem store_baselines?_append (origin : UInt16) (code : Array UInt8) {bytes : List UInt8}
    {references : List Reference} (inside : ∀ reference ∈ references,
      reference.offset + reference.width.size ≤ bytes.length) :
    storeBaselines? (code ++ bytes) (references.map (Patch.ofReference origin code.size)) =
      some (code ++ references.foldl (Reference.writeBaseline origin code.size) bytes) := by
  induction references generalizing bytes with
  | nil => rfl
  | cons reference rest induction =>
    obtain ⟨here, later⟩ := List.forall_mem_cons.mp inside
    cases width : reference.width with
    | absolute =>
      simp only [List.map_cons, storeBaselines?, Patch.ofReference, width, List.foldl_cons,
        Reference.writeBaseline]
      exact induction later
    | relative =>
      have narrow : (Patch.ofReference origin code.size reference).width = .relative := width
      have offset : (Patch.ofReference origin code.size reference).offset =
        code.size + reference.offset := rfl
      simp only [width, Width.size] at here
      simp only [List.map_cons, storeBaselines?, narrow, offset, Reference.byte_of_reference width,
        store?_append code here, List.foldl_cons, Reference.writeBaseline, width]
      refine induction fun other member => ?_
      rw [List.length_set]
      exact later other member

theorem emit?_eq_some (draft : Draft) (head : Token) {statement : Statement}
    (patchable : statement.Patchable) :
    draft.emit? head statement.encoding = some (draft.emit head statement.encoding) := by
  simp [emit?, store_baselines?_append _ _ patchable.inside, emit, placed_eq_foldl]

inductive BoundedSteps : Draft → Draft → Prop
  | done (draft : Draft) : BoundedSteps draft draft
  | quiet {draft middle after : Draft} (first : Step draft [] middle)
      (rest : BoundedSteps middle after) : BoundedSteps draft after
  | emit {draft middle after : Draft} {head : Token} {encoding : Encoding}
      (first : draft.emit? head encoding = some middle) (rest : BoundedSteps middle after) :
      BoundedSteps draft after

theorem Steps.bounded {draft after : Draft} {emissions : List Emission}
    (steps : Steps draft emissions after) : BoundedSteps draft after := by
  induction steps with
  | done draft => exact .done draft
  | step first rest bounded =>
    cases first with
    | skip => exact bounded
    | define taken => exact .quiet (.define taken) bounded
    | report known => exact .quiet (.report known) bounded
    | emit read fits =>
      exact .emit (emit?_eq_some _ _ (Statement.patchable_of_parse read)) bounded

end Draft

/-! ### Whole sources -/

namespace Expansion

variable (expansion : Expansion) (origin : UInt16)

theorem patches_inside :
    ∀ patch ∈ (expansion.draft origin).patches.toList,
      patch.offset + patch.width.size ≤ (expansion.draft origin).code.size := by
  rw [draft_patches]
  intro patch member
  obtain ⟨fixup, found, rfl⟩ := List.mem_map.mp member
  have inside := (expansion.draft_holds origin).reserved.inside (Reference.length_placeholder _) found
  simpa [Reference.patch, Patch.ofReference] using inside

theorem patches_apart :
    (expansion.draft origin).patches.toList.Pairwise fun left right =>
      left.offset + left.width.size ≤ right.offset := by
  rw [draft_patches]
  refine List.pairwise_map.mpr ((expansion.draft_holds origin).reserved.apart.imp fun ordered => ?_)
  simpa [Reference.patch, Patch.ofReference] using ordered

end Expansion

/-- Fixups lie inside the bytes of their statement, so no index of the encode pass or of the patching
is out of bounds, and the fixups of a source may be patched in any order. -/
theorem fixups_in_bounds :
    (∀ symbols head cursor statement after,
      Statement.parse symbols head cursor = (.ok statement, after) →
        statement.Patchable ∧
        ∀ name, head.kind = .text name → Text.lower name ≠ "db" → Text.lower name ≠ "dw" →
          1 ≤ statement.encoding.bytes.length ∧ statement.encoding.bytes.length ≤ 4 ∧
            statement.encoding.references.length ≤ 1) ∧
    ∀ source origin, let draft := (Expansion.ofSource source).draft origin
      Draft.BoundedSteps (.start origin) draft ∧
      ∀ patches : List Patch, patches.Perm draft.patches.toList →
        Patch.resolve? draft.symbols draft.code patches =
            some (Patch.resolve draft.symbols draft.code patches) ∧
          (Patch.resolve draft.symbols draft.code patches).1 = (assemble origin source).code := by
  refine ⟨fun symbols head cursor statement after read => ⟨Statement.patchable_of_parse read, ?_⟩, ?_⟩
  · exact fun name kind noBytes noWords => Statement.instruction_size read kind noBytes noWords
  · intro source origin draft
    let expansion := Expansion.ofSource source
    have inside := expansion.patches_inside origin
    have apart := expansion.patches_apart origin
    refine ⟨(expansion.draft_steps origin).bounded, fun patches same => ⟨?_, ?_⟩⟩
    · exact Patch.resolve?_eq_some fun patch member => inside patch (same.mem_iff.mp member)
    · exact Patch.resolve_perm same apart draft.code

end Z80Toolchain
