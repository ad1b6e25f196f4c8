import Z80Toolchain.Proofs.Assembly.Emission

/-!
What patching makes of a draft. Every place that waits for a label ends up with the bytes that the
value of the label and the source addend ask for, or keeps its placeholder and costs one complaint;
all other bytes stay as they were emitted. The arithmetic is exact: a relative place holds the
distance itself, although the patch only adds the label to a stored baseline modulo 256. The
baseline is exact as far as 32 bits go.
-/
namespace Z80Toolchain

theorem stands_at_set_pair {code : List UInt8} {offset : Nat} (inside : offset + 2 ≤ code.length)
    (low high : UInt8) :
    StandsAt ((code.set offset low).set (offset + 1) high) offset [low, high] := by
  intro index bound
  match index, bound with
  | 0, _ =>
    change ((code.set offset low).set (offset + 1) high)[offset]? = some low
    rw [List.getElem?_set_ne (by omega), List.getElem?_set_self (by omega)]
  | 1, _ =>
    rw [List.getElem?_set_self (by rw [List.length_set]; omega)]
    rfl

theorem StandsAt.modify {code : List UInt8} {offset : Nat} {byte : UInt8}
    (stands : StandsAt code offset [byte]) (change : UInt8 → UInt8) :
    StandsAt (code.modify offset change) offset [change byte] := by
  intro index bound
  obtain rfl : index = 0 := by simpa using bound
  have here := stands 0 bound
  rw [Nat.add_zero] at here ⊢
  rw [List.getElem?_modify_eq, here]
  rfl

/-! ### What a place should hold -/

namespace Reference

/-- The bytes that a place should hold at the end, or why it cannot. -/
def resolution (origin : UInt16) (symbols : Symbols) (fixup : Reference) :
    Except Cause (List UInt8) :=
  match symbols.value? fixup.name, fixup.width with
  | none, _ => .error (.unresolvedSymbol fixup.name)
  | some value, .absolute =>
    let target := value + fixup.addend
    if -32768 ≤ target ∧ target ≤ 65535 then
      .ok (wordBytes (UInt16.ofNat (target % 65536).toNat))
    else .error (.valueOutOfRange (Address.wrapped target))
  | some value, .relative =>
    let distance := value + fixup.baseline origin
    if -128 ≤ distance ∧ distance ≤ 127 then .ok [UInt8.ofInt distance]
    else .error (.relativeOutOfRange (Address.wrapped distance))

/-- The bytes of a place at the end: its placeholder stays if it cannot be resolved. -/
def final (origin : UInt16) (symbols : Symbols) (fixup : Reference) : List UInt8 :=
  match fixup.resolution origin symbols with
  | .ok bytes => bytes
  | .error _ => fixup.placeholder origin

def complaint? (origin : UInt16) (symbols : Symbols) (fixup : Reference) : Option Diagnostic :=
  match fixup.resolution origin symbols with
  | .ok _ => none
  | .error cause => some ⟨fixup.position, cause, none⟩

end Reference

/-! ### Patches one after another -/

namespace Patch

def applied (symbols : Symbols) (code : Array UInt8) (patch : Patch) : Array UInt8 :=
  match patch.edit symbols with
  | .ok edit => edit.apply code
  | .error _ => code

def refusal? (symbols : Symbols) (patch : Patch) : Option Diagnostic :=
  match patch.edit symbols with
  | .ok _ => none
  | .error diagnostic => some diagnostic

theorem resolve_eq (symbols : Symbols) (code : Array UInt8) (patches : List Patch) :
    resolve symbols code patches =
      (patches.foldl (applied symbols) code, patches.filterMap (refusal? symbols)) := by
  induction patches generalizing code with
  | nil => rfl
  | cons patch rest induction =>
    cases edited : patch.edit symbols with
    | ok edit => simp [resolve, applied, refusal?, edited, induction]
    | error diagnostic => simp [resolve, applied, refusal?, edited, induction]

end Patch

namespace Reference

variable (origin : UInt16) (symbols : Symbols)

/-- How a place and its patch fare together. -/
inductive Outcome (fixup : Reference) : Prop
  | refused (cause : Cause) (missed : fixup.resolution origin symbols = .error cause)
      (refusal : (fixup.patch origin).edit symbols = .error ⟨fixup.position, cause, none⟩)
  | stored (word : UInt16) (wide : fixup.width = .absolute)
      (resolved : fixup.resolution origin symbols = .ok (wordBytes word))
      (edited : (fixup.patch origin).edit symbols = .ok (.storeWord fixup.offset word))
  | added (value : Int) (narrow : fixup.width = .relative)
      (resolved : fixup.resolution origin symbols =
        .ok [UInt8.ofInt (fixup.baseline origin + value)])
      (edited : (fixup.patch origin).edit symbols = .ok (.addByte fixup.offset (UInt8.ofInt value)))

theorem outcome (fixup : Reference) : Outcome origin symbols fixup := by
  cases found : symbols.value? fixup.name with
  | none =>
    refine .refused (.unresolvedSymbol fixup.name) ?_ ?_
    · simp only [resolution, found]
    · simp only [Patch.edit, patch, Patch.ofReference, found]
      rfl
  | some value =>
    cases width : fixup.width with
    | absolute =>
      by_cases fits : -32768 ≤ value + fixup.addend ∧ value + fixup.addend ≤ 65535
      · refine .stored (UInt16.ofInt (value + fixup.addend)) width ?_ ?_
        · simp only [resolution, found, width, if_pos fits]
          rfl
        · simp only [Patch.edit, patch, Patch.ofReference, found, width, Patch.editFor, if_pos fits,
            Nat.zero_add]
      · refine .refused (.valueOutOfRange (Address.wrapped (value + fixup.addend))) ?_ ?_
        · simp only [resolution, found, width, if_neg fits]
        · simp only [Patch.edit, patch, Patch.ofReference, found, width, Patch.editFor, if_neg fits]
          rfl
    | relative =>
      have named : (fixup.patch origin).name = fixup.name := rfl
      have narrow : (fixup.patch origin).width = .relative := width
      have offset : (fixup.patch origin).offset = fixup.offset := Nat.zero_add _
      by_cases fits : -128 ≤ value + fixup.baseline origin ∧ value + fixup.baseline origin ≤ 127
      · refine .added value width ?_ ?_
        · simp only [resolution, found, width, if_pos fits]
          rw [Int.add_comm]
        · simp only [Patch.edit, named, found, Patch.editFor, narrow, addend_patch width, offset,
            if_pos fits]
      · refine .refused (.relativeOutOfRange (Address.wrapped (value + fixup.baseline origin))) ?_ ?_
        · simp only [resolution, found, width, if_neg fits]
        · simp only [Patch.edit, named, found, Patch.editFor, narrow, addend_patch width,
            if_neg fits]
          rfl

theorem refusal?_patch (fixup : Reference) :
    (fixup.patch origin).refusal? symbols = fixup.complaint? origin symbols := by
  cases outcome origin symbols fixup with
  | refused cause missed refusal => simp only [Patch.refusal?, complaint?, missed, refusal]
  | stored word wide resolved edited => simp only [Patch.refusal?, complaint?, resolved, edited]
  | added value narrow resolved edited => simp only [Patch.refusal?, complaint?, resolved, edited]

def write (bytes : List UInt8) (fixup : Reference) : List UInt8 :=
  ((fixup.patch origin).applied symbols bytes.toArray).toList

theorem foldl_applied (fixups : List Reference) (code : Array UInt8) :
    ((fixups.map (patch origin)).foldl (Patch.applied symbols) code).toList =
      fixups.foldl (write origin symbols) code.toList := by
  induction fixups generalizing code with
  | nil => rfl
  | cons fixup rest induction => simp [induction, write]

theorem length_final (fixup : Reference) :
    (fixup.final origin symbols).length = fixup.width.size := by
  cases outcome origin symbols fixup with
  | refused cause missed refusal =>
    simp only [final, missed]
    exact length_placeholder origin fixup
  | stored word wide resolved edited => simp [final, resolved, wide, wordBytes, Width.size]
  | added value narrow resolved edited => simp [final, resolved, narrow, Width.size]

/-- A patch puts into its place what should stand there, and changes nothing else. -/
theorem replaces_placeholder :
    Replaces (write origin symbols) (placeholder origin) (final origin symbols) := by
  refine ⟨length_final origin symbols, ?_, ?_, ?_⟩
  · intro bytes fixup
    cases outcome origin symbols fixup with
    | refused cause missed refusal => simp [write, Patch.applied, refusal]
    | stored word wide resolved edited => simp [write, Patch.applied, edited, Edit.apply]
    | added value narrow resolved edited => simp [write, Patch.applied, edited, Edit.apply]
  · intro bytes fixup index outside
    cases outcome origin symbols fixup with
    | refused cause missed refusal => simp [write, Patch.applied, refusal]
    | stored word wide resolved edited =>
      simp only [Covers, wide, Width.size] at outside
      have low : fixup.offset ≠ index := by omega
      have high : fixup.offset + 1 ≠ index := by omega
      simp [write, Patch.applied, edited, Edit.apply, List.getElem?_set_ne low,
        List.getElem?_set_ne high]
    | added value narrow resolved edited =>
      simp only [Covers, narrow, Width.size] at outside
      have here : fixup.offset ≠ index := by omega
      simp [write, Patch.applied, edited, Edit.apply, here]
  · intro bytes fixup stands
    cases outcome origin symbols fixup with
    | refused cause missed refusal => simpa [write, Patch.applied, refusal, final, missed] using stands
    | stored word wide resolved edited =>
      have inside := stands.inside (by simp [placeholder, wide])
      simp only [placeholder, wide, List.length_cons, List.length_nil] at inside
      simp only [final, resolved, write, Patch.applied, edited, Edit.apply, wordBytes,
        Array.toList_setIfInBounds]
      exact stands_at_set_pair inside _ _
    | added value narrow resolved edited =>
      simp only [placeholder, narrow] at stands
      simp only [final, resolved, write, Patch.applied, edited, Edit.apply, Array.toList_modify,
        UInt8.ofInt_add, baseline, Address.of_int_wrapped]
      exact stands.modify (· + UInt8.ofInt value)

end Reference

/-! ### Assembled code -/

theorem Reference.is_unresolved_complaint? (origin : UInt16) (symbols : Symbols)
    (fixup : Reference) :
    (fixup.complaint? origin symbols).any Diagnostic.isUnresolved =
      (symbols.value? fixup.name).isNone := by
  unfold complaint? resolution
  cases symbols.value? fixup.name with
  | none => rfl
  | some value =>
    cases fixup.width with
    | absolute =>
      dsimp only
      by_cases fits : -32768 ≤ value + fixup.addend ∧ value + fixup.addend ≤ 65535
      · rw [if_pos fits]
        rfl
      · rw [if_neg fits]
        rfl
    | relative =>
      dsimp only
      by_cases fits : -128 ≤ value + fixup.baseline origin ∧ value + fixup.baseline origin ≤ 127
      · rw [if_pos fits]
        rfl
      · rw [if_neg fits]
        rfl

def Expansion.ofSource (source : List Char) : Expansion :=
  .ofText (Text.normalize source)

namespace Expansion

variable (expansion : Expansion) (origin : UInt16)

def fixups : List Reference :=
  Emission.allFixups (expansion.emissions origin)

theorem draft_patches :
    (expansion.draft origin).patches.toList = (expansion.fixups origin).map (Reference.patch origin) := by
  rw [(expansion.draft_holds origin).patches, expansion.draft_origin]
  rfl

theorem finish_code :
    (expansion.finish (expansion.draft origin)).code.toList =
      (expansion.fixups origin).foldl (Reference.write origin (expansion.draft origin).symbols)
        (expansion.draft origin).code.toList := by
  simp only [finish, Patch.resolve_eq, draft_patches, Reference.foldl_applied]

theorem finish_size :
    (expansion.finish (expansion.draft origin)).code.size =
      (Emission.allBytes (expansion.emissions origin)).length := by
  rw [← Array.length_toList, finish_code,
    (Reference.replaces_placeholder _ _).length_foldl, Array.length_toList,
    (expansion.draft_holds origin).size]

/-- After patching every place holds what it should. -/
theorem finish_reserves :
    Reserves (Reference.final origin (expansion.draft origin).symbols)
      (expansion.finish (expansion.draft origin)).code.toList (expansion.fixups origin) := by
  have before := (expansion.draft_holds origin).reserved
  rw [expansion.draft_origin] at before
  rw [finish_code]
  exact (Reference.replaces_placeholder _ _).foldl_reserves before

theorem finish_kept {index : Nat}
    (outside : ∀ fixup ∈ expansion.fixups origin, ¬ fixup.Covers index) :
    (expansion.finish (expansion.draft origin)).code.toList[index]? =
      (Emission.allBytes (expansion.emissions origin))[index]? := by
  rw [finish_code, (Reference.replaces_placeholder _ _).foldl_elsewhere outside]
  exact (expansion.draft_holds origin).kept index outside

theorem resolve_diagnostics :
    (Patch.resolve (expansion.draft origin).symbols (expansion.draft origin).code
        (expansion.draft origin).patches.toList).2 =
      (expansion.fixups origin).filterMap
        (Reference.complaint? origin (expansion.draft origin).symbols) := by
  have same : Patch.refusal? (expansion.draft origin).symbols ∘ Reference.patch origin =
      Reference.complaint? origin (expansion.draft origin).symbols :=
    funext fun fixup => fixup.refusal?_patch origin _
  rw [Patch.resolve_eq, draft_patches, List.filterMap_map, same]

theorem finish_diagnostics :
    (expansion.finish (expansion.draft origin)).diagnostics.Perm
      (expansion.diagnostics ++ expansion.lexicalFaults ++
        (expansion.draft origin).diagnostics.toList ++
        (expansion.fixups origin).filterMap
          (Reference.complaint? origin (expansion.draft origin).symbols)) := by
  rw [← resolve_diagnostics]
  exact List.mergeSort_perm _ _

/-- Without complaints the encode pass is clean and every place can be resolved. -/
theorem clean_of_finish (clean : (expansion.finish (expansion.draft origin)).diagnostics = []) :
    (expansion.draft origin).diagnostics = #[] ∧
      ∀ fixup ∈ expansion.fixups origin, ∃ bytes,
        fixup.resolution origin (expansion.draft origin).symbols = .ok bytes := by
  have none := expansion.finish_diagnostics origin
  rw [clean] at none
  obtain ⟨before, patched⟩ := List.append_eq_nil_iff.mp none.nil_eq.symm
  refine ⟨by simpa using (List.append_eq_nil_iff.mp before).2, fun fixup member => ?_⟩
  have complaint := List.filterMap_eq_nil_iff.mp patched fixup member
  unfold Reference.complaint? at complaint
  split at complaint
  · next bytes resolved => exact ⟨bytes, resolved⟩
  · cases complaint

theorem finish_resolved :
    (expansion.finish (expansion.draft origin)).resolved =
      (expansion.fixups origin).countP fun fixup =>
        (fixup.resolution origin (expansion.draft origin).symbols).isOk := by
  have size : (expansion.draft origin).patches.size = (expansion.fixups origin).length := by
    rw [← Array.length_toList, draft_patches, List.length_map]
  change (expansion.draft origin).patches.size - (Patch.resolve _ _ _).2.length = _
  rw [resolve_diagnostics, size, List.length_filterMap_eq_countP, List.length_eq_countP_add_countP
    fun fixup => (fixup.resolution origin (expansion.draft origin).symbols).isOk]
  have failing : (fun fixup => decide ¬ (Except.isOk
        (Reference.resolution origin (expansion.draft origin).symbols fixup)) = true) =
      fun fixup => (Reference.complaint? origin (expansion.draft origin).symbols fixup).isSome := by
    funext fixup
    unfold Reference.complaint?
    cases fixup.resolution origin (expansion.draft origin).symbols <;> rfl
  rw [failing, Nat.add_sub_cancel]

theorem finish_is_complete (known : ∀ diagnostic ∈ expansion.diagnostics,
    diagnostic.isUnresolved = false) :
    (expansion.finish (expansion.draft origin)).isComplete = false ↔
      ∃ fixup ∈ expansion.fixups origin,
        (expansion.draft origin).symbols.value? fixup.name = none := by
  have before : ∀ diagnostic ∈ expansion.diagnostics ++ expansion.lexicalFaults ++
      (expansion.draft origin).diagnostics.toList, diagnostic.isUnresolved = false := by
    refine List.forall_mem_append.mpr ⟨List.forall_mem_append.mpr ⟨known, ?_⟩, ?_⟩
    · exact expansion.lexical_faults_known
    · exact fun diagnostic member => expansion.draft_known origin diagnostic (by simpa using member)
  have missing : ∀ fixup diagnostic,
      Reference.complaint? origin (expansion.draft origin).symbols fixup = some diagnostic →
      (diagnostic.isUnresolved = true ↔
        (expansion.draft origin).symbols.value? fixup.name = none) := by
    intro fixup diagnostic complaint
    have same := fixup.is_unresolved_complaint? origin (expansion.draft origin).symbols
    rw [complaint] at same
    rw [← Option.isNone_iff_eq_none, ← same]
    rfl
  simp only [Assembly.isComplete, Bool.not_eq_false', List.any_eq_true]
  constructor
  · rintro ⟨diagnostic, member, unresolved⟩
    rcases List.mem_append.mp ((expansion.finish_diagnostics origin).mem_iff.mp member) with old | new
    · simp [before diagnostic old] at unresolved
    · obtain ⟨fixup, found, complaint⟩ := List.mem_filterMap.mp new
      exact ⟨fixup, found, (missing fixup diagnostic complaint).mp unresolved⟩
  · rintro ⟨fixup, found, absent⟩
    have complaint : fixup.complaint? origin (expansion.draft origin).symbols =
        some ⟨fixup.position, .unresolvedSymbol fixup.name, none⟩ := by
      simp only [Reference.complaint?, Reference.resolution, absent]
    refine ⟨⟨fixup.position, .unresolvedSymbol fixup.name, none⟩,
      (expansion.finish_diagnostics origin).mem_iff.mpr ?_, rfl⟩
    exact List.mem_append_right _ (List.mem_filterMap.mpr ⟨fixup, found, complaint⟩)

end Expansion

/-- What patching leaves of the fixups that the encode pass recorded for a source. -/
structure Assembly.PatchedFrom (expansion : Expansion) (origin : UInt16) (assembly : Assembly) :
    Prop where
  recorded : (expansion.draft origin).patches.toList =
    (expansion.fixups origin).map (Reference.patch origin)
  -- distances are exact where their baselines are numbers of 32 bits
  exact : ∀ fixup ∈ expansion.fixups origin,
    fitsInteger (fixup.addend - (origin.toNat + fixup.offset + 1)) →
      fixup.baseline origin = fixup.addend - (origin.toNat + fixup.offset + 1)
  -- the places lie apart, and each holds its resolved bytes or its placeholder
  held : Reserves (Reference.final origin assembly.symbols) assembly.code.toList
    (expansion.fixups origin)
  size : assembly.code.size = (Emission.allBytes (expansion.emissions origin)).length
  -- every other byte is the encoder's
  kept : ∀ index, (∀ fixup ∈ expansion.fixups origin, ¬ fixup.Covers index) →
    assembly.code.toList[index]? = (Emission.allBytes (expansion.emissions origin))[index]?
  -- one complaint for each place that cannot be resolved, beside those of the earlier stages
  reported : assembly.diagnostics.Perm
    (expansion.diagnostics ++ expansion.lexicalFaults ++
      (expansion.draft origin).diagnostics.toList ++
      (expansion.fixups origin).filterMap (Reference.complaint? origin assembly.symbols))
  counted : assembly.resolved = (expansion.fixups origin).countP fun fixup =>
    (fixup.resolution origin assembly.symbols).isOk
  incomplete : assembly.isComplete = false ↔
    ∃ fixup ∈ expansion.fixups origin, assembly.symbols.value? fixup.name = none

/-- Every label reference of a source is patched to the value that it asks for, or reported. -/
theorem assemble_resolves_fixups (origin : UInt16) (source : List Char) :
    (assemble origin source).PatchedFrom (Expansion.ofSource source) origin := by
  let expansion := Expansion.ofSource source
  have directives : ∀ diagnostic ∈ expansion.diagnostics, diagnostic.isUnresolved = false :=
    Expansion.of_text_known _
  exact ⟨expansion.draft_patches origin, fun fixup _ => fixup.baseline_of_fits,
    expansion.finish_reserves origin, expansion.finish_size origin, fun _ => expansion.finish_kept origin,
    expansion.finish_diagnostics origin, expansion.finish_resolved origin,
    expansion.finish_is_complete origin directives⟩

end Z80Toolchain
