import Z80Toolchain.Proofs.Assembly.Appending
import Z80Toolchain.Proofs.Assembly.LineEffect

/-!
The encode pass as a list of emissions. A draft changes in three ways only: a name is defined, a
complaint is reported, or an accepted statement is emitted. From these steps follows what a draft
holds at the end of every run: the bytes of its emissions one after another, with a placeholder in
every place that waits for a label. Nothing is said about the values of labels.
-/
namespace Z80Toolchain

/-! ### Emissions -/

structure Emission where
  head : Token
  start : Nat
  encoding : Encoding
deriving DecidableEq, Repr

def Emission.fixups (emission : Emission) : List Reference :=
  emission.encoding.references.map (Reference.moved emission.start)

def Emission.line (origin : UInt16) (emission : Emission) : Line :=
  ⟨emission.head.position.line, UInt16.ofNat (origin.toNat + emission.start), emission.start,
    emission.start + emission.encoding.bytes.length⟩

def Emission.allFixups (emissions : List Emission) : List Reference :=
  emissions.flatMap Emission.fixups

def Emission.allBytes (emissions : List Emission) : List UInt8 :=
  emissions.flatMap fun emission => emission.encoding.bytes

namespace Draft

/-- What the statement that starts with `head` emits: nothing unless it is accepted. -/
def emitted (draft : Draft) (head : Token) (cursor : Cursor) : List Emission :=
  match draft.statement head cursor, Statement.parse draft.symbols head cursor with
  | .ok _, (.ok statement, _) => [⟨head, draft.code.size, statement.encoding⟩]
  | _, _ => []

def emittedFrom (final : Position) (draft : Draft) : List Token → List Emission
  | [] => []
  | token :: rest =>
    match token.kind with
    | .newLine => []
    | .label name => emittedFrom final (draft.label token name) rest
    | _ => draft.emitted token ⟨rest, final⟩

def emissions (draft : Draft) : List (List Token) → List Emission
  | [] => []
  | line :: rest =>
    emittedFrom (Cursor.ofTokens line).final draft line ++ (draft.line line).emissions rest

end Draft

def Expansion.emissions (expansion : Expansion) (origin : UInt16) : List Emission :=
  (Draft.start origin).emissions (Token.lines expansion.tokens)

/-! ### Steps of the encode pass -/

/-- One change of a draft and what it emits. -/
inductive Draft.Step (draft : Draft) : List Emission → Draft → Prop
  | skip : Step draft [] draft
  | define {symbol : Symbol} {symbols : Symbols}
      (taken : draft.symbols.define symbol = .ok symbols) : Step draft [] { draft with symbols }
  | report {diagnostic : Diagnostic} (known : diagnostic.isUnresolved = false) :
      Step draft [] (draft.report diagnostic)
  | emit {head : Token} {cursor after : Cursor} {statement : Statement}
      (read : Statement.parse draft.symbols head cursor = (.ok statement, after))
      (fits : draft.limit statement.encoding ≤ Address.space) :
      Step draft [⟨head, draft.code.size, statement.encoding⟩]
        (draft.emit head statement.encoding)

inductive Draft.Steps : Draft → List Emission → Draft → Prop
  | done (draft : Draft) : Steps draft [] draft
  | step {draft middle after : Draft} {emissions more : List Emission}
      (first : Step draft emissions middle) (rest : Steps middle more after) :
      Steps draft (emissions ++ more) after

namespace Draft

theorem Step.steps {draft after : Draft} {emissions : List Emission}
    (step : Step draft emissions after) : Steps draft emissions after := by
  have alone := Steps.step step (.done after)
  rwa [List.append_nil] at alone

theorem Steps.trans {draft middle after : Draft} {emissions more : List Emission}
    (first : Steps draft emissions middle) (second : Steps middle more after) :
    Steps draft (emissions ++ more) after := by
  induction first with
  | done draft => exact second
  | step change rest induction =>
    rw [List.append_assoc]
    exact .step change (induction second)

/-- What every step preserves, with the list of emissions so far, holds at the end of a run. -/
theorem Steps.invariant (holds : Draft → List Emission → Prop)
    (preserved : ∀ draft after emissions more, Step draft more after → holds draft emissions →
      holds after (emissions ++ more))
    {draft after : Draft} {more : List Emission} (steps : Steps draft more after)
    {emissions : List Emission} (initial : holds draft emissions) :
    holds after (emissions ++ more) := by
  induction steps generalizing emissions with
  | done draft => rwa [List.append_nil]
  | step change rest induction =>
    rw [← List.append_assoc]
    exact induction (preserved _ _ _ _ change initial)

theorem Steps.preserves (holds : Draft → Prop)
    (preserved : ∀ draft after emissions, Step draft emissions after → holds draft → holds after)
    {draft after : Draft} {emissions : List Emission} (steps : Steps draft emissions after)
    (initial : holds draft) : holds after :=
  @invariant (fun draft _ => holds draft) (fun draft after _ more => preserved draft after more)
    draft after emissions steps [] initial

theorem label_step (draft : Draft) (token : Token) (name : String) :
    Step draft [] (draft.label token name) := by
  unfold label
  split
  · next symbols taken => exact .define taken
  · next cause refused =>
    rw [Symbols.define_error refused]
    exact .report rfl

theorem statement_step {draft after : Draft} {head : Token} {cursor : Cursor}
    (accepted : draft.statement head cursor = .ok after) :
    Step draft (draft.emitted head cursor) after := by
  unfold emitted
  rw [accepted]
  by_cases bad : head.IsBad
  · obtain ⟨text, kind⟩ := bad
    simp only [statement, kind] at accepted
    cases accepted
    simp only [Statement.parse, kind]
    exact .skip
  · have takes : draft.Takes ⟨head :: cursor.ahead, cursor.final⟩ after :=
      takes_iff.mpr ⟨accepted, bad⟩
    cases takes with
    | constant kind read ends fresh =>
      have name : head.kind = .atName _ := kind
      simp only [Statement.parse, name]
      exact .define (Symbols.define_of_fresh fresh)
    | code read ends fits appends =>
      rw [show Statement.parse draft.symbols head cursor = _ from read, (appends_iff read).mp appends]
      exact .emit read fits

theorem try_statement_step (draft : Draft) (head : Token) (cursor : Cursor) :
    Step draft (draft.emitted head cursor) (draft.tryStatement head cursor) := by
  unfold tryStatement
  split
  · next after accepted => exact statement_step accepted
  · next diagnostic refused =>
    have nothing : draft.emitted head cursor = [] := by
      unfold emitted
      rw [refused]
    rw [nothing]
    split
    · exact .skip
    · exact .report (statement_known refused)

theorem line_from_steps (final : Position) (draft : Draft) (tokens : List Token) :
    Steps draft (draft.emittedFrom final tokens) (draft.lineFrom final tokens) := by
  induction tokens generalizing draft with
  | nil => exact .done draft
  | cons token rest induction =>
    cases kind : token.kind with
    | newLine =>
      simp only [lineFrom, emittedFrom, kind]
      exact .done draft
    | label name =>
      simp only [lineFrom, emittedFrom, kind]
      exact .step (draft.label_step token name) (induction _)
    | _ =>
      simp only [lineFrom, emittedFrom, kind]
      exact (draft.try_statement_step token _).steps

/-- A run is made of the steps that its lines take. -/
theorem foldl_line_steps (draft : Draft) (lines : List (List Token)) :
    Steps draft (draft.emissions lines) (lines.foldl line draft) := by
  induction lines generalizing draft with
  | nil => exact .done draft
  | cons line rest induction => exact (draft.line_from_steps _ line).trans (induction _)

end Draft

/-! ### What a draft holds -/

/-- A draft holds the bytes of its emissions, and placeholders where they wait for labels. -/
structure Draft.Holds (draft : Draft) (emissions : List Emission) : Prop where
  patches : draft.patches.toList = (Emission.allFixups emissions).map (Reference.patch draft.origin)
  lines : draft.lines.toList = emissions.map (Emission.line draft.origin)
  size : draft.code.size = (Emission.allBytes emissions).length
  reserved : Reserves (Reference.placeholder draft.origin) draft.code.toList
    (Emission.allFixups emissions)
  kept : ∀ index, (∀ fixup ∈ Emission.allFixups emissions, ¬ fixup.Covers index) →
    draft.code.toList[index]? = (Emission.allBytes emissions)[index]?

/-- Code that is added behind other code brings its places with it. -/
theorem Reserves.append {content : Reference → List UInt8} {code added : List UInt8}
    {fixups references : List Reference}
    (size : ∀ reference, (content reference).length = reference.width.size)
    (before : Reserves content code fixups)
    (behind : Reserves (fun reference => content (reference.moved code.length)) added references) :
    Reserves content (code ++ added) (fixups ++ references.map (Reference.moved code.length)) := by
  refine ⟨fun fixup member => ?_, List.pairwise_append.mpr ⟨before.apart, ?_, ?_⟩⟩
  · rcases List.mem_append.mp member with old | new
    · exact (before.held fixup old).append_right added
    · obtain ⟨reference, found, rfl⟩ := List.mem_map.mp new
      exact (behind.held reference found).append_left code
  · refine List.pairwise_map.mpr (behind.apart.imp fun ordered => ?_)
    simp only [Reference.moved]
    omega
  · intro fixup old moved new
    obtain ⟨reference, -, rfl⟩ := List.mem_map.mp new
    have inside := before.inside size old
    simp only [Reference.moved]
    omega

namespace Draft

theorem Holds.start (origin : UInt16) : (Draft.start origin).Holds [] :=
  ⟨rfl, rfl, rfl, reserves_nil _ _, fun _ _ => rfl⟩

theorem Holds.emit {draft : Draft} {emissions : List Emission} (holds : draft.Holds emissions)
    (head : Token) {encoding : Encoding}
    (zeros : Reserves Reference.zeros encoding.bytes encoding.references) :
    (draft.emit head encoding).Holds (emissions ++ [⟨head, draft.code.size, encoding⟩]) := by
  have replaces := Reference.replaces_zeros draft.origin draft.code.size
  have fixups : Emission.allFixups (emissions ++ [⟨head, draft.code.size, encoding⟩]) =
      Emission.allFixups emissions ++ encoding.references.map (Reference.moved draft.code.size) := by
    simp [Emission.allFixups, Emission.fixups]
  have bytes : Emission.allBytes (emissions ++ [⟨head, draft.code.size, encoding⟩]) =
      Emission.allBytes emissions ++ encoding.bytes := by
    simp [Emission.allBytes]
  have size : draft.code.size = draft.code.toList.length := Array.length_toList.symm
  refine ⟨?_, ?_, ?_, ?_, ?_⟩
  · rw [fixups, List.map_append, List.map_map]
    simp only [Draft.emit, Array.toList_appendList, holds.patches]
    congr 2
    funext reference
    exact (reference.patch_moved _ _).symm
  · simp [Draft.emit, holds.lines, Emission.line]
  · rw [size_emit, bytes, List.length_append, holds.size]
  · rw [code_emit, fixups, size]
    refine holds.reserved.append (Reference.length_placeholder _) ?_
    rw [← size]
    exact replaces.foldl_reserves zeros
  · intro index outside
    rw [fixups] at outside
    obtain ⟨old, new⟩ := List.forall_mem_append.mp outside
    rw [code_emit, bytes]
    by_cases inside : index < draft.code.size
    · rw [List.getElem?_append_left (by omega), List.getElem?_append_left (by rw [← holds.size]; omega),
        holds.kept index old]
    · rw [List.getElem?_append_right (by omega),
        List.getElem?_append_right (by rw [← holds.size]; omega), ← holds.size, ← size]
      refine replaces.foldl_elsewhere (fun reference member covers => ?_) _
      refine new _ (List.mem_map_of_mem member) ?_
      simp only [Reference.Covers, Reference.moved] at covers ⊢
      omega

theorem Holds.step {draft after : Draft} {emissions more : List Emission}
    (step : Step draft more after) (holds : draft.Holds emissions) :
    after.Holds (emissions ++ more) := by
  cases step with
  | skip => rwa [List.append_nil]
  | define taken | report known =>
    rw [List.append_nil]
    exact ⟨holds.patches, holds.lines, holds.size, holds.reserved, holds.kept⟩
  | emit read fits => exact holds.emit _ (Statement.encoding_reserves read)

end Draft

theorem Draft.Step.origin_eq {draft after : Draft} {emissions : List Emission}
    (step : Step draft emissions after) : after.origin = draft.origin := by
  cases step <;> rfl

theorem Draft.Step.known {draft after : Draft} {emissions : List Emission}
    (step : Step draft emissions after)
    (before : ∀ diagnostic ∈ draft.diagnostics, diagnostic.isUnresolved = false) :
    ∀ diagnostic ∈ after.diagnostics, diagnostic.isUnresolved = false := by
  cases step with
  | skip | define taken | emit read fits => exact before
  | report known =>
    intro diagnostic member
    rcases Array.mem_push.mp member with old | rfl
    · exact before diagnostic old
    · exact known

namespace Draft

theorem Step.complaining {draft after : Draft} {emissions : List Emission}
    (step : Step draft emissions after) (complaints : draft.diagnostics ≠ #[]) :
    after.diagnostics ≠ #[] := by
  cases step with
  | skip | define taken | emit read fits => exact complaints
  | report known => simp [Draft.report]

/-- A run that ends without complaints has none on the way. -/
theorem Steps.clean {draft after : Draft} {emissions : List Emission}
    (steps : Steps draft emissions after) (clean : after.diagnostics = #[]) :
    draft.diagnostics = #[] := by
  by_cases complaints : draft.diagnostics = #[]
  · exact complaints
  · exact absurd clean (steps.preserves (fun draft => draft.diagnostics ≠ #[])
      (fun _ _ _ step before => step.complaining before) complaints)

end Draft

namespace Expansion

variable (expansion : Expansion) (origin : UInt16)

theorem draft_steps :
    Draft.Steps (.start origin) (expansion.emissions origin) (expansion.draft origin) := by
  rw [draft_eq_foldl]
  exact (Draft.start origin).foldl_line_steps (Token.lines expansion.tokens)

/-- The draft of a source holds exactly what the encode pass emits for it. -/
theorem draft_holds : (expansion.draft origin).Holds (expansion.emissions origin) :=
  (expansion.draft_steps origin).invariant Draft.Holds (fun _ _ _ _ step holds => holds.step step)
    (Draft.Holds.start origin)

theorem draft_origin : (expansion.draft origin).origin = origin :=
  (expansion.draft_steps origin).preserves (fun draft => draft.origin = origin)
    (fun _ _ _ step same => step.origin_eq.trans same) rfl

theorem draft_known :
    ∀ diagnostic ∈ (expansion.draft origin).diagnostics, diagnostic.isUnresolved = false :=
  (expansion.draft_steps origin).preserves
    (fun draft => ∀ diagnostic ∈ draft.diagnostics, diagnostic.isUnresolved = false)
    (fun _ _ _ step before => step.known before) (by simp [Draft.start])

end Expansion

end Z80Toolchain
