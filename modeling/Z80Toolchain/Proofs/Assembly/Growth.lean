import Z80Toolchain.Proofs.Assembly.Emission

/-!
A draft only grows: lines of code, symbols and complaints are added behind those that are there, and
what a source line adds bears its number. So all that a finished draft holds for a source line comes
from the token line that stands there.
-/
namespace Z80Toolchain

/-! ### Growth -/

namespace Draft

/-- All that was added to a draft stands on source lines with these numbers. -/
structure Growth (numbers : Nat → Prop) (draft after : Draft) : Prop where
  lines : ∃ added, after.lines.toList = draft.lines.toList ++ added ∧
    ∀ line ∈ added, numbers line.line
  symbols : ∃ added, after.symbols.entries = draft.symbols.entries ++ added ∧
    ∀ symbol ∈ added, numbers symbol.position.line
  diagnostics : ∃ added, after.diagnostics.toList = draft.diagnostics.toList ++ added ∧
    ∀ diagnostic ∈ added, numbers diagnostic.position.line

section

variable {numbers : Nat → Prop}

theorem exists_nothing_added {α : Type} (items : List α) (fine : α → Prop) :
    ∃ added, items = items ++ added ∧ ∀ item ∈ added, fine item :=
  ⟨[], by simp, by simp⟩

theorem growth_refl (draft : Draft) : Growth numbers draft draft :=
  ⟨exists_nothing_added _ _, exists_nothing_added _ _, exists_nothing_added _ _⟩

theorem exists_added_trans {α : Type} {first second third : List α} {fine : α → Prop}
    (early : ∃ added, second = first ++ added ∧ ∀ item ∈ added, fine item)
    (late : ∃ added, third = second ++ added ∧ ∀ item ∈ added, fine item) :
    ∃ added, third = first ++ added ∧ ∀ item ∈ added, fine item := by
  obtain ⟨added, rfl, fineAdded⟩ := early
  obtain ⟨more, rfl, fineMore⟩ := late
  exact ⟨added ++ more, by simp, List.forall_mem_append.mpr ⟨fineAdded, fineMore⟩⟩

theorem Growth.trans {first second third : Draft} (early : Growth numbers first second)
    (late : Growth numbers second third) : Growth numbers first third :=
  ⟨exists_added_trans early.lines late.lines, exists_added_trans early.symbols late.symbols,
    exists_added_trans early.diagnostics late.diagnostics⟩

variable (draft : Draft)

theorem growth_with_symbol {symbol : Symbol} (here : numbers symbol.position.line) :
    Growth numbers draft (draft.withSymbol symbol) :=
  ⟨exists_nothing_added _ _, ⟨[symbol], rfl, by simpa using here⟩, exists_nothing_added _ _⟩

theorem growth_report {diagnostic : Diagnostic} (here : numbers diagnostic.position.line) :
    Growth numbers draft (draft.report diagnostic) :=
  ⟨exists_nothing_added _ _, exists_nothing_added _ _,
    ⟨[diagnostic], by simp [report], by simpa using here⟩⟩

theorem growth_emit {head : Token} (here : numbers head.position.line) (encoding : Encoding) :
    Growth numbers draft (draft.emit head encoding) := by
  refine ⟨⟨[Emission.line draft.origin ⟨head, draft.code.size, encoding⟩], ?_, ?_⟩,
    exists_nothing_added _ _, exists_nothing_added _ _⟩
  · exact Array.toList_push
  · simpa [Emission.line] using here

end

section

variable {draft after : Draft} {numbers : Nat → Prop}

theorem Labels.growth {tokens : List Token} (defined : draft.Labels tokens after)
    (here : ∀ token ∈ tokens, numbers token.position.line) : Growth numbers draft after := by
  induction defined with
  | nil draft => exact growth_refl draft
  | @define draft after token name rest kind fresh later induction =>
    obtain ⟨first, others⟩ := List.forall_mem_cons.mp here
    apply Growth.trans _ (induction others)
    apply growth_with_symbol
    exact first
  | @report draft after token name rest kind taken later induction =>
    obtain ⟨first, others⟩ := List.forall_mem_cons.mp here
    apply Growth.trans _ (induction others)
    apply growth_report
    exact first

theorem Effect.growth {line : List Token} (effect : draft.Effect line after)
    (here : ∀ token ∈ line, numbers token.position.line) : Growth numbers draft after := by
  cases effect with
  | taken takes sound =>
    have head := here _ takes.peek_mem
    cases takes with
    | constant => exact growth_with_symbol draft head
    | code read ends fits appends =>
      rw [(appends_iff read).mp appends]
      exact growth_emit draft head _
  | passed => exact growth_refl draft
  | reported refused place other first =>
    obtain ⟨token, member, same⟩ := place
    apply growth_report
    rw [same]
    exact here token member

theorem growth_line (draft : Draft) {number : Nat} (within : numbers number) {line : List Token}
    (onLine : Token.OnLine number line) : Growth numbers draft (draft.line line) := by
  obtain ⟨labelled, defined⟩ := draft.exists_labels (@Token.is_label_of_mem_labels line)
  have here : ∀ token ∈ line, numbers token.position.line := by
    intro token member
    rwa [onLine.placed token member]
  apply Growth.trans (defined.growth _) ((line_effect onLine.is_line defined).growth here)
  intro token member
  exact here token ((List.takeWhile_subset _) member)

theorem growth_foldl {lines : List (List Token)}
    (within : ∀ line ∈ lines, ∃ number, numbers number ∧ Token.OnLine number line) (draft : Draft) :
    Growth numbers draft (lines.foldl line draft) := by
  induction lines generalizing draft with
  | nil => exact growth_refl draft
  | cons tokens lines induction =>
    obtain ⟨⟨number, fine, onLine⟩, later⟩ := List.forall_mem_cons.mp within
    exact (growth_line draft fine onLine).trans (induction later _)

end

/-! ### What a line adds -/

/-- Labels add labels, and complaints about labels. -/
theorem Labels.added {draft labelled : Draft} {tokens : List Token}
    (defined : draft.Labels tokens labelled) :
    labelled.lines = draft.lines ∧
    (∃ added, labelled.symbols.entries = draft.symbols.entries ++ added ∧
      ∀ symbol ∈ added, symbol.kind = .label) ∧
    ∃ added, labelled.diagnostics.toList = draft.diagnostics.toList ++ added ∧
      ∀ diagnostic ∈ added, diagnostic.redefinesLabel = true := by
  induction defined with
  | nil draft => exact ⟨rfl, exists_nothing_added _ _, exists_nothing_added _ _⟩
  | define kind fresh later induction =>
    obtain ⟨lines, symbols, diagnostics⟩ := induction
    exact ⟨lines, exists_added_trans ⟨[_], rfl, by simp⟩ symbols, diagnostics⟩
  | report kind taken later induction =>
    obtain ⟨lines, symbols, diagnostics⟩ := induction
    refine ⟨lines, symbols, exists_added_trans ⟨[_], Array.toList_push, ?_⟩ diagnostics⟩
    simp [Diagnostic.redefinesLabel, Diagnostic.atToken, kind]

end Draft

namespace Token

theorem Numbered.split {low : Nat} {earlier : List (List Token)} {line : List Token}
    {later : List (List Token)} (numbered : Numbered low (earlier ++ line :: later)) :
    ∃ number, low ≤ number ∧ OnLine number line ∧
      (∀ other ∈ earlier, ∃ place, place < number ∧ OnLine place other) ∧
      ∀ other ∈ later, ∃ place, number < place ∧ OnLine place other := by
  induction earlier generalizing low with
  | nil =>
    cases numbered with
    | @cons low number _ _ above here later => exact ⟨number, above, here, by simp, later.forall_on_line⟩
  | cons first earlier induction =>
    cases numbered with
    | @cons low place _ _ above here rest =>
      obtain ⟨number, behind, onLine, before, after⟩ := induction rest
      refine ⟨number, by omega, onLine, ?_, after⟩
      exact List.forall_mem_cons.mpr ⟨⟨place, by omega, here⟩, before⟩

end Token

/-- A line of a source in the run of the encode pass: all before it is on earlier source lines, and
all behind it on later ones. -/
theorem Expansion.exists_before_line (expansion : Expansion) (origin : UInt16) {line : List Token}
    (member : line ∈ Token.lines expansion.tokens) :
    ∃ number before, Token.OnLine number line ∧
      Draft.Growth (· < number) (.start origin) before ∧
      Draft.Growth (number < ·) (before.line line) (expansion.draft origin) := by
  obtain ⟨earlier, later, found⟩ := List.append_of_mem member
  have numbered := expansion.lines_numbered
  rw [found] at numbered
  obtain ⟨number, -, onLine, before, after⟩ := numbered.split
  refine ⟨number, earlier.foldl Draft.line (.start origin), onLine, Draft.growth_foldl before _, ?_⟩
  rw [expansion.draft_eq_foldl, found, List.foldl_append, List.foldl_cons]
  exact Draft.growth_foldl after _

end Z80Toolchain
