import Z80Toolchain.Proofs.Assembly.Growth
import Z80Toolchain.Proofs.Assembly.Patching

/-!
Nothing is dropped silently. Every statement of a source either has its effect in the assembly or
there is a complaint on its line; a line with a bad token has no effect, and its complaint is that of
the tokenizer. The complaints of all stages come in the order of their places. So without complaints
the code is that of all statements, with every label patched in.
-/
namespace Z80Toolchain

/-! ### The fate of a statement -/

namespace Assembly

/-- There is a line of code for the source line, or the variable that the statement defines. -/
def TookEffect (assembly : Assembly) (number : Nat) (line : List Token) : Prop :=
  (∃ entry ∈ assembly.lines, entry.line = number) ∨
    ∃ symbol ∈ assembly.symbols.entries, symbol.kind = .constant ∧
      ∃ head ∈ (Token.statement line).head?, head.kind = .atName symbol.name ∧
        head.position = symbol.position

structure Untouched (assembly : Assembly) (number : Nat) : Prop where
  lines : ∀ entry ∈ assembly.lines, entry.line ≠ number
  symbols : ∀ symbol ∈ assembly.symbols.entries, symbol.kind = .constant →
    symbol.position.line ≠ number

def aboutStatement (number : Nat) (diagnostics : List Diagnostic) : List Diagnostic :=
  diagnostics.filter fun diagnostic =>
    diagnostic.position.line = number && !diagnostic.redefinesLabel

/-- What became of the statement of a line. -/
inductive Fate (assembly : Assembly) (encoded : List Diagnostic) (number : Nat)
    (line : List Token) : Prop
  | took (effect : assembly.TookEffect number line) (sound : ∀ token ∈ line, ¬ token.IsBad)
  | idle (untouched : assembly.Untouched number)
      (reason : Token.statement line = [] ∨ ∃ token ∈ line, token.IsBad)
  | refused (untouched : assembly.Untouched number) {diagnostic : Diagnostic}
      (only : aboutStatement number encoded = [diagnostic])

end Assembly

theorem filter_between {α : Type} {key : α → Nat} {number : Nat} {before own later : List α}
    (early : ∀ item ∈ before, key item < number) (late : ∀ item ∈ later, number < key item)
    (fine : α → Bool) :
    (before ++ own ++ later).filter (fun item => key item = number && fine item) =
      own.filter fun item => key item = number && fine item := by
  have nothing {items : List α} (apart : ∀ item ∈ items, key item ≠ number) :
      items.filter (fun item => key item = number && fine item) = [] := by
    apply List.filter_eq_nil_iff.mpr
    intro item member
    simp [apart item member]
  rw [List.filter_append, List.filter_append, nothing fun item member => Nat.ne_of_lt (early item member),
    nothing fun item member => Nat.ne_of_gt (late item member)]
  simp

namespace Draft

section

variable {origin : UInt16} {number : Nat} {before labelled after final : Draft}
  {tokens : List Token} (early : Growth (· < number) (start origin) before)
  (defined : before.Labels tokens labelled) (late : Growth (number < ·) after final)

include early late

theorem lines_apart (same : after.lines = before.lines) :
    ∀ entry ∈ final.lines.toList, entry.line ≠ number := by
  obtain ⟨old, foundOld, below⟩ := early.lines
  obtain ⟨new, foundNew, above⟩ := late.lines
  rw [foundNew, same, foundOld]
  intro entry member
  rcases List.mem_append.mp member with first | second
  · exact Nat.ne_of_lt (below entry first)
  · exact Nat.ne_of_gt (above entry second)

include defined

theorem constants_apart (same : after.symbols = labelled.symbols) :
    ∀ symbol ∈ final.symbols.entries, symbol.kind = .constant → symbol.position.line ≠ number := by
  obtain ⟨-, ⟨own, foundOwn, labels⟩, -⟩ := defined.added
  obtain ⟨old, foundOld, below⟩ := early.symbols
  obtain ⟨new, foundNew, above⟩ := late.symbols
  rw [foundNew, same, foundOwn, foundOld]
  intro symbol member constant
  rcases List.mem_append.mp member with first | second
  · rcases List.mem_append.mp first with oldest | label
    · exact Nat.ne_of_lt (below symbol oldest)
    · simp [labels symbol label] at constant
  · exact Nat.ne_of_gt (above symbol second)

theorem about_statement_of_reported {diagnostic : Diagnostic} (here : diagnostic.position.line = number)
    (other : diagnostic.redefinesLabel = false) (same : after = labelled.report diagnostic) :
    Assembly.aboutStatement number final.diagnostics.toList = [diagnostic] := by
  obtain ⟨-, -, own, foundOwn, labels⟩ := defined.added
  obtain ⟨old, foundOld, below⟩ := early.diagnostics
  obtain ⟨new, foundNew, above⟩ := late.diagnostics
  have whole : final.diagnostics.toList = old ++ (own ++ [diagnostic]) ++ new := by
    rw [foundNew, same, report, Array.toList_push, foundOwn, foundOld]
    simp [start]
  have silent : own.filter (fun item => item.position.line = number && !item.redefinesLabel) = [] := by
    apply List.filter_eq_nil_iff.mpr
    intro item member
    simp [labels item member]
  rw [whole, Assembly.aboutStatement, filter_between below above, List.filter_append, silent]
  simp [here, other]

end

end Draft

/-- Every line of a source has its effect, or its complaint, or no statement to speak of. -/
theorem Expansion.line_fate (expansion : Expansion) (origin : UInt16) {line : List Token}
    (member : line ∈ Token.lines expansion.tokens) :
    ∃ number, Token.OnLine number line ∧ (expansion.finish (expansion.draft origin)).Fate
      (expansion.draft origin).diagnostics.toList number line := by
  obtain ⟨number, before, onLine, early, late⟩ := expansion.exists_before_line origin member
  obtain ⟨labelled, defined⟩ := before.exists_labels (@Token.is_label_of_mem_labels line)
  have effect := Draft.line_effect onLine.is_line defined
  have kept := defined.added.1
  refine ⟨number, onLine, ?_⟩
  generalize before.line line = after at effect late
  cases effect with
  | taken takes sound =>
    refine .took ?_ sound
    have head := onLine.placed _ takes.peek_mem
    have first := takes.head?_statement
    cases takes with
    | @constant name value rest kind read ends fresh =>
      obtain ⟨new, found, -⟩ := late.symbols
      let symbol : Symbol := ⟨name, .constant, value, (Cursor.behindLabels line).peek.position⟩
      have member : symbol ∈ (expansion.draft origin).symbols.entries := by
        rw [found]
        simp [Draft.withSymbol, symbol]
      exact .inr ⟨symbol, member, rfl, _, first, kind, rfl⟩
    | @code statement rest after read ends fits appends =>
      obtain ⟨new, found, -⟩ := late.lines
      let entry := Emission.line labelled.origin
        ⟨(Cursor.behindLabels line).peek, labelled.code.size, statement.encoding⟩
      have member : entry ∈ (expansion.draft origin).lines.toList := by
        rw [found, appends.lines, Array.toList_push]
        simp [entry, Emission.line]
      exact .inl ⟨entry, member, head⟩
  | passed refused idle =>
    exact .idle ⟨Draft.lines_apart early late kept, Draft.constants_apart early defined late rfl⟩ idle
  | @reported diagnostic refused place other first =>
    obtain ⟨token, inside, same⟩ := place
    have here : diagnostic.position.line = number := by
      rw [same]
      exact onLine.placed token inside
    have untouched : (expansion.finish (expansion.draft origin)).Untouched number :=
      ⟨Draft.lines_apart early late kept, Draft.constants_apart early defined late rfl⟩
    exact .refused untouched (Draft.about_statement_of_reported early defined late here other rfl)

/-! ### The complaints of the encode pass -/

namespace Draft

def raisedFrom (final : Position) (draft : Draft) : List Token → List Diagnostic
  | [] => []
  | token :: rest =>
    match token.kind with
    | .newLine => []
    | .label name =>
      (match draft.symbols.find? name with
        | some _ => [.atToken token (.redefinedSymbol name)]
        | none => []) ++ raisedFrom final (draft.label token name) rest
    | _ =>
      match draft.statement token ⟨rest, final⟩ with
      | .ok _ => []
      | .error diagnostic => [diagnostic]

def raised (draft : Draft) : List (List Token) → List Diagnostic
  | [] => []
  | line :: rest => raisedFrom (Cursor.ofTokens line).final draft line ++ (draft.line line).raised rest

theorem try_statement_diagnostics (draft : Draft) (head : Token) (cursor : Cursor) :
    (draft.tryStatement head cursor).diagnostics.toList = draft.diagnostics.toList ++
      (match draft.statement head cursor with
        | .ok _ => []
        | .error diagnostic => [diagnostic]).filter fun diagnostic => !diagnostic.isFollowUp := by
  unfold tryStatement
  cases found : draft.statement head cursor with
  | ok after => simp [diagnostics_of_accepted found]
  | error diagnostic =>
    by_cases followUp : diagnostic.isFollowUp = true
    · simp [followUp]
    · simp [followUp, report]

theorem line_from_diagnostics (final : Position) (draft : Draft) (tokens : List Token) :
    (draft.lineFrom final tokens).diagnostics.toList = draft.diagnostics.toList ++
      (draft.raisedFrom final tokens).filter fun diagnostic => !diagnostic.isFollowUp := by
  induction tokens generalizing draft with
  | nil => simp [lineFrom, raisedFrom]
  | cons token rest induction =>
    cases kind : token.kind with
    | newLine => simp [lineFrom, raisedFrom, kind]
    | label name =>
      simp only [lineFrom, raisedFrom, kind]
      rw [induction, List.filter_append, ← List.append_assoc]
      congr 1
      by_cases fresh : draft.symbols.find? name = none
      · simp [label_of_fresh fresh, fresh, withSymbol]
      · obtain ⟨symbol, found⟩ := Option.ne_none_iff_exists'.mp fresh
        simp [label_of_taken fresh, found, report, Diagnostic.isFollowUp, Diagnostic.atToken, kind]
    | _ =>
      simp only [lineFrom, raisedFrom, kind]
      exact draft.try_statement_diagnostics token _

theorem foldl_diagnostics (draft : Draft) (lines : List (List Token)) :
    (lines.foldl line draft).diagnostics.toList = draft.diagnostics.toList ++
      (draft.raised lines).filter fun diagnostic => !diagnostic.isFollowUp := by
  induction lines generalizing draft with
  | nil => simp [raised]
  | cons tokens lines induction =>
    have first := line_from_diagnostics (Cursor.ofTokens tokens).final draft tokens
    rw [List.foldl_cons, induction, raised, List.filter_append, ← List.append_assoc, ← first]
    rfl

end Draft

/-! ### The order of complaints -/

/-- In the order of places, and in the given order at each place. -/
structure IsStableSort (sorted given : List Diagnostic) : Prop where
  ordered : sorted.Pairwise fun left right => left.position.le right.position = true
  stable : ∀ position : Position, sorted.filter (fun diagnostic => diagnostic.position = position) =
    given.filter fun diagnostic => diagnostic.position = position

theorem Position.le_trans {first second third : Position} (early : first.le second = true)
    (late : second.le third = true) : first.le third = true := by
  simp only [le, Bool.or_eq_true, Bool.and_eq_true, beq_iff_eq, decide_eq_true_eq] at early late ⊢
  omega

theorem Position.le_total (first second : Position) : (first.le second || second.le first) = true := by
  simp only [le, Bool.or_eq_true, Bool.and_eq_true, beq_iff_eq, decide_eq_true_eq]
  omega

theorem is_stable_sort_merge_sort (given : List Diagnostic) :
    IsStableSort (given.mergeSort fun left right => left.position.le right.position) given := by
  have trans (first second third : Diagnostic) (early : first.position.le second.position = true)
      (late : second.position.le third.position = true) :
      first.position.le third.position = true := Position.le_trans early late
  have total (first second : Diagnostic) :
      (first.position.le second.position || second.position.le first.position) = true :=
    Position.le_total _ _
  constructor
  · exact List.pairwise_mergeSort trans total given
  · intro position
    let here (diagnostic : Diagnostic) : Bool := diagnostic.position = position
    have level : (given.filter here).Pairwise
        fun left right => left.position.le right.position = true := by
      apply List.pairwise_filter.mpr
      apply List.pairwise_of_forall
      intro left right first second
      have same : left.position = right.position := by
        simp only [here, decide_eq_true_eq] at first second
        rw [first, second]
      simpa [same] using Position.le_total right.position right.position
    have kept := List.sublist_mergeSort trans total level List.filter_sublist
    have inside := kept.filter here
    simp only [List.filter_filter, Bool.and_self] at inside
    have size := ((List.mergeSort_perm given fun left right =>
      left.position.le right.position).filter here).length_eq
    exact (inside.eq_of_length size.symm).symm

/-! ### Runs without complaints -/

namespace Token

def definesVariable (head : Token) : Bool :=
  match head.kind with
  | .atName _ => true
  | _ => false

def instruction? (line : List Token) : Option Token :=
  (statement line).head?.filter fun head => !head.definesVariable

end Token

namespace Draft

theorem emitted_from_labels {draft labelled : Draft} {labels : List Token}
    (defined : draft.Labels labels labelled) (final : Position) (rest : List Token) :
    draft.emittedFrom final (labels ++ rest) = labelled.emittedFrom final rest := by
  induction defined with
  | nil draft => rfl
  | define kind fresh later induction =>
    rw [List.cons_append, emittedFrom]
    simp only [kind]
    rw [label_of_fresh fresh, induction]
  | report kind taken later induction =>
    rw [List.cons_append, emittedFrom]
    simp only [kind]
    rw [label_of_taken taken, induction]

theorem emitted_from_statement (draft : Draft) {token : Token} (plain : token.kind.endsLine = false)
    (other : ∀ name, token.kind ≠ .label name) (final : Position) (rest : List Token) :
    draft.emittedFrom final (token :: rest) = draft.emitted token ⟨rest, final⟩ := by
  rw [emittedFrom]
  split
  · next feed => simp [feed, Token.Kind.endsLine] at plain
  · next name kind => exact absurd kind (other name)
  · rfl

/-- What is emitted for a statement that is accepted. -/
theorem emitted_of_takes {draft after : Draft} {cursor : Cursor} (takes : draft.Takes cursor after) :
    (draft.emitted cursor.peek cursor.skip).map Emission.head =
      ((some cursor.peek).filter fun head => !head.definesVariable).toList := by
  unfold emitted
  rw [(takes_iff.mp takes).1]
  cases takes with
  | constant kind read ends fresh =>
    simp [Statement.parse, kind, Parse.fail, Token.definesVariable, Option.filter]
  | code read ends fits =>
    have word : cursor.peek.definesVariable = false := by
      unfold Token.definesVariable
      split
      · next name kind => simp [Statement.parse, kind, Parse.fail] at read
      · rfl
    simp [read, word, Option.filter]

theorem emitted_from_heads {draft : Draft} {line : List Token} (isLine : Token.IsLine line)
    (sound : ∀ token ∈ line, ¬ token.IsBad) (clean : (draft.line line).diagnostics = #[]) :
    (draft.emittedFrom (Cursor.ofTokens line).final line).map Emission.head =
      (Token.instruction? line).toList := by
  obtain ⟨labelled, defined⟩ := draft.exists_labels (@Token.is_label_of_mem_labels line)
  have effect := line_effect isLine defined
  have opened : draft.emittedFrom (Cursor.ofTokens line).final line =
      labelled.emittedFrom (Cursor.ofTokens line).final (line.dropWhile Token.isLabel) := by
    rw [← emitted_from_labels defined, Token.labels, List.takeWhile_append_dropWhile]
  rw [opened, Token.instruction?]
  generalize draft.line line = after at effect clean
  cases effect with
  | taken takes =>
    rw [takes.head?_statement, ← emitted_of_takes takes]
    cases stated : Token.statement line with
    | nil => exact absurd takes (not_takes_of_statement_nil stated after)
    | cons head body =>
      obtain ⟨⟨more, rest⟩, plain, other⟩ := Token.exists_of_statement_cons stated
      rw [Cursor.behindLabels, rest, emitted_from_statement labelled plain other]
      rfl
  | passed refused idle =>
    rcases idle with empty | ⟨token, member, bad⟩
    · have ends := Token.is_ending_of_statement_nil isLine empty
      rw [empty]
      generalize line.dropWhile Token.isLabel = rest at ends
      cases ends with
      | none => rfl
      | feed ends => simp [emittedFrom, ends]
    · exact absurd bad (sound token member)
  | reported => simp [report] at clean

/-- Without complaints every statement is emitted unless it defines a variable. -/
theorem emissions_heads {draft : Draft} {lines : List (List Token)}
    (isLine : ∀ line ∈ lines, Token.IsLine line)
    (sound : ∀ line ∈ lines, ∀ token ∈ line, ¬ token.IsBad)
    (clean : (lines.foldl line draft).diagnostics = #[]) :
    (draft.emissions lines).map Emission.head = lines.filterMap Token.instruction? := by
  induction lines generalizing draft with
  | nil => rfl
  | cons tokens lines induction =>
    obtain ⟨here, later⟩ := List.forall_mem_cons.mp isLine
    obtain ⟨soundHere, soundLater⟩ := List.forall_mem_cons.mp sound
    have cleanHere := (foldl_line_steps (draft.line tokens) lines).clean clean
    rw [emissions, List.map_append, emitted_from_heads here soundHere cleanHere,
      induction later soundLater clean, List.filterMap_cons]
    cases Token.instruction? tokens <;> rfl

end Draft

/-! ### Assemblies -/

namespace Assembly

/-- The line holds something else than labels and its line end. -/
def Stated (line : List Token) : Prop :=
  ∃ token ∈ line, token.isLabel = false ∧ token.kind ≠ .newLine

/-- What an assembly says about a line of its source. -/
structure AccountsFor (assembly : Assembly) (encoded : List Diagnostic) (number : Nat)
    (line : List Token) : Prop where
  placed : ∀ token ∈ line, token.position.line = number
  heard : Stated line → assembly.TookEffect number line ∨
    ∃ diagnostic ∈ assembly.diagnostics, diagnostic.position.line = number
  single : Stated line → (∀ token ∈ line, ¬ token.IsBad) → ¬ assembly.TookEffect number line →
    ∃ diagnostic, aboutStatement number encoded = [diagnostic]
  muted : (∃ token ∈ line, token.IsBad) → assembly.Untouched number

/-- The code is that of all statements but definitions of variables, one after another, with every
label patched in. -/
structure IsWhole (assembly : Assembly) (expansion : Expansion) (origin : UInt16) : Prop where
  stated : (expansion.emissions origin).map Emission.head =
    (Token.lines expansion.tokens).filterMap Token.instruction?
  size : assembly.code.size = (Emission.allBytes (expansion.emissions origin)).length
  patched : ∀ fixup ∈ expansion.fixups origin, ∃ bytes,
    fixup.resolution origin assembly.symbols = .ok bytes ∧
      StandsAt assembly.code.toList fixup.offset bytes
  kept : ∀ index, (∀ fixup ∈ expansion.fixups origin, ¬ fixup.Covers index) →
    assembly.code.toList[index]? = (Emission.allBytes (expansion.emissions origin))[index]?

end Assembly

namespace Expansion

variable (expansion : Expansion) (origin : UInt16)

/-- The complaints of the encode pass, without those that only follow from a bad token. -/
def encoded : List Diagnostic :=
  ((Draft.start origin).raised (Token.lines expansion.tokens)).filter fun diagnostic =>
    !diagnostic.isFollowUp

theorem draft_diagnostics :
    (expansion.draft origin).diagnostics.toList = expansion.encoded origin := by
  rw [draft_eq_foldl, Draft.foldl_diagnostics]
  rfl

theorem finish_is_stable_sort :
    IsStableSort (expansion.finish (expansion.draft origin)).diagnostics
      (expansion.diagnostics ++ expansion.lexicalFaults ++ expansion.encoded origin ++
        (expansion.fixups origin).filterMap
          (Reference.complaint? origin (expansion.draft origin).symbols)) := by
  rw [← draft_diagnostics, ← resolve_diagnostics]
  exact is_stable_sort_merge_sort _

theorem finish_whole (clean : (expansion.finish (expansion.draft origin)).diagnostics = []) :
    (expansion.finish (expansion.draft origin)).IsWhole expansion origin := by
  obtain ⟨encoded, resolved⟩ := expansion.clean_of_finish origin clean
  have all := expansion.finish_diagnostics origin
  rw [clean] at all
  have lexed : expansion.lexicalFaults = [] := by
    have before := (List.append_eq_nil_iff.mp all.nil_eq.symm).1
    exact (List.append_eq_nil_iff.mp (List.append_eq_nil_iff.mp before).1).2
  refine ⟨?_, expansion.finish_size origin, ?_, fun _ => expansion.finish_kept origin⟩
  · rw [draft_eq_foldl] at encoded
    apply Draft.emissions_heads _ _ encoded
    · intro line member
      obtain ⟨number, -, onLine⟩ := expansion.lines_numbered.forall_on_line line member
      exact onLine.is_line
    · rintro line member token inside ⟨text, bad⟩
      have present := Token.mem_of_mem_lines member inside
      obtain ⟨fault, found, -⟩ := expansion.exists_lexical_fault present bad
      simp [lexed] at found
  · intro fixup member
    obtain ⟨bytes, found⟩ := resolved fixup member
    have stands := (expansion.finish_reserves origin).held fixup member
    simp only [Reference.final, found] at stands
    exact ⟨bytes, found, stands⟩

theorem mem_finish_of_mem_lexical_faults {diagnostic : Diagnostic}
    (member : diagnostic ∈ expansion.lexicalFaults) :
    diagnostic ∈ (expansion.finish (expansion.draft origin)).diagnostics := by
  apply (expansion.finish_diagnostics origin).mem_iff.mpr
  simp [member]

theorem mem_finish_of_mem_draft {diagnostic : Diagnostic}
    (member : diagnostic ∈ (expansion.draft origin).diagnostics.toList) :
    diagnostic ∈ (expansion.finish (expansion.draft origin)).diagnostics := by
  apply (expansion.finish_diagnostics origin).mem_iff.mpr
  exact List.mem_append_left _ (List.mem_append_right _ member)

end Expansion

theorem Assembly.Stated.statement_ne_nil {line : List Token} (stated : Stated line)
    (isLine : Token.IsLine line) : Token.statement line ≠ [] := by
  intro empty
  obtain ⟨token, member, unlabelled, other⟩ := stated
  have ends := Token.is_ending_of_statement_nil isLine empty
  rw [← @List.takeWhile_append_dropWhile _ Token.isLabel line] at member
  rcases List.mem_append.mp member with label | last
  · simp [Token.is_label_of_mem_labels token label] at unlabelled
  · generalize line.dropWhile Token.isLabel = rest at ends last
    cases ends with
    | none => simp at last
    | feed ends =>
      obtain rfl := List.mem_singleton.mp last
      exact other ends

theorem Expansion.finish_accounts_for (expansion : Expansion) (origin : UInt16) {line : List Token}
    (member : line ∈ Token.lines expansion.tokens) :
    ∃ number, (expansion.finish (expansion.draft origin)).AccountsFor (expansion.encoded origin)
      number line := by
  obtain ⟨number, onLine, fate⟩ := expansion.line_fate origin member
  refine ⟨number, onLine.placed, ?_, ?_, ?_⟩
  · intro stated
    cases fate with
    | took effect sound => exact .inl effect
    | idle untouched reason =>
      right
      rcases reason with empty | ⟨token, inside, text, bad⟩
      · exact absurd empty (stated.statement_ne_nil onLine.is_line)
      · have present := Token.mem_of_mem_lines member inside
        obtain ⟨fault, found, same⟩ := expansion.exists_lexical_fault present bad
        refine ⟨fault, expansion.mem_finish_of_mem_lexical_faults origin found, ?_⟩
        rw [same]
        exact onLine.placed token inside
    | @refused untouched diagnostic only =>
      right
      have found := List.mem_singleton_self diagnostic
      rw [← only] at found
      obtain ⟨reported, here⟩ := List.mem_filter.mp found
      refine ⟨diagnostic, expansion.mem_finish_of_mem_draft origin reported, ?_⟩
      simp only [Bool.and_eq_true, decide_eq_true_eq] at here
      exact here.1
  · intro stated sound rejected
    cases fate with
    | took effect _ => exact absurd effect rejected
    | idle untouched reason =>
      rcases reason with empty | ⟨token, inside, bad⟩
      · exact absurd empty (stated.statement_ne_nil onLine.is_line)
      · exact absurd bad (sound token inside)
    | @refused untouched diagnostic only =>
      rw [draft_diagnostics] at only
      exact ⟨diagnostic, only⟩
  · rintro ⟨token, inside, bad⟩
    cases fate with
    | took effect sound => exact absurd bad (sound token inside)
    | idle untouched reason => exact untouched
    | refused untouched only => exact untouched

/-- What an assembly tells of its source: the fate of every line, all complaints in order, and code
for everything if there are none. -/
structure Assembly.Accounts (assembly : Assembly) (expansion : Expansion) (origin : UInt16) :
    Prop where
  lines : ∀ line ∈ Token.lines expansion.tokens,
    ∃ number, assembly.AccountsFor (expansion.encoded origin) number line
  sorted : IsStableSort assembly.diagnostics
    (expansion.diagnostics ++ expansion.lexicalFaults ++ expansion.encoded origin ++
      (expansion.fixups origin).filterMap (Reference.complaint? origin assembly.symbols))
  whole : assembly.diagnostics = [] → assembly.IsWhole expansion origin

/-- Nothing of a source is dropped silently. -/
theorem assemble_accounts (origin : UInt16) (source : List Char) :
    (assemble origin source).Accounts (Expansion.ofSource source) origin := by
  let expansion := Expansion.ofSource source
  constructor
  · intro line member
    exact expansion.finish_accounts_for origin member
  · exact expansion.finish_is_stable_sort origin
  · exact expansion.finish_whole origin

end Z80Toolchain
