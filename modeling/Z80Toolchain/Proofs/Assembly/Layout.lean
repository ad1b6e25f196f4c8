import Z80Toolchain.Proofs.Assembly.Patching

/-!
The layout of the code. The lines of an assembly cover its code one after another, in the order of
the source, and every label stands for the last byte of the lines before its own. The invariant is
carried from source line to source line: a line can be emitted only behind all labels so far, and a
label is defined only behind all lines so far.

The end of every line is below the end of memory as a number of 32 bits. So the code is, unless one
line of it is about 2 GiB long: the end of such a line counts as negative, and it is not refused.
-/
namespace Z80Toolchain

/-! ### Lines of code -/

namespace Line

def length (line : Line) : Nat :=
  line.stop - line.start

/-- From this length on, the end of a line can count as negative: 2 GiB, less all addresses. -/
def vast : Nat := 2147418112

/-- The ranges of the lines follow one another from an offset to another. -/
def Tile : Nat → List Line → Nat → Prop
  | start, [], stop => start = stop
  | start, line :: rest, stop => line.start = start ∧ start ≤ line.stop ∧ Tile line.stop rest stop

def lengthBefore (number : Nat) : List Line → Nat
  | [] => 0
  | line :: rest => (if line.line < number then line.length else 0) + lengthBefore number rest

theorem Tile.append {start middle : Nat} {lines : List Line} (tile : Tile start lines middle)
    {line : Line} (first : line.start = middle) (forwards : middle ≤ line.stop) :
    Tile start (lines ++ [line]) line.stop := by
  induction lines generalizing start with
  | nil =>
    cases tile
    exact ⟨first, forwards, rfl⟩
  | cons other lines induction =>
    obtain ⟨here, up, later⟩ := tile
    exact ⟨here, up, induction later⟩

theorem Tile.le {start stop : Nat} {lines : List Line} (tile : Tile start lines stop) :
    start ≤ stop := by
  induction lines generalizing start with
  | nil => exact Nat.le_of_eq tile
  | cons line lines induction => exact Nat.le_trans tile.2.1 (induction tile.2.2)

theorem Tile.stop_le {start stop : Nat} {lines : List Line} (tile : Tile start lines stop) :
    ∀ line ∈ lines, line.stop ≤ stop := by
  induction lines generalizing start with
  | nil => simp
  | cons line lines induction =>
    exact List.forall_mem_cons.mpr ⟨Tile.le tile.2.2, induction tile.2.2⟩

theorem Tile.start_le_stop {start stop : Nat} {lines : List Line} (tile : Tile start lines stop) :
    ∀ line ∈ lines, line.start ≤ line.stop := by
  induction lines generalizing start with
  | nil => simp
  | cons line lines induction =>
    obtain ⟨rfl, up, later⟩ := tile
    exact List.forall_mem_cons.mpr ⟨up, induction later⟩

theorem Tile.length_before {start stop number : Nat} {lines : List Line}
    (tile : Tile start lines stop) (below : ∀ line ∈ lines, line.line < number) :
    start + Line.lengthBefore number lines = stop := by
  induction lines generalizing start with
  | nil =>
    cases tile
    rfl
  | cons line lines induction =>
    obtain ⟨rfl, up, later⟩ := tile
    obtain ⟨here, others⟩ := List.forall_mem_cons.mp below
    have rest := induction later others
    simp only [Line.lengthBefore, if_pos here, length]
    omega

theorem Tile.length_before_le {start stop : Nat} {lines : List Line} (tile : Tile start lines stop)
    (number : Nat) : start + Line.lengthBefore number lines ≤ stop := by
  induction lines generalizing start with
  | nil =>
    cases tile
    exact Nat.le_refl _
  | cons line lines induction =>
    obtain ⟨rfl, up, later⟩ := tile
    have rest := induction later
    simp only [Line.lengthBefore, length]
    split <;> omega

/-- Short lines whose ends are below the end of memory in 32 bits are below it. -/
theorem Tile.fits {origin start stop : Nat} {lines : List Line} (tile : Tile start lines stop)
    (room : origin + start ≤ Address.space)
    (ended : ∀ line ∈ lines, Address.wrapped (origin + line.stop) ≤ Address.space)
    (modest : ∀ line ∈ lines, line.length < vast) : origin + stop ≤ Address.space := by
  induction lines generalizing start with
  | nil =>
    cases tile
    exact room
  | cons line lines induction =>
    obtain ⟨rfl, up, later⟩ := tile
    obtain ⟨here, endedLater⟩ := List.forall_mem_cons.mp ended
    obtain ⟨short, modestLater⟩ := List.forall_mem_cons.mp modest
    refine induction later ?_ endedLater modestLater
    simp only [length, vast, Address.space] at short room
    rw [Address.wrapped_of_fits (by omega) (by omega)] at here
    exact Int.ofNat_le.mp here

theorem length_before_append {number : Nat} (lines : List Line) {line : Line}
    (behind : number ≤ line.line) :
    lengthBefore number (lines ++ [line]) = lengthBefore number lines := by
  induction lines with
  | nil => simp [lengthBefore, Nat.not_lt.mpr behind]
  | cons other lines induction => simp only [List.cons_append, lengthBefore, induction]

end Line

/-! ### The invariant -/

/-- The symbol is the first of these labels that bears its name. -/
def Symbol.IsFirst (symbol : Symbol) (labels : List Token) : Prop :=
  ∃ before token after, labels = before ++ token :: after ∧ token.kind = .label symbol.name ∧
    token.position = symbol.position ∧ ∀ other ∈ before, other.kind ≠ .label symbol.name

theorem Symbol.IsFirst.append {symbol : Symbol} {labels : List Token} (first : symbol.IsFirst labels)
    (more : List Token) : symbol.IsFirst (labels ++ more) := by
  obtain ⟨before, token, after, rfl, kind, placed, apart⟩ := first
  exact ⟨before, token, after ++ more, by simp, kind, placed, apart⟩

/-- The layout of a draft whose lines are in front of source line `low` and whose labels, the first
of `labels` that bear their names, are in front of source line `high`. -/
structure Draft.LaidOut (draft : Draft) (labels : List Token) (low high : Nat) : Prop where
  ended : ∀ line ∈ draft.lines.toList,
    Address.wrapped (draft.origin.toNat + line.stop) ≤ Address.space
  tile : Line.Tile 0 draft.lines.toList draft.code.size
  ordered : draft.lines.toList.Pairwise fun first second => first.line < second.line
  below : ∀ line ∈ draft.lines.toList, line.line < low
  addressed : ∀ line ∈ draft.lines.toList,
    line.address = UInt16.ofNat (draft.origin.toNat + line.start)
  values : ∀ symbol ∈ draft.symbols.entries, symbol.kind = .label →
    symbol.position.line < high ∧ symbol.IsFirst labels ∧
      symbol.value = Address.wrapped
        (draft.origin.toNat - 1 + Line.lengthBefore symbol.position.line draft.lines.toList)
  known : ∀ token ∈ labels, ∀ name, token.kind = .label name → draft.symbols.find? name ≠ none

namespace Draft

theorem laid_out_start (origin : UInt16) : (start origin).LaidOut [] 0 0 := by
  constructor
  · simp [start]
  · rfl
  · exact .nil
  · simp [start]
  · simp [start]
  · simp [start, Symbols.empty]
  · simp

theorem LaidOut.weaken {draft : Draft} {labels : List Token} {low high : Nat}
    (laidOut : draft.LaidOut labels low high) {line label : Nat} (above : low ≤ line)
    (aboveLabel : high ≤ label) : draft.LaidOut labels line label := by
  refine { laidOut with below := ?_, values := ?_ }
  · intro other member
    exact Nat.lt_of_lt_of_le (laidOut.below other member) above
  · intro symbol member kind
    obtain ⟨before, rest⟩ := laidOut.values symbol member kind
    exact ⟨Nat.lt_of_lt_of_le before aboveLabel, rest⟩

/-- A complaint moves nothing. -/
theorem LaidOut.report {draft : Draft} {labels : List Token} {low high : Nat}
    (laidOut : draft.LaidOut labels low high) (diagnostic : Diagnostic) :
    (draft.report diagnostic).LaidOut labels low high :=
  ⟨laidOut.ended, laidOut.tile, laidOut.ordered, laidOut.below, laidOut.addressed, laidOut.values,
    laidOut.known⟩

end Draft

theorem Symbols.find?_append_ne_none {symbols : Symbols} {name : String}
    (found : symbols.find? name ≠ none) (more : List Symbol) :
    Symbols.find? ⟨symbols.entries ++ more⟩ name ≠ none := by
  unfold find? at found ⊢
  rw [List.find?_append]
  cases here : symbols.entries.find? (·.name == name) with
  | none => exact absurd here found
  | some symbol => simp

namespace Draft

variable {draft after : Draft} {labels : List Token} {number : Nat}

/-- A symbol is added behind those that are there, with the labels that have been seen since. -/
theorem LaidOut.with_symbol {low high : Nat} (laidOut : draft.LaidOut labels low high)
    {symbol : Symbol} {more : List Token}
    (fine : symbol.kind = .label → symbol.position.line < high ∧ symbol.IsFirst (labels ++ more) ∧
      symbol.value = Address.wrapped
        (draft.origin.toNat - 1 + Line.lengthBefore symbol.position.line draft.lines.toList))
    (named : ∀ token ∈ more, token.kind = .label symbol.name) :
    (draft.withSymbol symbol).LaidOut (labels ++ more) low high := by
  refine ⟨laidOut.ended, laidOut.tile, laidOut.ordered, laidOut.below, laidOut.addressed, ?_, ?_⟩
  · intro other member kind
    rcases List.mem_append.mp member with old | new
    · obtain ⟨before, first, value⟩ := laidOut.values other old kind
      exact ⟨before, first.append more, value⟩
    · obtain rfl := List.mem_singleton.mp new
      exact fine kind
  · intro token member name kind
    rcases List.mem_append.mp member with old | new
    · exact Symbols.find?_append_ne_none (laidOut.known token old name kind) [symbol]
    · have same : symbol.name = name := by
        simpa [kind, eq_comm] using named token new
      simp [Draft.withSymbol, Symbols.find?, List.find?_append, same]

theorem LaidOut.label (laidOut : draft.LaidOut labels number (number + 1)) {token : Token}
    {name : String} (kind : token.kind = .label name) (here : token.position.line = number)
    (fresh : draft.symbols.find? name = none) :
    (draft.withSymbol ⟨name, .label, Address.wrapped (draft.address - 1), token.position⟩).LaidOut
      (labels ++ [token]) number (number + 1) := by
  apply laidOut.with_symbol
  · intro _
    have size := laidOut.tile.length_before laidOut.below
    refine ⟨by simp [here], ?_, ?_⟩
    · refine ⟨labels, token, [], rfl, kind, rfl, ?_⟩
      intro other member same
      exact laidOut.known other member name same fresh
    · have turns := Address.dvd_sub_wrapped (draft.origin.toNat + draft.code.size)
      dsimp only
      rw [here, address, Address.of_offset_eq]
      exact Address.wrapped_congr (by omega)
  · simpa using kind

theorem LaidOut.labelled {tokens : List Token} (defined : draft.Labels tokens after)
    (here : ∀ token ∈ tokens, token.position.line = number)
    (laidOut : draft.LaidOut labels number (number + 1)) :
    after.LaidOut (labels ++ tokens) number (number + 1) := by
  induction defined generalizing labels with
  | nil draft => rwa [List.append_nil]
  | @define draft after token name rest kind fresh later induction =>
    obtain ⟨first, others⟩ := List.forall_mem_cons.mp here
    have step := induction others (laidOut.label kind first fresh)
    rwa [List.append_assoc, List.singleton_append] at step
  | @report draft after token name rest kind taken later induction =>
    obtain ⟨first, others⟩ := List.forall_mem_cons.mp here
    have seen : draft.LaidOut (labels ++ [token]) number (number + 1) := by
      refine { laidOut with values := ?_, known := ?_ }
      · intro symbol member label
        obtain ⟨before, isFirst, value⟩ := laidOut.values symbol member label
        exact ⟨before, isFirst.append [token], value⟩
      · intro other member word same
        rcases List.mem_append.mp member with old | new
        · exact laidOut.known other old word same
        · obtain rfl := List.mem_singleton.mp new
          rw [kind] at same
          cases same
          exact taken
    have step := induction others (seen.report _)
    rwa [List.append_assoc, List.singleton_append] at step

theorem LaidOut.emit (laidOut : draft.LaidOut labels number (number + 1)) {head : Token}
    (here : head.position.line = number) {encoding : Encoding}
    (fits : draft.limit encoding ≤ Address.space) :
    (draft.emit head encoding).LaidOut labels (number + 1) (number + 1) := by
  let line : Line := ⟨head.position.line, UInt16.ofNat (draft.origin.toNat + draft.code.size),
    draft.code.size, draft.code.size + encoding.bytes.length⟩
  have lines : (draft.emit head encoding).lines.toList = draft.lines.toList ++ [line] := by
    simp [Draft.emit, line]
  have size := draft.size_emit head encoding
  constructor
  · rw [lines]
    refine List.forall_mem_append.mpr ⟨laidOut.ended, List.forall_mem_singleton.mpr ?_⟩
    rwa [limit, Address.of_offset_eq] at fits
  · rw [lines, size]
    exact laidOut.tile.append rfl (Nat.le_add_right _ _)
  · rw [lines]
    refine List.pairwise_append.mpr ⟨laidOut.ordered, List.pairwise_singleton _ _, ?_⟩
    intro first member second last
    obtain rfl := List.mem_singleton.mp last
    simpa [line, here] using laidOut.below first member
  · rw [lines]
    refine List.forall_mem_append.mpr ⟨?_, by simp [line, here]⟩
    intro other member
    exact Nat.lt_succ_of_lt (laidOut.below other member)
  · rw [lines]
    exact List.forall_mem_append.mpr ⟨laidOut.addressed, by simp [line, Draft.emit]⟩
  · rw [lines]
    intro symbol member kind
    obtain ⟨before, first, value⟩ := laidOut.values symbol member kind
    refine ⟨before, first, ?_⟩
    rw [Line.length_before_append _ (by simp only [line, here]; omega)]
    exact value
  · exact laidOut.known

theorem LaidOut.effect {line : List Token} (effect : draft.Effect line after)
    (here : ∀ token ∈ line, token.position.line = number)
    (laidOut : draft.LaidOut labels number (number + 1)) :
    after.LaidOut labels (number + 1) (number + 1) := by
  have moved := laidOut.weaken (Nat.le_succ number) (Nat.le_refl (number + 1))
  cases effect with
  | taken takes sound =>
    have head := here _ takes.peek_mem
    cases takes with
    | constant kind read ends fresh =>
      rw [← List.append_nil labels]
      exact moved.with_symbol (by simp) (by simp)
    | code read ends fits appends =>
      rw [(appends_iff read).mp appends]
      exact laidOut.emit head fits
  | passed => exact moved
  | reported => exact moved.report _

theorem LaidOut.line {low : Nat} (laidOut : draft.LaidOut labels low low) {line : List Token}
    (onLine : Token.OnLine number line) (above : low ≤ number) :
    (draft.line line).LaidOut (labels ++ Token.labels line) (number + 1) (number + 1) := by
  obtain ⟨labelled, defined⟩ := draft.exists_labels (@Token.is_label_of_mem_labels line)
  have moved := laidOut.weaken above (Nat.le_succ_of_le above)
  apply LaidOut.effect (line_effect onLine.is_line defined) onLine.placed
  apply LaidOut.labelled defined _ moved
  intro token member
  exact onLine.placed token ((List.takeWhile_subset _) member)

/-- The run of all lines, by induction on the lines. -/
theorem LaidOut.foldl {low : Nat} {lines : List (List Token)} (numbered : Token.Numbered low lines)
    (laidOut : draft.LaidOut labels low low) :
    ∃ high, (lines.foldl Draft.line draft).LaidOut (labels ++ lines.flatMap Token.labels) high high := by
  induction numbered generalizing draft labels with
  | nil low => exact ⟨low, by simpa using laidOut⟩
  | @cons low number line lines above here _ induction =>
    obtain ⟨high, done⟩ := induction (laidOut.line here above)
    refine ⟨high, ?_⟩
    rwa [List.flatMap_cons, ← List.append_assoc]

end Draft

/-- The end of a statement between 2 and 4 GiB counts as negative, so it is not refused. -/
theorem Draft.append_of_vast {draft : Draft} {encoding : Encoding}
    (low : 2147483648 ≤ draft.origin.toNat + (draft.code.size + encoding.bytes.length))
    (high : draft.origin.toNat + (draft.code.size + encoding.bytes.length) < 4294967296)
    (head : Token) : draft.append head encoding = .ok (draft.emit head encoding) := by
  apply append_of_fits
  rw [limit, Address.of_offset_eq]
  have turns := Address.dvd_sub_wrapped
    (draft.origin.toNat + ((draft.code.size + encoding.bytes.length : Nat) : Int))
  have bounds := Address.wrapped_bounds
    (draft.origin.toNat + ((draft.code.size + encoding.bytes.length : Nat) : Int))
  omega

/-! ### Assemblies -/

namespace Expansion

variable (expansion : Expansion) (origin : UInt16)

theorem draft_laid_out :
    ∃ high, (expansion.draft origin).LaidOut
      ((Token.lines expansion.tokens).flatMap Token.labels) high high := by
  obtain ⟨high, laidOut⟩ := (Draft.laid_out_start origin).foldl expansion.lines_numbered
  rw [← expansion.draft_eq_foldl, List.nil_append] at laidOut
  exact ⟨high, laidOut⟩

theorem finish_size_draft :
    (expansion.finish (expansion.draft origin)).code.size = (expansion.draft origin).code.size := by
  rw [finish_size, (expansion.draft_holds origin).size]

end Expansion

/-- No line is so long that its end could count as negative. -/
def Assembly.IsModest (assembly : Assembly) : Prop :=
  ∀ line ∈ assembly.lines, line.length < Line.vast

instance (assembly : Assembly) : Decidable assembly.IsModest :=
  inferInstanceAs (Decidable (∀ line ∈ assembly.lines, line.length < Line.vast))

section

variable (origin : UInt16) (source : List Char)

theorem assemble_tile :
    Line.Tile 0 (assemble origin source).lines (assemble origin source).code.size := by
  obtain ⟨high, laidOut⟩ := (Expansion.ofSource source).draft_laid_out origin
  rw [assemble, Expansion.finish_size_draft]
  exact laidOut.tile

theorem assemble_ended : ∀ line ∈ (assemble origin source).lines,
    Address.wrapped (origin.toNat + line.stop) ≤ Address.space := by
  obtain ⟨high, laidOut⟩ := (Expansion.ofSource source).draft_laid_out origin
  have ended := laidOut.ended
  rwa [Expansion.draft_origin] at ended

theorem assemble_ordered :
    (assemble origin source).lines.Pairwise fun first second => first.line < second.line := by
  obtain ⟨high, laidOut⟩ := (Expansion.ofSource source).draft_laid_out origin
  exact laidOut.ordered

theorem assemble_addressed : ∀ line ∈ (assemble origin source).lines,
    line.address = UInt16.ofNat (origin.toNat + line.start) := by
  obtain ⟨high, laidOut⟩ := (Expansion.ofSource source).draft_laid_out origin
  have addressed := laidOut.addressed
  rwa [Expansion.draft_origin] at addressed

theorem assemble_labels : ∀ symbol ∈ (assemble origin source).symbols.entries, symbol.kind = .label →
    symbol.IsFirst ((Token.lines (Expansion.ofSource source).tokens).flatMap Token.labels) ∧
      symbol.value = Address.wrapped (origin.toNat - 1 +
        Line.lengthBefore symbol.position.line (assemble origin source).lines) := by
  intro symbol member kind
  obtain ⟨high, laidOut⟩ := (Expansion.ofSource source).draft_laid_out origin
  obtain ⟨-, first, value⟩ := laidOut.values symbol member kind
  rw [Expansion.draft_origin] at value
  exact ⟨first, value⟩

variable {origin source}

/-- No modest code reaches behind the end of memory. -/
theorem assemble_fits (modest : (assemble origin source).IsModest) :
    origin.toNat + (assemble origin source).code.size ≤ Address.space :=
  (assemble_tile origin source).fits (Nat.le_of_lt origin.toNat_lt) (assemble_ended origin source)
    modest

theorem assemble_address_exact (modest : (assemble origin source).IsModest) {line : Line}
    (member : line ∈ (assemble origin source).lines) (some : line.start < line.stop) :
    line.address.toNat = origin.toNat + line.start := by
  have fits := assemble_fits modest
  have last := (assemble_tile origin source).stop_le line member
  rw [assemble_addressed origin source line member]
  simp only [Address.space] at fits
  simp only [UInt16.toNat_ofNat']
  omega

theorem assemble_label_exact (modest : (assemble origin source).IsModest) {symbol : Symbol}
    (member : symbol ∈ (assemble origin source).symbols.entries) (kind : symbol.kind = .label) :
    symbol.value =
      origin.toNat - 1 + Line.lengthBefore symbol.position.line (assemble origin source).lines := by
  have fits := assemble_fits modest
  have inside := (assemble_tile origin source).length_before_le symbol.position.line
  simp only [Address.space] at fits
  rw [(assemble_labels origin source symbol member kind).2]
  exact Address.wrapped_of_fits (by omega) (by omega)

end

/-- The layout of an assembly with these labels in front of its statements. -/
structure Assembly.LaidOut (assembly : Assembly) (origin : UInt16) (labels : List Token) : Prop where
  ended : ∀ line ∈ assembly.lines, Address.wrapped (origin.toNat + line.stop) ≤ Address.space
  fits : assembly.IsModest → origin.toNat + assembly.code.size ≤ Address.space
  tile : Line.Tile 0 assembly.lines assembly.code.size
  ordered : assembly.lines.Pairwise fun first second => first.line < second.line
  addressed : ∀ line ∈ assembly.lines,
    line.address.toNat = (origin.toNat + line.start) % Address.space ∧
      (assembly.IsModest → line.start < line.stop →
        line.address.toNat = origin.toNat + line.start)
  values : ∀ symbol ∈ assembly.symbols.entries, symbol.kind = .label →
    let value : Int := origin.toNat - 1 + Line.lengthBefore symbol.position.line assembly.lines
    symbol.IsFirst labels ∧ symbol.value = Address.wrapped value ∧
      (assembly.IsModest → symbol.value = value)

end Z80Toolchain
