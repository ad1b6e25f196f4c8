import Mathlib.Tactic.SplitIfs
import Z80Toolchain.Proofs.Source.SourceLines

/-!
What complaints are about. A complaint about an operand names the token at which the operand starts,
and its cause is never a symbol: an operand that waits for a label is accepted, and neither do the
stages that work on text ask for symbols. Only patching reports a symbol as unresolved.
-/
namespace Z80Toolchain

/-! ### Results -/

/-- The complaint names one of these tokens. If a symbol is the reason, it is a variable that the
token defines again. -/
def Diagnostic.Blames (scope : List Token) (diagnostic : Diagnostic) : Prop :=
  ∃ token ∈ scope, ∃ cause, diagnostic = .atToken token cause ∧
    (cause.concernsSymbol = false ∨
      ∃ name, token.kind = .atName name ∧ cause = .redefinedSymbol name)

theorem Diagnostic.is_unresolved_of_apart {diagnostic : Diagnostic}
    (apart : diagnostic.cause.concernsSymbol = false) : diagnostic.isUnresolved = false := by
  unfold Diagnostic.isUnresolved
  split
  · next name unresolved =>
    rw [unresolved] at apart
    cases apart
  · rfl

theorem Diagnostic.Blames.is_unresolved {scope : List Token} {diagnostic : Diagnostic}
    (blames : diagnostic.Blames scope) : diagnostic.isUnresolved = false := by
  obtain ⟨token, -, cause, rfl, apart | ⟨name, -, rfl⟩⟩ := blames
  · exact is_unresolved_of_apart apart
  · rfl

theorem Diagnostic.blames_at_token {scope : List Token} {token : Token} (here : token ∈ scope)
    {cause : Cause} (apart : cause.concernsSymbol = false) :
    (Diagnostic.atToken token cause).Blames scope :=
  ⟨token, here, cause, rfl, .inl apart⟩

def Blames {α : Type} (scope : List Token) (result : Except Diagnostic α) : Prop :=
  ∀ diagnostic, result = .error diagnostic → diagnostic.Blames scope

section

variable {α β : Type} {scope : List Token}

theorem blames_ok (value : α) : Blames scope (.ok value : Except Diagnostic α) := by
  intro diagnostic complaint
  cases complaint

theorem blames_error {diagnostic : Diagnostic} (blames : diagnostic.Blames scope) :
    Blames scope (.error diagnostic : Except Diagnostic α) := by
  intro other complaint
  cases complaint
  exact blames

theorem blames_bind {result : Except Diagnostic α} {next : α → Except Diagnostic β}
    (first : Blames scope result) (second : ∀ value, Blames scope (next value)) :
    Blames scope (result >>= next) := by
  cases result with
  | ok value => exact second value
  | error diagnostic => exact blames_error (first diagnostic rfl)

/-- A complaint about an operand names the token where it starts. -/
theorem blames_complain {argument : Argument} (here : argument.token ∈ scope) {cause : Cause}
    (apart : cause.concernsSymbol = false) :
    Blames scope (.error (argument.complain cause) : Except Diagnostic α) :=
  blames_error (Diagnostic.blames_at_token here apart)

end

/-! ### Selected instructions -/

namespace Selection

section

variable {scope : List Token} {argument : Argument} (here : argument.token ∈ scope)

include here

theorem blames_invalid {α : Type} (mnemonic : Mnemonic) :
    Blames scope (invalid mnemonic argument : Except Diagnostic α) :=
  blames_complain here rfl

theorem blames_byte (expression : Expression) : Blames scope (byte argument expression) := by
  unfold byte
  split
  · split
    · exact blames_ok _
    · exact blames_complain here rfl
  · exact blames_complain here rfl

theorem blames_number (mnemonic : Mnemonic) : Blames scope (number mnemonic argument) := by
  unfold number
  split
  · exact blames_ok _
  · exact blames_invalid here _

theorem blames_word (number : Int) : Blames scope (word argument number) := by
  unfold word
  split
  · exact blames_ok _
  · exact blames_complain here rfl

theorem blames_with_word (expression : Expression) (build : UInt16 → Instruction) :
    Blames scope (withWord argument expression build) := by
  unfold withWord
  split
  · exact blames_bind (blames_word here _) fun _ => blames_ok _
  · exact blames_ok _

theorem blames_with_distance (mnemonic : Mnemonic) (build : UInt8 → Instruction) :
    Blames scope (withDistance mnemonic argument build) := by
  unfold withDistance
  split
  · split
    · exact blames_ok _
    · exact blames_complain here rfl
  · exact blames_ok _
  · exact blames_invalid here _

theorem blames_place (mnemonic : Mnemonic) : Blames scope (place mnemonic argument) := by
  unfold place
  split
  case h_5 =>
    split
    · exact blames_ok _
    · exact blames_complain here rfl
  case h_6 => exact blames_invalid here _
  all_goals exact blames_ok _

theorem blames_cell (mnemonic : Mnemonic) : Blames scope (cell mnemonic argument) := by
  apply blames_bind (blames_place here _)
  intro found
  cases found with
  | cell content => exact blames_ok content
  | half register part => exact blames_invalid here _

theorem blames_wide (mnemonic : Mnemonic) (pair : Pair) :
    Blames scope (wide mnemonic argument pair) := by
  cases pair with
  | af => exact blames_invalid here _
  | _ => exact blames_ok _

theorem blames_addend (mnemonic : Mnemonic) (pair : Pair) :
    Blames scope (addend mnemonic argument pair) := by
  cases pair with
  | af => exact blames_invalid here _
  | _ => exact blames_ok _

theorem blames_condition (mnemonic : Mnemonic) : Blames scope (condition mnemonic argument) := by
  unfold condition
  split
  · exact blames_ok _
  · exact blames_invalid here _

theorem blames_stacked (mnemonic : Mnemonic) (build : StackWide → Instruction) :
    Blames scope (stacked mnemonic argument build) := by
  unfold stacked
  split
  case h_6 => exact blames_invalid here _
  all_goals exact blames_ok _

theorem blames_arith8 (operation : Arith) : Blames scope (arith8 operation argument) := by
  unfold arith8
  split
  · exact blames_bind (blames_byte here _) fun _ => blames_ok _
  · exact blames_bind (blames_place here _) fun _ => blames_ok _

theorem blames_index_addend (register : Index) : Blames scope (indexAddend register argument) := by
  unfold indexAddend
  split
  · split
    · exact blames_ok _
    · exact blames_invalid here _
  · exact blames_invalid here _
  · exact blames_addend here _ _
  · exact blames_invalid here _

theorem blames_counted (mnemonic : Mnemonic) (onWide : Wide → Instruction)
    (onPlace : Place → Instruction) :
    Blames scope (counted mnemonic argument onWide onPlace) := by
  unfold counted
  split
  · exact blames_bind (blames_wide here _ _) fun _ => blames_ok _
  · exact blames_ok _
  · exact blames_bind (blames_place here _) fun _ => blames_ok _

theorem blames_shift (operation : Shift) : Blames scope (shift operation argument) :=
  blames_bind (blames_cell here _) fun _ => blames_ok _

theorem blames_jump : Blames scope (jump argument) := by
  unfold jump
  split
  · exact blames_ok _
  · exact blames_ok _
  · exact blames_with_word here _ _
  · exact blames_invalid here _

theorem blames_call : Blames scope (call argument) := by
  unfold call
  split
  · exact blames_with_word here _ _
  · exact blames_invalid here _

theorem blames_return_if : Blames scope (returnIf argument) :=
  blames_bind (blames_condition here _) fun _ => blames_ok _

theorem blames_restart : Blames scope (restart argument) := by
  apply blames_bind (blames_number here _)
  intro number
  split
  · exact blames_ok _
  · exact blames_invalid here _

theorem blames_interrupt_mode : Blames scope (interruptMode argument) := by
  apply blames_bind (blames_number here _)
  intro number
  split
  · exact blames_ok _
  · exact blames_invalid here _

theorem blames_input_alone : Blames scope (inputAlone argument) := by
  unfold inputAlone
  split
  · exact blames_ok _
  · exact blames_invalid here _

end

section

variable {scope : List Token} {first second : Argument} (left : first.token ∈ scope)
  (right : second.token ∈ scope)

include left right

theorem blames_load : Blames scope (load first second) := by
  unfold load
  split
  case h_11 => exact blames_bind (blames_wide left _ _) fun _ => blames_with_word right _ _
  case h_13 => exact blames_bind (blames_wide left _ _) fun _ => blames_with_word right _ _
  case h_15 => exact blames_bind (blames_wide right _ _) fun _ => blames_with_word left _ _
  case h_17 =>
    exact blames_bind (blames_place left _) fun _ =>
      blames_bind (blames_byte right _) fun _ => blames_ok _
  case h_18 =>
    apply blames_bind (blames_place left _)
    intro into
    apply blames_bind (blames_place right _)
    intro out
    split
    · exact blames_ok _
    · exact blames_invalid right _
  all_goals first
    | exact blames_ok _
    | exact blames_with_word left _ _
    | exact blames_with_word right _ _

theorem blames_exchange : Blames scope (exchange first second) := by
  unfold exchange
  split
  case h_8 => exact blames_invalid left _
  all_goals first | exact blames_ok _ | exact blames_invalid right _

theorem blames_arith (operation : Arith) : Blames scope (arith operation first second) := by
  unfold arith
  split
  case h_1 => exact blames_arith8 right _
  case h_3 => exact blames_bind (blames_index_addend right _) fun _ => blames_ok _
  case h_6 => exact blames_invalid left _
  all_goals exact blames_bind (blames_addend right _ _) fun _ => blames_ok _

theorem blames_bit (operation : BitOp) : Blames scope (bit operation first second) := by
  apply blames_bind (blames_number left _)
  intro number
  split
  · exact blames_bind (blames_cell right _) fun _ => blames_ok _
  · exact blames_invalid left _

theorem blames_conditional (mnemonic : Mnemonic) (build : Cond → UInt16 → Instruction) :
    Blames scope (conditional mnemonic first second build) := by
  apply blames_bind (blames_condition left _)
  intro cond
  split
  · exact blames_with_word right _ _
  · exact blames_invalid right _

theorem blames_relative_conditional : Blames scope (relativeConditional first second) := by
  unfold relativeConditional
  split
  · exact blames_with_distance right _ _
  · exact blames_invalid left _

theorem blames_input : Blames scope (input first second) := by
  unfold input
  split
  · exact blames_ok _
  · exact blames_bind (blames_byte right _) fun _ => blames_ok _
  · exact blames_invalid right _
  · exact blames_invalid left _

theorem blames_output : Blames scope (output first second) := by
  unfold output
  split
  case h_3 => exact blames_bind (blames_byte left _) fun _ => blames_ok _
  all_goals first
    | exact blames_ok _
    | exact blames_invalid right _
    | exact blames_invalid left _

end

end Selection

theorem blames_string_bytes {scope : List Token} {token : Token} (here : token ∈ scope)
    (text : List Char) : Blames scope (stringBytes token text) := by
  induction text with
  | nil => exact blames_ok _
  | cons c rest induction =>
    unfold stringBytes
    split
    · exact blames_bind induction fun _ => blames_ok _
    · exact blames_error (Diagnostic.blames_at_token here rfl)

theorem Symbols.define_of_fresh {symbols : Symbols} {symbol : Symbol}
    (fresh : symbols.find? symbol.name = none) :
    symbols.define symbol = .ok ⟨symbols.entries ++ [symbol]⟩ := by
  rw [define, fresh]

theorem Symbols.define_error {symbols : Symbols} {symbol : Symbol} {cause : Cause}
    (refused : symbols.define symbol = .error cause) : cause = .redefinedSymbol symbol.name := by
  unfold define at refused
  split at refused <;> cases refused
  rfl

/-! ### Text -/

theorem Directive.of_words_error {command name body : List Char} {cause : Cause}
    (refused : ofWords command name body = .error cause) : cause.concernsSymbol = false := by
  unfold ofWords at refused
  split at refused
  · split at refused <;> cases refused
    rfl
  · split at refused
    · split at refused <;> cases refused
      rfl
    · cases refused
      rfl

namespace Expansion

theorem direct_error {defines : Defines} {text : List Char} {cause : Cause}
    (refused : direct defines text = .error cause) : cause.concernsSymbol = false := by
  unfold direct at refused
  cases read : Directive.parse text with
  | error complaint =>
    rw [read] at refused
    cases refused
    exact Directive.of_words_error read
  | ok directive =>
    rw [read] at refused
    cases directive with
    | define name body => cases refused
    | undefine name =>
      change (if defines.contains name then _ else _) = _ at refused
      split at refused <;> cases refused
      rfl

theorem add_line_apart {expansion : Expansion} (line : List Char)
    (apart : ∀ diagnostic ∈ expansion.diagnostics, diagnostic.cause.concernsSymbol = false) :
    ∀ diagnostic ∈ (expansion.addLine line).diagnostics,
      diagnostic.cause.concernsSymbol = false := by
  unfold addLine
  split
  · dsimp only
    split
    · exact apart
    · next cause refused =>
      intro diagnostic member
      rcases List.mem_append.mp member with before | added
      · exact apart diagnostic before
      · obtain rfl := List.mem_singleton.mp added
        exact direct_error refused
  · exact apart

/-- No complaint about a directive concerns a symbol. -/
theorem of_text_apart (text : List Char) :
    ∀ diagnostic ∈ (Expansion.ofText text).diagnostics, diagnostic.cause.concernsSymbol = false := by
  have run : ∀ (lines : List (List Char)) (expansion : Expansion),
      (∀ diagnostic ∈ expansion.diagnostics, diagnostic.cause.concernsSymbol = false) →
      ∀ diagnostic ∈ (lines.foldl addLine expansion).diagnostics,
        diagnostic.cause.concernsSymbol = false := by
    intro lines
    induction lines with
    | nil => exact fun _ apart => apart
    | cons line lines induction => exact fun expansion apart => induction _ (add_line_apart line apart)
  exact run _ Expansion.start (by simp [Expansion.start])

theorem of_text_known (text : List Char) :
    ∀ diagnostic ∈ (Expansion.ofText text).diagnostics, diagnostic.isUnresolved = false :=
  fun diagnostic member => Diagnostic.is_unresolved_of_apart (of_text_apart text diagnostic member)

end Expansion

namespace Lexeme

/-- If the text is no token, the reason does not concern a symbol. -/
theorem Sound.apart {lexeme : Lexeme} (sound : lexeme.Sound) :
    ∀ cause, lexeme.content = .fault cause → cause.concernsSymbol = false := by
  cases sound with
  | feed => simp
  | inLine proper flat => exact proper.apart

theorem faults_from_apart {pieces : List Lexeme} (sound : ∀ lexeme ∈ pieces, lexeme.Sound)
    (position : Position) :
    ∀ diagnostic ∈ faultsFrom position pieces, diagnostic.cause.concernsSymbol = false := by
  induction pieces generalizing position with
  | nil => simp [faultsFrom]
  | cons lexeme rest induction =>
    obtain ⟨here, later⟩ := List.forall_mem_cons.mp sound
    unfold faultsFrom
    dsimp only
    split
    · next cause fault => exact List.forall_mem_cons.mpr ⟨here.apart cause fault, induction later _⟩
    · exact induction later _

end Lexeme

namespace Expansion

/-- No complaint about a bad token concerns a symbol. -/
theorem lexical_faults_apart (expansion : Expansion) :
    ∀ diagnostic ∈ expansion.lexicalFaults, diagnostic.cause.concernsSymbol = false := by
  intro diagnostic member
  obtain ⟨fault, found, rfl⟩ := List.mem_map.mp member
  exact Lexeme.faults_from_apart (Lexeme.sound_lexemes _) _ fault found

theorem lexical_faults_known (expansion : Expansion) :
    ∀ diagnostic ∈ expansion.lexicalFaults, diagnostic.isUnresolved = false :=
  fun diagnostic member =>
    Diagnostic.is_unresolved_of_apart (expansion.lexical_faults_apart diagnostic member)

end Expansion

end Z80Toolchain
