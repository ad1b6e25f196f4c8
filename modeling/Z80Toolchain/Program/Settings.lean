import Z80Toolchain.Machine.Address
import Z80Toolchain.Program.Arguments
import Z80Toolchain.Text.Case

/-!
The values that options of both programs take, and how a program ends.
-/
namespace Z80Toolchain

structure Outcome where
  exitCode : UInt32
  output : String
deriving DecidableEq, Repr

namespace Outcome

def success (output : String) : Outcome := ⟨0, output⟩

def failure (output : String) : Outcome := ⟨1, output⟩

def misuse : Outcome := ⟨2, ""⟩

end Outcome

namespace Setting

/-- The value of an option, or its default; `none` if the value is refused. -/
def option {α : Type} (arguments : Arguments) (name : String) (standard : α)
    (read : String → Option α) : Option α :=
  match arguments.value? name with
  | none => some standard
  | some text => read text

def origin? (text : String) : Option UInt16 :=
  match Address.read text.toList with
  | .ok value => some (UInt16.ofNat value)
  | .error _ => none

def path? (text : String) : Option String :=
  if text.isEmpty then none else some text

def countLimit : Nat := Nat.pow 2 64 - 1

def count? (text : String) : Option Nat :=
  (Numeral.read 10 countLimit text.toList).toOption

/-- The level of messages for the log: a name, or a number from one to five. -/
def isLogLevel (text : String) : Bool :=
  (count? text).any (fun level => 1 ≤ level && level ≤ 5)
    || ["error", "warn", "info", "debug", "trace"].contains (Text.lower text)

def logLevel? (text : String) : Option Unit :=
  if isLogLevel text then some () else none

end Setting

end Z80Toolchain
