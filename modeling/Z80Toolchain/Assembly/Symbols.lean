import Z80Toolchain.Source.Diagnostic

/-!
The symbol table: labels and variables in one name space, each defined once and kept in the order
of definition.
-/
namespace Z80Toolchain

/-- A label stands for an address, a constant for the value of an expression. -/
inductive Symbol.Kind
  | label
  | constant
deriving DecidableEq, Repr

def Symbol.Kind.word : Symbol.Kind → String
  | label => "label"
  | constant => "variable"

structure Symbol where
  name : String
  kind : Symbol.Kind
  value : Int
  position : Position
deriving DecidableEq, Repr

structure Symbols where
  entries : List Symbol
deriving DecidableEq, Repr

namespace Symbols

def empty : Symbols := ⟨[]⟩

def size (symbols : Symbols) : Nat :=
  symbols.entries.length

def find? (symbols : Symbols) (name : String) : Option Symbol :=
  symbols.entries.find? (·.name == name)

def value? (symbols : Symbols) (name : String) : Option Int :=
  (symbols.find? name).map Symbol.value

/-- The value of a constant; a label is not visible here. -/
def constant? (symbols : Symbols) (name : String) : Option Int :=
  (symbols.find? name).bind fun symbol =>
    if symbol.kind = .constant then some symbol.value else none

def define (symbols : Symbols) (symbol : Symbol) : Except Cause Symbols :=
  match symbols.find? symbol.name with
  | some _ => .error (.redefinedSymbol symbol.name)
  | none => .ok ⟨symbols.entries ++ [symbol]⟩

end Symbols

end Z80Toolchain
