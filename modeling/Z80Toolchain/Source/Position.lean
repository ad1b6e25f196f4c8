import Z80Toolchain.Text.Numeral

/-!
Places in a source text, counted from zero in lines and characters.
-/
namespace Z80Toolchain

structure Position where
  line : Nat
  column : Nat
deriving DecidableEq, Repr, Inhabited

namespace Position

def start : Position := ⟨0, 0⟩

def next (position : Position) (c : Char) : Position :=
  if c = '\n' then ⟨position.line + 1, 0⟩ else ⟨position.line, position.column + 1⟩

def advance (position : Position) (text : List Char) : Position :=
  text.foldl next position

def le (left right : Position) : Bool :=
  left.line < right.line || (left.line == right.line && left.column ≤ right.column)

/-- As people count: lines and columns from one. -/
def text (position : Position) : String :=
  Numeral.decimal (position.line + 1) ++ ":" ++ Numeral.decimal (position.column + 1)

end Position

end Z80Toolchain
