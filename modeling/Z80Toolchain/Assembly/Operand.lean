import Z80Toolchain.Assembly.Expression
import Z80Toolchain.Machine.Instruction

/-!
Operands as they are written: a register or condition by its name, something in parentheses, or an
expression. A name that is no register and no condition is a label. What an operand means is decided
later, by the mnemonic in front of it.
-/
namespace Z80Toolchain

inductive Operand
  | reg (register : Reg8)
  | half (register : Index) (part : Half)
  | pair (pair : Pair)
  | shadowAf
  | index (register : Index)
  | control (register : Control)
  | cond (cond : Cond)
  | atHl
  | atBc
  | atDe
  | atSp
  | atC
  | atIndex (register : Index)
  | indexed (register : Index) (distance : Int)
  | memory (address : Expression)
  | immediate (value : Expression)
deriving DecidableEq, Repr

structure Argument where
  operand : Operand
  token : Token
deriving DecidableEq, Repr

namespace Argument

def complain (argument : Argument) (cause : Cause) : Diagnostic :=
  .atToken argument.token cause

/-- The operand as a condition: the name `c` is that of a register and of a condition. -/
def cond? (argument : Argument) : Option Cond :=
  match argument.operand with
  | .cond cond => some cond
  | .reg .c => some .c
  | _ => none

end Argument

namespace Operand

open Text (lower)

def ofSpecialName? (text : String) : Option Operand :=
  match lower text with
  | "af'" => some shadowAf
  | "i" => some (control .i)
  | "r" => some (control .r)
  | _ => none

def ofName? (text : String) : Option Operand :=
  (Reg8.ofName? text).map reg
    <|> (Pair.ofName? text).map pair
    <|> (Index.ofName? text).map index
    <|> (Index.ofHalfName? text).map (fun (register, part) => half register part)
    <|> (Cond.ofName? text).map cond
    <|> ofSpecialName? text

/-- The registers that may stand alone in parentheses. -/
def ofPointerName? (text : String) : Option Operand :=
  match lower text with
  | "hl" => some atHl
  | "bc" => some atBc
  | "de" => some atDe
  | "sp" => some atSp
  | "c" => some atC
  | _ => none

def distance (symbols : Symbols) : Parse Int := do
  let start ← Parse.peek
  match ← Expression.parse symbols false with
  | .value number => return number
  | .symbol _ _ => Parse.fail (.atToken start .unsupportedExpression)

/-- What follows an index register in parentheses. A minus sign belongs to the first term. -/
def indexedBy (symbols : Symbols) (register : Index) : Parse Operand := do
  match (← Parse.peek).kind with
  | .plus =>
    let _ ← Parse.take
    return indexed register (← distance symbols)
  | .minus => return indexed register (← distance symbols)
  | _ => return atIndex register

def enclosed (symbols : Symbols) : Parse Operand := do
  match (← Parse.peek).kind with
  | .text name =>
    match ofPointerName? name, Index.ofName? name with
    | some operand, _ =>
      let _ ← Parse.take
      return operand
    | none, some register =>
      let _ ← Parse.take
      indexedBy symbols register
    | none, none => return memory (← Expression.parse symbols true)
  | _ => return memory (← Expression.parse symbols true)

/-- Reads an operand that starts with the given token, which has not been taken. -/
def startingWith (symbols : Symbols) (kind : Token.Kind) : Parse Operand := do
  match kind with
  | .text name =>
    match ofName? name with
    | some operand =>
      let _ ← Parse.take
      return operand
    | none => return immediate (← Expression.parse symbols true)
  | .leftParen =>
    let _ ← Parse.take
    let operand ← enclosed symbols
    Parse.expect .rightParen "`)`"
    return operand
  | .integer _ | .minus | .atName _ => return immediate (← Expression.parse symbols false)
  | _ => Parse.refuse (.expected "operand")

end Operand

namespace Argument

def parse (symbols : Symbols) : Parse Argument := do
  let token ← Parse.peek
  let operand ← Operand.startingWith symbols token.kind
  return ⟨operand, token⟩

end Argument

end Z80Toolchain
