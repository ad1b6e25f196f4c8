import Z80Toolchain.Machine.Implied
import Z80Toolchain.Machine.Operation

/-!
Mnemonics: the first word of an instruction, either the name of an operation or one that several
instructions share.
-/
namespace Z80Toolchain

inductive Mnemonic
  | implied (operation : Implied)
  | arith (operation : Arith)
  | shift (operation : Shift)
  | bit (operation : BitOp)
  | ld | ex | inc | dec | push | pop | im | input | output
  | jp | jr | djnz | call | ret | rst
deriving DecidableEq, Repr

namespace Mnemonic

def name : Mnemonic → String
  | implied operation => operation.name
  | arith operation => operation.name
  | shift operation => operation.name
  | bit operation => operation.name
  | ld => "ld" | ex => "ex" | inc => "inc" | dec => "dec" | push => "push" | pop => "pop"
  | im => "im" | input => "in" | output => "out"
  | jp => "jp" | jr => "jr" | djnz => "djnz" | call => "call" | ret => "ret" | rst => "rst"

def all : List Mnemonic :=
  [ld, ex, inc, dec, push, pop, im, input, output, jp, jr, djnz, call, ret, rst]
    ++ Arith.all.map arith ++ Shift.all.map shift ++ BitOp.all.map bit ++ Implied.all.map implied

def ofName? (text : String) : Option Mnemonic :=
  all.find? (·.name == text)

end Mnemonic

end Z80Toolchain
