import Z80Toolchain.Source.Diagnostic
import Z80Toolchain.Text.Blank

/-!
Text definitions: a name stands for a replacement text from the line that defines it to the line
that takes it back. Definitions keep the order in which their names were first defined.
-/
namespace Z80Toolchain

structure Defines where
  entries : List (List Char × List Char)
deriving DecidableEq, Repr

namespace Defines

def empty : Defines := ⟨[]⟩

def find? (defines : Defines) (name : List Char) : Option (List Char) :=
  (defines.entries.find? (·.1 == name)).map Prod.snd

def contains (defines : Defines) (name : List Char) : Bool :=
  defines.entries.any (·.1 == name)

/-- A name that is defined keeps its place and takes the new text. -/
def insert (defines : Defines) (name body : List Char) : Defines :=
  if defines.contains name then
    ⟨defines.entries.map fun entry => if entry.1 = name then (name, body) else entry⟩
  else ⟨defines.entries ++ [(name, body)]⟩

def erase (defines : Defines) (name : List Char) : Defines :=
  ⟨defines.entries.filter (·.1 != name)⟩

end Defines

inductive Directive
  | define (name body : List Char)
  | undefine (name : List Char)
deriving DecidableEq, Repr

namespace Directive

def ofWords (command name body : List Char) : Except Cause Directive :=
  if command = "define".toList then
    if name = [] then .error .missingDefineName else .ok (define name (Text.trim body))
  else if command = "undefine".toList then
    if name = [] then .error .missingDefineName else .ok (undefine name)
  else .error (.unknownDirective (String.ofList command))

def parse (text : List Char) : Except Cause Directive :=
  let (command, rest) := Text.splitWord (text.takeWhile (· != ';'))
  let (name, body) := Text.splitWord (Text.trimStart rest)
  ofWords command name body

def apply (defines : Defines) : Directive → Except Cause Defines
  | define name body => .ok (defines.insert name body)
  | undefine name =>
    if defines.contains name then .ok (defines.erase name)
    else .error (.unknownDefine (String.ofList name))

end Directive

end Z80Toolchain
