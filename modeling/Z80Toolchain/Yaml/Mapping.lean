import Z80Toolchain.Yaml.Key

/-!
Mappings in block style, as lists of lines. Mappings inside a mapping are indented by two blanks.
-/
namespace Z80Toolchain.Yaml

/-- A value on the line of its key, or a mapping below it. -/
inductive Value
  | inline (text : String)
  | mapping (lines : List Line)
deriving DecidableEq, Repr

namespace Value

def lines : Value → List Line
  | inline text => [.ofString text]
  | mapping [] => [.ofString "\x7b\x7d"]
  | mapping lines => lines

end Value

def entryLines (key : String) (value : Value) : List Line :=
  let text := key.toList
  if isSimpleKey text then
    let name := String.ofList ((keyLines text).flatMap Line.text) ++ ":"
    match value with
    | .inline content => [.ofString (name ++ " " ++ content)]
    | .mapping [] => [.ofString (name ++ " \x7b\x7d")]
    | .mapping lines => .ofString name :: lines.map Line.indent
  else hang "?" (keyLines text) ++ hang ":" value.lines

def document (lines : List Line) : String :=
  render (Value.mapping lines).lines

end Z80Toolchain.Yaml
