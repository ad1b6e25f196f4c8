/-!
The lines of a document. Not only a line feed ends a line: the Unicode separators of lines and of
paragraphs do so too, and each line keeps the character that ends it.
-/
namespace Z80Toolchain.Yaml

def isBreak (c : Char) : Bool :=
  c == '\n' || c == '\r' || c == '\x85' || c == '\u2028' || c == '\u2029'

structure Line where
  text : List Char
  ending : Char
deriving DecidableEq, Repr

namespace Line

def ofString (text : String) : Line :=
  ⟨text.toList, '\n'⟩

def prepend (mark : String) (line : Line) : Line :=
  { line with text := mark.toList ++ line.text }

/-- The line inside a mapping or below a mark; an empty line stays empty. -/
def indent (line : Line) : Line :=
  if line.text.isEmpty then line else line.prepend "  "

def chars (line : Line) : List Char :=
  line.text ++ [line.ending]

end Line

/-- The lines of a text. A line feed ends the last of them if nothing else does. -/
def cutLines : List Char → List Line
  | [] => []
  | c :: rest =>
    if isBreak c then ⟨[], c⟩ :: cutLines rest
    else match cutLines rest with
      | [] => [⟨[c], '\n'⟩]
      | line :: lines => { line with text := c :: line.text } :: lines

def hang (mark : String) : List Line → List Line
  | [] => []
  | first :: rest => first.prepend (mark ++ " ") :: rest.map Line.indent

def render (lines : List Line) : String :=
  String.ofList (lines.flatMap Line.chars)

end Z80Toolchain.Yaml
