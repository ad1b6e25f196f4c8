import Z80Toolchain.Source.Defines
import Z80Toolchain.Source.Lexeme
import Z80Toolchain.Text.Lines

/-!
Replacing defined names before tokens are read. A line is cut into fragments, of which only whole
words outside literals and comments are replaced; the replacement is not looked at again. Every
character of an expanded line remembers the column it comes from, so that positions in the expanded
text lead back to the source.
-/
namespace Z80Toolchain

/-! ### Fragments of a line -/

/-- A word may be replaced, everything else is copied. -/
inductive Fragment
  | word (text : List Char)
  | copied (text : List Char)
deriving DecidableEq, Repr

namespace Fragment

def text : Fragment → List Char
  | word text => text
  | copied text => text

/-- The marks that stay with a closed literal: an apostrophe directly behind another one opens no
literal of its own. -/
def marksBehind (mark : Char) (rest : List Char) : List Char :=
  if mark = '\'' then rest.takeWhile (· == '\'') else []

/-- The rest of a quoted literal, up to the closing mark or the end of the line. A backslash takes
the next character with it. -/
def literalRest (mark : Char) : List Char → List Char
  | [] => []
  | '\\' :: [] => ['\\']
  | '\\' :: c :: rest => '\\' :: c :: literalRest mark rest
  | c :: rest => if c = mark then c :: marksBehind mark rest else c :: literalRest mark rest

/-- The fragment that starts with the character `c`. A number or a variable is copied with all the
characters that could belong to a word. -/
def first (c : Char) (rest : List Char) : Fragment :=
  if c = ';' then copied (c :: rest)
  else if c = '"' ∨ c = '\'' then copied (c :: literalRest c rest)
  else if isNameStart c ∨ c = '_' then word (c :: rest.takeWhile isNameChar)
  else if c = '@' ∨ c.isDigit then copied (c :: rest.takeWhile isNameChar)
  else copied [c]

end Fragment

def fragments : List Char → List Fragment
  | [] => []
  | c :: rest =>
    Fragment.first c rest :: fragments (rest.drop ((Fragment.first c rest).text.length - 1))
termination_by line => line.length

/-! ### Expanded lines -/

/-- The characters of expanded fragments, each with its column in the source. What replaces a word
has the column where the word starts. -/
def Defines.substituteFrom (defines : Defines) (column : Nat) :
    List Fragment → List (Char × Nat)
  | [] => []
  | fragment :: rest =>
    let expanded :=
      match fragment with
      | .word text =>
        match defines.find? text with
        | some body => body.map fun c => (c, column)
        | none => text.zipIdx column
      | .copied text => text.zipIdx column
    expanded ++ defines.substituteFrom (column + fragment.text.length) rest

def Defines.substitute (defines : Defines) (line : List Char) : List (Char × Nat) :=
  defines.substituteFrom 0 (fragments line)

/-- A line after expansion. `columns` gives the source column of each character and of the end of
the line, if the expansion changed anything. -/
structure ExpandedLine where
  text : List Char
  columns : Option (List Nat)
deriving DecidableEq, Repr

namespace ExpandedLine

def unchanged (line : List Char) : ExpandedLine :=
  ⟨line, none⟩

def ofSubstitution (line : List Char) (expanded : List (Char × Nat)) : ExpandedLine :=
  let text := expanded.map Prod.fst
  if text = line then unchanged line
  else ⟨text, some (expanded.map Prod.snd ++ [line.length])⟩

end ExpandedLine

/-- The source column of a column: beyond the end of the line both go on equally. -/
def sourceColumn (columns : List Nat) (column : Nat) : Nat :=
  match columns[column]? with
  | some source => source
  | none => columns.getLast?.getD 0 + (column - (columns.length - 1))

/-! ### Expanded sources -/

structure Expansion where
  lines : Array ExpandedLine
  defines : Defines
  diagnostics : List Diagnostic
deriving Repr

namespace Expansion

def start : Expansion :=
  ⟨#[], .empty, []⟩

def direct (defines : Defines) (text : List Char) : Except Cause Defines := do
  (← Directive.parse text).apply defines

/-- Adds a line. A directive leaves an empty line behind; a complaint about it names the column that
the UTF-8 bytes in front of the percent sign fill. -/
def addLine (expansion : Expansion) (line : List Char) : Expansion :=
  match Text.trimStart line with
  | '%' :: directive =>
    let lines := expansion.lines.push (.unchanged [])
    match direct expansion.defines directive with
    | .ok defines => { expansion with lines, defines }
    | .error cause =>
      let blanks := String.ofList (line.takeWhile Text.isBlank)
      let position : Position := ⟨expansion.lines.size, blanks.utf8ByteSize⟩
      { expansion with lines, diagnostics := expansion.diagnostics ++ [⟨position, cause, none⟩] }
  | _ =>
    let expanded := .ofSubstitution line (expansion.defines.substitute line)
    { expansion with lines := expansion.lines.push expanded }

def ofText (text : List Char) : Expansion :=
  (Text.splitLines text).foldl addLine start

def text (expansion : Expansion) : List Char :=
  Text.joinLines (expansion.lines.toList.map ExpandedLine.text)

def sourcePosition (expansion : Expansion) (position : Position) : Position :=
  match expansion.lines[position.line]?.bind ExpandedLine.columns with
  | some columns => { position with column := sourceColumn columns position.column }
  | none => position

end Expansion

end Z80Toolchain
