import Z80Toolchain.Assembly.Assemble
import Z80Toolchain.Listing.Style

/-!
The dump of an assembled source: each source line beside the bytes it gave, four in a row. More
bytes follow in rows of their own. The lines are those of the file, so a carriage return that stands
alone is no line end here.
-/
namespace Z80Toolchain

def hexBytes (bytes : List UInt8) : String :=
  String.intercalate " " (bytes.map fun byte => Numeral.hexUpper 2 byte.toNat)

namespace Dump

structure SourceLine where
  number : Nat
  text : List Char
  faulty : Bool
deriving DecidableEq, Repr

inductive Row
  | silent (line : SourceLine)
  | code (address : UInt16) (bytes : List UInt8) (line : SourceLine)
  | more (address : UInt16) (bytes : List UInt8)
deriving DecidableEq, Repr

def cut : List UInt8 → List (List UInt8)
  | [] => []
  | a :: b :: c :: d :: rest => [a, b, c, d] :: cut rest
  | short => [short]

def moreRows (address : UInt16) : List (List UInt8) → List Row
  | [] => []
  | bytes :: rest => .more address bytes :: moreRows (address + 4) rest

def codeRows (address : UInt16) (bytes : List UInt8) (line : SourceLine) : List Row :=
  match cut bytes with
  | [] => [.code address [] line]
  | first :: rest => .code address first line :: moreRows (address + 4) rest

def lineBytes (code : Array UInt8) (line : Line) : List UInt8 :=
  (code.extract line.start line.stop).toList

/-- The rows of source lines from a line number on, with the assembled lines that are still to be
shown. -/
def rowsFrom (assembly : Assembly) (number : Nat) (spans : List Line) :
    List (List Char) → List Row
  | [] => []
  | text :: rest =>
    let faulty := assembly.diagnostics.any fun diagnostic => diagnostic.position.line == number
    let line : SourceLine := ⟨number, text, faulty⟩
    match spans with
    | [] => .silent line :: rowsFrom assembly (number + 1) [] rest
    | span :: more =>
      if span.line = number then
        codeRows span.address (lineBytes assembly.code span) line
          ++ rowsFrom assembly (number + 1) more rest
      else .silent line :: rowsFrom assembly (number + 1) spans rest

def rows (source : List Char) (assembly : Assembly) : List Row :=
  rowsFrom assembly 0 assembly.lines (Text.listedLines source)

def SourceLine.render (painting : Painting) (line : SourceLine) : String :=
  let text := String.ofList line.text
  Numeral.padStart 4 (Numeral.decimal (line.number + 1)) ++ ": "
    ++ if line.faulty then painting.paint [.red] text else text

def renderBytes (address : UInt16) (bytes : List UInt8) : String :=
  "[" ++ Numeral.hexUpper 4 address.toNat ++ "] " ++ Numeral.padEnd 11 (hexBytes bytes) ++ " |"

def Row.render (painting : Painting) : Row → String
  | silent line =>
    let mark := if line.faulty then painting.paint [.red, .bold] (Numeral.padStart 18 "!!") else ""
    Numeral.padEnd 18 mark ++ " | " ++ line.render painting ++ "\n"
  | code address bytes line => renderBytes address bytes ++ " " ++ line.render painting ++ "\n"
  | more address bytes => renderBytes address bytes ++ "\n"

def dashes (count : Nat) : String :=
  String.ofList (List.replicate count '-')

/-- The line above the rows, filled up by the bytes of the path. -/
def header (path : String) : String :=
  dashes 19 ++ "+------[" ++ path ++ "]" ++ dashes (45 - path.utf8ByteSize) ++ "\n"

def footer : String :=
  dashes 19 ++ "+" ++ dashes 53 ++ "\n"

end Dump

namespace Assembly

def dumpIn (painting : Painting) (assembly : Assembly) (path : String) (source : List Char) :
    String :=
  Dump.header path ++ String.join ((Dump.rows source assembly).map (Dump.Row.render painting))
    ++ Dump.footer

def dump (assembly : Assembly) (path : String) (source : List Char) : String :=
  assembly.dumpIn .terminal path source

end Assembly

end Z80Toolchain
