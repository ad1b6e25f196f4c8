import Z80Toolchain.Listing.Disassembly
import Z80Toolchain.Program.Settings
import Z80Toolchain.Project.Host

/-!
The disassembler as a program: it lists the entries of a binary, perhaps only the first few.
-/
namespace Z80Toolchain.Disassembler

structure Options where
  input : String
  origin : UInt16
  count : Option Nat
deriving DecidableEq, Repr

namespace Options

def rules : List OptionRule :=
  [⟨"origin", none, true⟩, ⟨"count", some 'n', true⟩, ⟨"log-level", none, true⟩]

def read? (words : List String) : Option Options := do
  let arguments ← Arguments.read? rules words
  let origin ← Setting.option arguments "origin" 0 Setting.origin?
  let count ← Setting.option arguments "count" none fun text => (Setting.count? text).map some
  Setting.option arguments "log-level" () Setting.logLevel?
  match arguments.operands with
  | [] => return ⟨"main.bin", origin, count⟩
  | [input] => return ⟨input, origin, count⟩
  | _ => none

end Options

/-- The lines that the program starts with: its name, and the input in a box. -/
def banner (input : String) : String :=
  let border := "+-----------------------------------------------+\n"
  "Z80 Disassembler by kanade-k-1228\n" ++ border ++ "| " ++ Numeral.padEnd 45 input ++ " |\n"
    ++ border

def footer : String := "=================================================\n"

def chosen (options : Options) (bytes : List UInt8) : List Entry :=
  match options.count with
  | none => disassemble bytes
  | some count => (disassemble bytes).take count

def listing (options : Options) (bytes : List UInt8) : String :=
  String.join ((chosen options bytes).map (Entry.listing options.origin)) ++ footer

def refusal (input : String) (reason : FileError) : String :=
  Painting.terminal.paint [.red, .bold] "Failed to open File" ++ ": " ++ input ++ ": "
    ++ reason.message ++ "\n"

section Running

variable {m : Type → Type} [Monad m] (host : Host m)

def runOptions (options : Options) : m Outcome := do
  match ← host.read options.input with
  | .error reason => return .failure (banner options.input ++ refusal options.input reason)
  | .ok bytes => return .success (banner options.input ++ listing options bytes.data.toList)

def run (words : List String) : m Outcome :=
  match Options.read? words with
  | none => return .misuse
  | some options => runOptions host options

end Running

end Z80Toolchain.Disassembler
