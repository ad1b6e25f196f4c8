import Z80Toolchain.Program.Settings
import Z80Toolchain.Project.Build
import Z80Toolchain.Project.Manifest

/-!
The assembler as a program: it assembles the sources of a project or those of the command line,
links them, and writes the image and perhaps the symbols. It writes nothing unless every source is
free of errors and the image could be linked.
-/
namespace Z80Toolchain.Assembler

structure Options where
  inputs : List String
  output : String
  origin : UInt16
  project : Option String
  symbols : Option String
  choice : ListingChoice
deriving DecidableEq, Repr

namespace Options

def rules : List OptionRule :=
  [⟨"output", some 'o', true⟩, ⟨"origin", none, true⟩, ⟨"project", some 'p', true⟩,
   ⟨"dump", some 'd', false⟩, ⟨"tokens", none, false⟩, ⟨"symbols", none, true⟩,
   ⟨"log-level", none, true⟩]

def read? (words : List String) : Option Options := do
  let arguments ← Arguments.read? rules words
  let inputs ← arguments.operands.mapM Setting.path?
  let output ← Setting.option arguments "output" "main.bin" Setting.path?
  let origin ← Setting.option arguments "origin" 0 Setting.origin?
  let project ← Setting.option arguments "project" none fun text => (Setting.path? text).map some
  let symbols ← Setting.option arguments "symbols" none fun text => (Setting.path? text).map some
  Setting.option arguments "log-level" () Setting.logLevel?
  return {
    inputs := if inputs.isEmpty then ["main.z80"] else inputs
    output, origin, project, symbols
    choice := ⟨arguments.has "tokens", arguments.has "dump"⟩ }

def steps (options : Options) : List BuildStep :=
  match options.inputs with
  | [] => []
  | first :: rest => ⟨first, some options.origin⟩ :: rest.map fun path => ⟨path, none⟩

end Options

def banner : String := "Z80 Assembler by kanade-k-1228\n"

def failed (output : String) (failure : Failure) : Outcome :=
  .failure (output ++ Painting.terminal.paint [.red, .bold] failure.message ++ "\n")

/-- A build whose sources are all assembled, and its image. -/
structure Product where
  build : Build
  image : Image
deriving DecidableEq, Repr

/-- Assembles and links sources. A failure comes with what was printed up to it. -/
def make (options : Options) (sources : List SourceFile) : Except (String × Failure) Product :=
  let first := Build.start (banner ++ "1. Read Files and Assemble\n") options.origin
  match Build.addSources options.choice first sources with
  | (build, some failure) => .error (build.output, failure)
  | (build, none) =>
    let linking := build.say "2. Link Image\n"
    match Image.link linking.segments with
    | .error failure => .error (linking.output, failure)
    | .ok image => .ok ⟨linking, image⟩

def imageLine (path : String) (image : Image) : String :=
  "  > " ++ path ++ " (0x" ++ Numeral.hexUpper 4 image.base.toNat ++ ", "
    ++ Numeral.decimal image.bytes.length ++ " bytes)\n"

def symbolLines (path : String) : String :=
  "3. Write Symbols\n" ++ "  > " ++ path ++ "\n"

section Running

variable {m : Type → Type} [Monad m] (host : Host m)

def writeSymbols (options : Options) (product : Product) (output : String) : m Outcome := do
  match options.symbols with
  | none => return .success output
  | some path =>
    let announced := output ++ symbolLines path
    match ← host.write path product.build.symbols.yaml.toUTF8 with
    | .ok _ => return .success announced
    | .error _ => return failed announced (.unwritableFile path)

def writeProduct (options : Options) (product : Product) : m Outcome := do
  let announced := product.build.output ++ imageLine options.output product.image
  match ← host.write options.output ⟨product.image.bytes.toArray⟩ with
  | .ok _ => writeSymbols host options product announced
  | .error _ => return failed announced (.unwritableFile options.output)

def readSource (step : BuildStep) : m SourceFile := do
  return ⟨step.path, step.address, ← host.readText? step.path⟩

def findSteps (options : Options) : m (Except Failure (List BuildStep)) :=
  match options.project with
  | some directory => Manifest.load host directory
  | none => return .ok options.steps

def runOptions (options : Options) : m Outcome := do
  match ← findSteps host options with
  | .error failure => return failed banner failure
  | .ok steps =>
    let sources ← steps.mapM (readSource host)
    match make options sources with
    | .error (output, failure) => return failed output failure
    | .ok product => writeProduct host options product

def run (words : List String) : m Outcome :=
  match Options.read? words with
  | none => return .misuse
  | some options => runOptions host options

end Running

end Z80Toolchain.Assembler
