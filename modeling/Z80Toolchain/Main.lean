import Z80Toolchain.Program.Assembler
import Z80Toolchain.Program.Disassembler

/-!
The command line: `assemble` or `disassemble`, and behind it the words of that program. This module
only carries out what the programs ask of the files.
-/
namespace Z80Toolchain.CommandLine

/-- Codes of the system may be counted downwards from zero. -/
def isCode (code : UInt32) (number : UInt32) : Bool :=
  code == number || 0 - code == number

def fileError : IO.Error → FileError
  | .noFileOrDirectory .. => .notFound
  | .inappropriateType _ code text =>
    if isCode code 20 then .notADirectory
    else if isCode code 21 then .isADirectory
    else .other text
  | .invalidArgument _ code text => if isCode code 36 then .nameTooLong else .other text
  | error => .other error.toString

def attempt {α : Type} (action : IO α) : IO (Except FileError α) := do
  try
    return .ok (← action)
  catch error =>
    return .error (fileError error)

/-- What cannot be looked at is no regular file. -/
def isRegular (entry : IO.FS.DirEntry) : IO Bool := do
  try
    return (← entry.path.metadata).type == .file
  catch _ =>
    return false

def listFiles (path : String) : IO (List String) := do
  let entries ← ((← IO.currentDir) / path).readDir
  let regular ← entries.filterM isRegular
  return regular.toList.map fun entry => entry.fileName

def host : Host IO where
  read path := attempt (IO.FS.readBinFile path)
  write path contents := attempt (IO.FS.writeBinFile path contents)
  isDirectory path := do ((← IO.currentDir) / path).isDir
  fileNames path := attempt (listFiles path)

def finish (outcome : Outcome) : IO UInt32 := do
  IO.print outcome.output
  return outcome.exitCode

def usage : String :=
  "usage: z80 assemble [-o FILE] [--origin ADDRESS] [-p DIRECTORY] [-d] [--tokens]\n"
    ++ "                    [--symbols FILE] [--log-level LEVEL] [FILE ...]\n"
    ++ "       z80 disassemble [--origin ADDRESS] [-n COUNT] [--log-level LEVEL] [FILE]"

def run : List String → IO UInt32
  | "assemble" :: words => explain =<< Assembler.run host words
  | "disassemble" :: words => explain =<< Disassembler.run host words
  | _ => explain .misuse
where
  explain (outcome : Outcome) : IO UInt32 := do
    if outcome = .misuse then IO.eprintln usage
    finish outcome

end Z80Toolchain.CommandLine

def main (words : List String) : IO UInt32 :=
  Z80Toolchain.CommandLine.run words
