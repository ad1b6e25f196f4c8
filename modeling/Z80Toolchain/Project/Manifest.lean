import Z80Toolchain.Project.Failure
import Z80Toolchain.Project.Host
import Z80Toolchain.Project.Path
import Z80Toolchain.Machine.Address
import Z80Toolchain.Text.Blank

/-!
The manifest of a project: words between white space. A hexadecimal number is the load address of
the next entry, every other word is an entry: a file, or a directory that stands for the files in
it. What is not placed follows what comes before it.
-/
namespace Z80Toolchain

structure ManifestEntry where
  name : String
  address : Option UInt16
deriving DecidableEq, Repr

structure BuildStep where
  path : String
  address : Option UInt16
deriving DecidableEq, Repr

namespace Manifest

def fileName : String := "build.zbld"

def sourceDirectory : String := "src"

def addressDigits? : List Char → Option (List Char)
  | '0' :: 'x' :: digits => some digits
  | '0' :: 'X' :: digits => some digits
  | _ => none

def readAddress (word digits : List Char) : Except Failure UInt16 :=
  match Numeral.read 16 Address.last digits with
  | .ok value => .ok (UInt16.ofNat value)
  | .error _ => .error (.invalidAddress (String.ofList word))

/-- The entries of the words behind an address that waits for its entry. -/
def entriesFrom (waiting : Option UInt16) : List (List Char) → Except Failure (List ManifestEntry)
  | [] => .ok []
  | word :: rest =>
    match addressDigits? word with
    | some digits => do entriesFrom (some (← readAddress word digits)) rest
    | none => do return ⟨String.ofList word, waiting⟩ :: (← entriesFrom none rest)

def parse (text : List Char) : Except Failure (List ManifestEntry) :=
  entriesFrom none (Text.words text)

/-- The steps for the files of a directory: sorted by name, and the first takes the address. -/
def directorySteps (path : String) (address : Option UInt16) (names : List String) :
    List BuildStep :=
  match names.mergeSort (fun left right => decide (left ≤ right)) with
  | [] => []
  | first :: rest =>
    ⟨Path.join path first, address⟩ :: rest.map fun name => ⟨Path.join path name, none⟩

section Loading

variable {m : Type → Type} [Monad m] (host : Host m)

def entrySteps (sources : String) (entry : ManifestEntry) :
    m (Except Failure (List BuildStep)) := do
  let path := Path.join sources entry.name
  if ← host.isDirectory path then
    match ← host.fileNames path with
    | .ok names => return .ok (directorySteps path entry.address names)
    | .error _ => return .error (.unreadableDirectory path)
  else return .ok [⟨path, entry.address⟩]

def allSteps (sources : String) : List ManifestEntry → m (Except Failure (List BuildStep))
  | [] => return .ok []
  | entry :: rest => do
    match ← entrySteps host sources entry with
    | .error failure => return .error failure
    | .ok steps =>
      match ← allSteps sources rest with
      | .error failure => return .error failure
      | .ok more => return .ok (steps ++ more)

def load (directory : String) : m (Except Failure (List BuildStep)) := do
  let path := Path.join directory fileName
  match ← host.readText? path with
  | none => return .error (.unreadableFile path)
  | some text =>
    match parse text.toList with
    | .error failure => return .error failure
    | .ok entries => allSteps host (Path.join directory sourceDirectory) entries

end Loading

end Manifest

end Z80Toolchain
