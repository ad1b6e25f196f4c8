import Z80Toolchain.Project.FileError

/-!
What the programs need from the place they run in: four operations on files. A program is written
once for every host, so that it runs on real files and can be followed on a file tree.
-/
namespace Z80Toolchain

structure Host (m : Type → Type) where
  read : String → m (Except FileError ByteArray)
  write : String → ByteArray → m (Except FileError Unit)
  isDirectory : String → m Bool
  /-- The names of the regular files in a directory, in any order. -/
  fileNames : String → m (Except FileError (List String))

namespace Host

def readText? {m : Type → Type} [Monad m] (host : Host m) (path : String) : m (Option String) := do
  match ← host.read path with
  | .error _ => return none
  | .ok bytes => return String.fromUTF8? bytes

end Host

end Z80Toolchain
