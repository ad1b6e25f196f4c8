import Z80Toolchain.Text.Numeral

/-!
What stops a build before it has written its output: files, the manifest, the layout of the image,
and sources with errors in them.
-/
namespace Z80Toolchain

inductive Failure
  | unreadableFile (path : String)
  | unreadableDirectory (path : String)
  | unwritableFile (path : String)
  | invalidAddress (word : String)
  | overlap (name : String) (start : UInt16) (previousStop : Nat)
  | imageOverflow (name : String) (stop : Nat)
  | faultySources (faults : Nat)
deriving DecidableEq, Repr

def Failure.message : Failure → String
  | unreadableFile path => "Failed to open file: " ++ path
  | unreadableDirectory path => "Failed to read directory: " ++ path
  | unwritableFile path => "Failed to write file: " ++ path
  | invalidAddress word => "Invalid address in build file: `" ++ word ++ "`"
  | overlap name start previousStop =>
    "`" ++ name ++ "` at 0x" ++ Numeral.hexUpper 4 start.toNat
      ++ " overlaps the previous unit ending at 0x" ++ Numeral.hexUpper 4 previousStop
  | imageOverflow name stop =>
    "Image does not fit in 64K: `" ++ name ++ "` ends at 0x" ++ Numeral.hexUpper 1 stop
  | faultySources faults => "Assembly failed with " ++ Numeral.decimal faults ++ " error(s)"

end Z80Toolchain
