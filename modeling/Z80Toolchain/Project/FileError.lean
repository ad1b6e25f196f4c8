/-!
Why a file cannot be read or written.
-/
namespace Z80Toolchain

inductive FileError
  | notFound
  | notADirectory
  | isADirectory
  | nameTooLong
  | other (text : String)
deriving DecidableEq, Repr

def FileError.message : FileError → String
  | notFound => "No such file or directory (os error 2)"
  | notADirectory => "Not a directory (os error 20)"
  | isADirectory => "Is a directory (os error 21)"
  | nameTooLong => "File name too long (os error 36)"
  | other text => text

end Z80Toolchain
