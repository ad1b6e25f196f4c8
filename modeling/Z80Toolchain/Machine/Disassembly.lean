import Z80Toolchain.Machine.Instruction.Decode
import Z80Toolchain.Machine.Instruction.Render

/-!
A binary as a list of entries, each an instruction or a `db` line. The entries follow one another
without a gap; an instruction that the end of the binary cuts short becomes a last `db` line.
-/
namespace Z80Toolchain

def dataText (bytes : List UInt8) : String :=
  "db " ++ String.intercalate ", " (bytes.map byteText)

def Decoded.text : Decoded → String
  | .instruction found => found.text
  | .data bytes => dataText bytes

/-- One line of a disassembly: where it starts, and what is there. -/
structure Entry where
  offset : Nat
  content : Decoded
deriving DecidableEq, Repr

namespace Entry

def bytes (entry : Entry) : List UInt8 := entry.content.bytes

def size (entry : Entry) : Nat := entry.bytes.length

def text (entry : Entry) : String := entry.content.text

/-- The entry at the front of a binary, without those behind it. -/
def first? (bytes : List UInt8) : Option Entry :=
  (Decoded.read bytes).map fun (content, _) => ⟨0, content⟩

end Entry

def disassembleFrom (offset : Nat) (bytes : List UInt8) : List Entry :=
  if bytes = [] then []
  else
    match _found : Decoded.read bytes with
    | none => [⟨offset, .data bytes⟩]
    | some (content, rest) =>
      ⟨offset, content⟩ :: disassembleFrom (offset + content.bytes.length) rest
termination_by bytes.length
decreasing_by exact Decoded.read_length_lt _found

def disassemble (bytes : List UInt8) : List Entry :=
  disassembleFrom 0 bytes

end Z80Toolchain
