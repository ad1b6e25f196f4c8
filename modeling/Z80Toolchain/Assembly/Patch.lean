import Z80Toolchain.Assembly.Statement
import Z80Toolchain.Assembly.Symbols
import Z80Toolchain.Machine.Address

/-!
Patching labels into code. An absolute patch replaces two bytes by the address. A relative patch
adds the value of the label to a byte that holds, modulo 256, what has to be added to it; this
baseline is the addend of the patch.
-/
namespace Z80Toolchain

/-- A place in code that waits for a label. The offset counts from the start of the code. -/
structure Patch where
  name : String
  offset : Nat
  width : Width
  addend : Int
  position : Position
deriving DecidableEq, Repr

inductive Edit
  | storeWord (offset : Nat) (word : UInt16)
  | addByte (offset : Nat) (byte : UInt8)
deriving DecidableEq, Repr

namespace Edit

def apply (code : Array UInt8) : Edit → Array UInt8
  | storeWord offset word =>
    (code.setIfInBounds offset (UInt8.ofNat (word.toNat % 256))).setIfInBounds (offset + 1)
      (UInt8.ofNat (word.toNat / 256))
  | addByte offset byte => code.modify offset (· + byte)

end Edit

namespace Patch

def complain (patch : Patch) (cause : Cause) : Diagnostic :=
  ⟨patch.position, cause, none⟩

def editFor (patch : Patch) (value : Int) : Except Diagnostic Edit :=
  let target := value + patch.addend
  match patch.width with
  | .absolute =>
    if -32768 ≤ target ∧ target ≤ 65535 then
      .ok (.storeWord patch.offset (UInt16.ofInt target))
    else .error (patch.complain (.valueOutOfRange (Address.wrapped target)))
  | .relative =>
    if -128 ≤ target ∧ target ≤ 127 then .ok (.addByte patch.offset (UInt8.ofInt value))
    else .error (patch.complain (.relativeOutOfRange (Address.wrapped target)))

def edit (symbols : Symbols) (patch : Patch) : Except Diagnostic Edit :=
  match symbols.value? patch.name with
  | none => .error (patch.complain (.unresolvedSymbol patch.name))
  | some value => patch.editFor value

/-- Applies the patches in order; one that cannot be applied leaves the code alone and is reported. -/
def resolve (symbols : Symbols) (code : Array UInt8) : List Patch → Array UInt8 × List Diagnostic
  | [] => (code, [])
  | patch :: rest =>
    match patch.edit symbols with
    | .ok edit => resolve symbols (edit.apply code) rest
    | .error diagnostic =>
      let (code, diagnostics) := resolve symbols code rest
      (code, diagnostic :: diagnostics)

/-- The patch of a reference in bytes that start at an offset of the code. A relative patch counts
from the byte behind the one it changes. -/
def ofReference (origin : UInt16) (start : Nat) (reference : Reference) : Patch :=
  let offset := start + reference.offset
  let addend :=
    match reference.width with
    | .absolute => reference.addend
    | .relative =>
      Address.wrapped (reference.addend - Address.wrapped (Address.ofOffset origin offset + 1))
  ⟨reference.name, offset, reference.width, addend, reference.position⟩

end Patch

end Z80Toolchain
