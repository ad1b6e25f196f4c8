import Z80Toolchain.Machine.Address
import Z80Toolchain.Project.Failure

/-!
Linking: segments are laid out in order from the address of the first one. A segment without an
address follows the one before it, and gaps are filled with zeros.
-/
namespace Z80Toolchain

/-- The bytes of one source, with the address they are bound to. -/
structure Segment where
  name : String
  address : Option UInt16
  bytes : List UInt8
deriving DecidableEq, Repr

/-- A block of memory. -/
structure Image where
  base : UInt16
  bytes : List UInt8
deriving DecidableEq, Repr

namespace Image

def stop (image : Image) : Nat :=
  image.base.toNat + image.bytes.length

def startOf (image : Image) (segment : Segment) : Except Failure Nat :=
  match segment.address with
  | none => .ok image.stop
  | some address =>
    if address.toNat < image.stop then .error (.overlap segment.name address image.stop)
    else .ok address.toNat

def add (image : Image) (segment : Segment) : Except Failure Image := do
  let start ← image.startOf segment
  let stop := start + segment.bytes.length
  if Address.space < stop then .error (.imageOverflow segment.name stop)
  else
    let gap := List.replicate (start - image.stop) 0
    .ok { image with bytes := image.bytes ++ (gap ++ segment.bytes) }

def baseOf : List Segment → UInt16
  | [] => 0
  | segment :: _ => segment.address.getD 0

def link (segments : List Segment) : Except Failure Image :=
  segments.foldlM add ⟨baseOf segments, []⟩

end Image

end Z80Toolchain
