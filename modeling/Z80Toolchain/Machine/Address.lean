import Z80Toolchain.Text.Numeral

/-!
Addresses. Options write them in hexadecimal after `0x`, in binary after `0b`, otherwise in decimal,
and at most `0xFFFF`. The address of an offset in code is computed in signed integers of 32 bits,
without a look at what does not fit.
-/
namespace Z80Toolchain.Address

def space : Nat := 0x10000

def last : Nat := 0xFFFF

/-- A number as a signed integer of 32 bits keeps it. -/
def wrapped (number : Int) : Int :=
  (Int32.ofInt number).toInt

-- the offset is cut to 32 bits before it is added, and the sum again
def ofOffset (origin : UInt16) (offset : Nat) : Int :=
  wrapped (origin.toNat + wrapped offset)

def read (text : List Char) : Except Numeral.Fault Nat :=
  Numeral.read (Numeral.radixAndDigits text).1 last (Numeral.radixAndDigits text).2

def refusal (text : String) (fault : Numeral.Fault) : String :=
  "invalid address `" ++ text ++ "`: " ++ fault.message

end Z80Toolchain.Address
