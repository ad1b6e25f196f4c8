import Z80Toolchain.Listing.Dump
import Z80Toolchain.Machine.Disassembly

/-!
The listing of a disassembly: address, bytes and text of each entry. Data stands out in yellow.
-/
namespace Z80Toolchain

def Entry.listing (origin : UInt16) (entry : Entry) : String :=
  let address := origin + UInt16.ofNat entry.offset
  let text :=
    match entry.content with
    | .instruction _ => entry.text
    | .data _ => Painting.terminal.paint [.yellow] entry.text
  "[" ++ Numeral.hexUpper 4 address.toNat ++ "] " ++ Numeral.padEnd 11 (hexBytes entry.bytes)
    ++ "  " ++ text ++ "\n"

end Z80Toolchain
