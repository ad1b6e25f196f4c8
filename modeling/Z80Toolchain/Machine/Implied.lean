/-!
Instructions without operands. Each has one name and one byte, some of them behind the byte `0xED`
that opens the extended table.
-/
namespace Z80Toolchain

def extendedMarker : UInt8 := 0xED

inductive Implied
  | nop | rlca | rrca | rla | rra | daa | cpl | scf | ccf | halt | exx | di | ei
  | neg | retn | reti | rrd | rld
  | ldi | cpi | ini | outi | ldd | cpd | ind | outd
  | ldir | cpir | inir | otir | lddr | cpdr | indr | otdr
deriving DecidableEq, Repr

namespace Implied

def all : List Implied :=
  [nop, rlca, rrca, rla, rra, daa, cpl, scf, ccf, halt, exx, di, ei,
   neg, retn, reti, rrd, rld,
   ldi, cpi, ini, outi, ldd, cpd, ind, outd,
   ldir, cpir, inir, otir, lddr, cpdr, indr, otdr]

def name : Implied → String
  | nop => "nop" | rlca => "rlca" | rrca => "rrca" | rla => "rla" | rra => "rra"
  | daa => "daa" | cpl => "cpl" | scf => "scf" | ccf => "ccf" | halt => "halt"
  | exx => "exx" | di => "di" | ei => "ei"
  | neg => "neg" | retn => "retn" | reti => "reti" | rrd => "rrd" | rld => "rld"
  | ldi => "ldi" | cpi => "cpi" | ini => "ini" | outi => "outi"
  | ldd => "ldd" | cpd => "cpd" | ind => "ind" | outd => "outd"
  | ldir => "ldir" | cpir => "cpir" | inir => "inir" | otir => "otir"
  | lddr => "lddr" | cpdr => "cpdr" | indr => "indr" | otdr => "otdr"

def bytes : Implied → List UInt8
  | nop => [0x00] | rlca => [0x07] | rrca => [0x0F] | rla => [0x17] | rra => [0x1F]
  | daa => [0x27] | cpl => [0x2F] | scf => [0x37] | ccf => [0x3F] | halt => [0x76]
  | exx => [0xD9] | di => [0xF3] | ei => [0xFB]
  | neg => [0xED, 0x44] | retn => [0xED, 0x45] | reti => [0xED, 0x4D]
  | rrd => [0xED, 0x67] | rld => [0xED, 0x6F]
  | ldi => [0xED, 0xA0] | cpi => [0xED, 0xA1] | ini => [0xED, 0xA2] | outi => [0xED, 0xA3]
  | ldd => [0xED, 0xA8] | cpd => [0xED, 0xA9] | ind => [0xED, 0xAA] | outd => [0xED, 0xAB]
  | ldir => [0xED, 0xB0] | cpir => [0xED, 0xB1] | inir => [0xED, 0xB2] | otir => [0xED, 0xB3]
  | lddr => [0xED, 0xB8] | cpdr => [0xED, 0xB9] | indr => [0xED, 0xBA] | otdr => [0xED, 0xBB]

def ofName? (name : String) : Option Implied :=
  all.find? (·.name == name)

/-- The instruction that consists of exactly these bytes. -/
def ofBytes? (bytes : List UInt8) : Option Implied :=
  all.find? (·.bytes == bytes)

theorem of_name?_name (operation : Implied) : ofName? operation.name = some operation := by
  cases operation <;> decide

theorem of_bytes?_bytes (operation : Implied) : ofBytes? operation.bytes = some operation := by
  cases operation <;> decide

end Implied

end Z80Toolchain
