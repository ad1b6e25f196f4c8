import Z80Toolchain.Text.Case

/-!
Registers and conditions: their names, and the codes that stand for them in the fields of an opcode.
Names are written in small letters and read in any case.
-/
namespace Z80Toolchain

open Text (lower)

/-! ### Operand fields -/

instance twoBits : @NeZero Nat Zero.ofOfNat0 4 := ⟨by decide⟩

instance threeBits : @NeZero Nat Zero.ofOfNat0 8 := ⟨by decide⟩

/-! ### Eight-bit registers -/

inductive Reg8
  | b | c | d | e | h | l | a
deriving DecidableEq, Repr

namespace Reg8

def all : List Reg8 := [b, c, d, e, h, l, a]

def name : Reg8 → String
  | b => "b" | c => "c" | d => "d" | e => "e" | h => "h" | l => "l" | a => "a"

def ofName? (text : String) : Option Reg8 :=
  all.find? (·.name == lower text)

/-- The operand field; the code 6 is left for the memory cell that `hl` points to. -/
def slot : Reg8 → Fin 8
  | b => 0 | c => 1 | d => 2 | e => 3 | h => 4 | l => 5 | a => 7

def ofSlot? : Fin 8 → Option Reg8
  | 0 => some b | 1 => some c | 2 => some d | 3 => some e
  | 4 => some h | 5 => some l | 6 => none | 7 => some a

def ofNumber? (number : Nat) : Option Reg8 :=
  if h : number < 8 then ofSlot? ⟨number, h⟩ else none

def isHalfOfHl (register : Reg8) : Bool :=
  register == h || register == l

theorem of_slot?_slot (register : Reg8) : ofSlot? register.slot = some register := by
  cases register <;> rfl

theorem slot_of_slot? {slot : Fin 8} {register : Reg8} (found : ofSlot? slot = some register) :
    register.slot = slot := by
  revert slot register; decide

end Reg8

def memorySlot : Fin 8 := 6

def slotName (slot : Fin 8) : String :=
  ((Reg8.ofSlot? slot).map Reg8.name).getD "(hl)"

/-! ### Register pairs -/

inductive Pair
  | bc | de | hl | sp | af
deriving DecidableEq, Repr

namespace Pair

def all : List Pair := [bc, de, hl, sp, af]

def name : Pair → String
  | bc => "bc" | de => "de" | hl => "hl" | sp => "sp" | af => "af"

def ofName? (text : String) : Option Pair :=
  all.find? (·.name == lower text)

/-- The pair field of loads and sixteen-bit arithmetic, which has no `af`. -/
def field? : Pair → Option (Fin 4)
  | bc => some 0 | de => some 1 | hl => some 2 | sp => some 3 | af => none

/-- The pair field of stack instructions, which has no `sp`. -/
def stackField? : Pair → Option (Fin 4)
  | bc => some 0 | de => some 1 | hl => some 2 | sp => none | af => some 3

def ofField : Fin 4 → Pair
  | 0 => bc | 1 => de | 2 => hl | 3 => sp

def ofStackField : Fin 4 → Pair
  | 0 => bc | 1 => de | 2 => hl | 3 => af

/-- The pairs in the order `bc de hl sp af`, counted from zero. -/
def ofNumber? (number : Nat) : Option Pair :=
  all[number]?

theorem field?_of_field (field : Fin 4) : (ofField field).field? = some field := by
  revert field; decide

theorem stack_field?_of_stack_field (field : Fin 4) :
    (ofStackField field).stackField? = some field := by
  revert field; decide

end Pair

/-! ### Index registers -/

/-- The index registers, which take the place of `hl` behind a prefix byte. -/
inductive Index
  | ix | iy
deriving DecidableEq, Repr

namespace Index

def all : List Index := [ix, iy]

def name : Index → String
  | ix => "ix" | iy => "iy"

def ofName? (text : String) : Option Index :=
  all.find? (·.name == lower text)

/-- The byte in front of an instruction that makes `hl` mean this register. -/
def marker : Index → UInt8
  | ix => 0xDD | iy => 0xFD

def ofMarker? (byte : UInt8) : Option Index :=
  all.find? (·.marker == byte)

end Index

inductive Half
  | high | low
deriving DecidableEq, Repr

namespace Half

def all : List Half := [high, low]

def register : Half → Reg8
  | high => .h | low => .l

end Half

namespace Index

def halfName (index : Index) (half : Half) : String :=
  index.name ++ half.register.name

def halves : List (Index × Half) :=
  all.flatMap fun index => Half.all.map fun half => (index, half)

def ofHalfName? (text : String) : Option (Index × Half) :=
  halves.find? fun (index, half) => index.halfName half == lower text

end Index

/-! ### Conditions -/

inductive Cond
  | nz | z | nc | c | po | pe | p | m
deriving DecidableEq, Repr

inductive ShortCond
  | nz | z | nc | c
deriving DecidableEq, Repr

namespace Cond

def all : List Cond := [nz, z, nc, c, po, pe, p, m]

def name : Cond → String
  | nz => "nz" | z => "z" | nc => "nc" | c => "c" | po => "po" | pe => "pe" | p => "p" | m => "m"

def ofName? (text : String) : Option Cond :=
  all.find? (·.name == lower text)

def code : Cond → Fin 8
  | nz => 0 | z => 1 | nc => 2 | c => 3 | po => 4 | pe => 5 | p => 6 | m => 7

def ofCode : Fin 8 → Cond
  | 0 => nz | 1 => z | 2 => nc | 3 => c | 4 => po | 5 => pe | 6 => p | 7 => m

def ofNumber? (number : Nat) : Option Cond :=
  if h : number < 8 then some (ofCode ⟨number, h⟩) else none

def short? : Cond → Option ShortCond
  | nz => some .nz | z => some .z | nc => some .nc | c => some .c
  | po | pe | p | m => none

theorem of_code_code (cond : Cond) : ofCode cond.code = cond := by
  cases cond <;> rfl

end Cond

namespace ShortCond

def toCond : ShortCond → Cond
  | nz => .nz | z => .z | nc => .nc | c => .c

def name (cond : ShortCond) : String :=
  cond.toCond.name

def code : ShortCond → Fin 4
  | nz => 0 | z => 1 | nc => 2 | c => 3

def ofCode : Fin 4 → ShortCond
  | 0 => nz | 1 => z | 2 => nc | 3 => c

theorem of_code_code (cond : ShortCond) : ofCode cond.code = cond := by
  cases cond <;> rfl

end ShortCond

end Z80Toolchain
