/-!
Numbers as text: the padded hexadecimal numbers of listings, signed decimals, and the reading of an
unsigned number up to a limit with the reason why a text is none.
-/
namespace Z80Toolchain.Numeral

/-! ### Writing -/

def hex (width number : Nat) : String :=
  String.ofList ((Nat.toDigits 16 number).leftpad width '0')

def hexUpper (width number : Nat) : String :=
  String.ofList (((Nat.toDigits 16 number).map Char.toUpper).leftpad width '0')

def decimal (number : Nat) : String :=
  String.ofList (Nat.toDigits 10 number)

def signed : Int → String
  | .ofNat number => decimal number
  | .negSucc number => "-" ++ decimal (number + 1)

def padStart (width : Nat) (text : String) : String :=
  String.ofList (text.toList.leftpad width ' ')

def padEnd (width : Nat) (text : String) : String :=
  String.ofList (text.toList.rightpad width ' ')

/-! ### Reading -/

def digitValue? (radix : Nat) (c : Char) : Option Nat :=
  let value? :=
    if '0' ≤ c ∧ c ≤ '9' then some (c.toNat - '0'.toNat)
    else if 'a' ≤ c ∧ c ≤ 'z' then some (c.toNat - 'a'.toNat + 10)
    else if 'A' ≤ c ∧ c ≤ 'Z' then some (c.toNat - 'A'.toNat + 10)
    else none
  value?.filter (· < radix)

def isDigit (radix : Nat) (c : Char) : Bool :=
  (digitValue? radix c).isSome

/-- The number that a list of digits denotes; any other character counts as zero. -/
def value (radix : Nat) (digits : List Char) : Nat :=
  digits.foldl (fun number c => number * radix + (digitValue? radix c).getD 0) 0

/-- The base that the first two characters of a number choose, and the digits behind them. -/
def radixAndDigits : List Char → Nat × List Char
  | '0' :: 'x' :: digits => (16, digits)
  | '0' :: 'X' :: digits => (16, digits)
  | '0' :: 'b' :: digits => (2, digits)
  | '0' :: 'B' :: digits => (2, digits)
  | digits => (10, digits)

inductive Fault
  | empty
  | invalidDigit
  | tooLarge
deriving DecidableEq, Repr

def Fault.message : Fault → String
  | .empty => "cannot parse integer from empty string"
  | .invalidDigit => "invalid digit found in string"
  | .tooLarge => "number too large to fit in target type"

/-- Reads digits after those that gave `number`; the first digit that is wrong, or that takes the
number over the limit, decides the fault. -/
def readDigits (radix limit : Nat) (number : Nat) : List Char → Except Fault Nat
  | [] => .ok number
  | c :: rest =>
    match digitValue? radix c with
    | none => .error .invalidDigit
    | some digit =>
      let next := number * radix + digit
      if next ≤ limit then readDigits radix limit next rest else .error .tooLarge

def read (radix limit : Nat) : List Char → Except Fault Nat
  | [] => .error .empty
  | ['+'] => .error .invalidDigit
  | '+' :: digits => readDigits radix limit 0 digits
  | digits => readDigits radix limit 0 digits

end Z80Toolchain.Numeral
