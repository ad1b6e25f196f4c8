import Z80Toolchain.Text.Numeral

/-!
Which texts YAML reads as something else than a string when they stand without quotes: nothing,
truth values, integers of at most 128 bits, and finite decimal fractions. Digits behind a leading
zero are a string that looks like a number; they count here as well.
-/
namespace Z80Toolchain.Yaml

def isNull (text : String) : Bool :=
  ["", "null", "Null", "NULL", "~"].contains text

def isTruth (text : String) : Bool :=
  ["true", "True", "TRUE", "false", "False", "FALSE"].contains text

def dropSign : List Char → List Char
  | '+' :: rest => rest
  | '-' :: rest => rest
  | text => text

def isPaddedNumber (text : List Char) : Bool :=
  match dropSign text with
  | '0' :: second :: rest => (second :: rest).all Char.isDigit
  | _ => false

/-! ### Integers -/

/-- The base and the digits of an integer without its sign; only small letters choose a base. -/
def integerDigits : List Char → Nat × List Char
  | '0' :: 'x' :: digits => (16, digits)
  | '0' :: 'o' :: digits => (8, digits)
  | '0' :: 'b' :: digits => (2, digits)
  | digits => (10, digits)

def fits (limit : Nat) (radixAndDigits : Nat × List Char) : Bool :=
  let (radix, digits) := radixAndDigits
  !digits.isEmpty && digits.all (Numeral.isDigit radix) && Numeral.value radix digits ≤ limit

def isInteger : List Char → Bool
  | '+' :: rest => fits (Nat.pow 2 128 - 1) (integerDigits rest)
  | '-' :: rest => fits (Nat.pow 2 127) (integerDigits rest)
  | text => fits (Nat.pow 2 128 - 1) (integerDigits text)

/-! ### Fractions -/

structure Fraction where
  digits : Nat
  exponent : Int
deriving DecidableEq, Repr

namespace Fraction

def readExponent : List Char → Option Int
  | '+' :: digits => natural digits
  | '-' :: digits => (natural digits).map fun exponent => -exponent
  | digits => natural digits
where
  natural (digits : List Char) : Option Int :=
    if digits.isEmpty || !digits.all Char.isDigit then none
    else some (Int.ofNat (Numeral.value 10 digits))

def readEnd (whole part : List Char) : List Char → Option Fraction
  | [] => some ⟨Numeral.value 10 (whole ++ part), -Int.ofNat part.length⟩
  | c :: rest =>
    if c = 'e' ∨ c = 'E' then
      (readExponent rest).map fun exponent =>
        ⟨Numeral.value 10 (whole ++ part), exponent - Int.ofNat part.length⟩
    else none

def read? (text : List Char) : Option Fraction :=
  let whole := text.takeWhile Char.isDigit
  match text.dropWhile Char.isDigit with
  | '.' :: rest =>
    let part := rest.takeWhile Char.isDigit
    if whole.isEmpty && part.isEmpty then none
    else readEnd whole part (rest.dropWhile Char.isDigit)
  | rest => if whole.isEmpty then none else readEnd whole [] rest

/-- Numbers from here on round to infinity in a format of 53 binary digits. -/
def bound : Nat := (Nat.pow 2 54 - 1) * Nat.pow 2 970

/-- The number is below the bound. Exponents that decide this by the number of digits alone are not
computed with. -/
def isFinite (fraction : Fraction) : Bool :=
  let places : Int := Int.ofNat (Numeral.decimal fraction.digits).length + fraction.exponent
  if fraction.digits = 0 ∨ places ≤ 308 then true
  else if 310 < places then false
  else
    fraction.digits * Nat.pow 10 fraction.exponent.toNat <
      bound * Nat.pow 10 (-fraction.exponent).toNat

end Fraction

/-- A finite decimal fraction with at most one sign, or one of the names for what is no number. -/
def isFraction (text : List Char) : Bool :=
  [".inf", ".Inf", ".INF", "+.inf", "+.Inf", "+.INF", "-.inf", "-.Inf", "-.INF",
    ".nan", ".NaN", ".NAN"].contains (String.ofList text)
    || (Fraction.read? (dropSign text)).any Fraction.isFinite

/-- A text that without quotes is no string, or looks like none. -/
def isAmbiguous (text : List Char) : Bool :=
  isNull (String.ofList text) || isTruth (String.ofList text) || isPaddedNumber text
    || isInteger text || isFraction text

end Z80Toolchain.Yaml
