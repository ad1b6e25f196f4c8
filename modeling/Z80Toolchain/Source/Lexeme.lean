import Z80Toolchain.Source.Diagnostic

/-!
Source text cut into lexemes. Every character belongs to exactly one lexeme: a token, a gap between
tokens, a line end, or a piece that is no token together with the reason. No lexeme but a line end
holds a line feed.
-/
namespace Z80Toolchain

/-- Names, numbers and strings of more than this many bytes are refused. -/
def scanCapacity : Nat := 64

/-- The largest integer that a number token can hold. -/
def integerLimit : Nat := 2147483647

/-! ### Character classes -/

/-- Inside a name; registers such as `af'` end in an apostrophe. -/
def isNameChar (c : Char) : Bool :=
  c.isAlphanum || c == '.' || c == '_' || c == '\''

def isNameStart (c : Char) : Bool :=
  c.isAlpha || c == '.'

def isVariableChar (c : Char) : Bool :=
  c.isAlphanum || c == '.' || c == '_'

/-- Inside a number. Letters that are no digits make the number malformed, not shorter. -/
def isNumeralChar (c : Char) : Bool :=
  c.isAlphanum || c == '_'

/-! ### Lexemes -/

inductive Lexeme.Content
  | gap
  | lineEnd
  | token (kind : Token.Kind)
  | fault (cause : Cause)
deriving DecidableEq, Repr

/-- A piece of source text and what it is. -/
structure Lexeme where
  text : List Char
  content : Lexeme.Content
deriving DecidableEq, Repr

namespace Lexeme

def ofToken (text : List Char) (kind : Token.Kind) : Lexeme :=
  ⟨text, .token kind⟩

def malformed (text : List Char) : Lexeme :=
  ⟨text, .fault (.malformedLiteral (String.ofList text))⟩

def overlong (text : List Char) : Lexeme :=
  ⟨text, .fault .overlong⟩

def name (text rest : List Char) : Lexeme :=
  if scanCapacity < text.length then overlong text
  else if rest.head? = some ':' then ofToken (text ++ [':']) (.label (String.ofList text))
  else ofToken text (.text (String.ofList text))

def atName (name : List Char) : Lexeme :=
  if name = [] then malformed ['@']
  else if scanCapacity < name.length then overlong ('@' :: name)
  else ofToken ('@' :: name) (.atName (String.ofList name))

def numberOf (text : List Char) (radix : Nat) (digits : List Char) : Lexeme :=
  if digits = [] ∨ ¬ digits.all (Numeral.isDigit radix) then malformed text
  else if Numeral.value radix digits ≤ integerLimit then
    ofToken text (.integer (Numeral.value radix digits))
  else ⟨text, .fault (.literalOutOfRange (String.ofList text))⟩

def number (text : List Char) : Lexeme :=
  if scanCapacity < text.length then overlong text
  else numberOf text (Numeral.radixAndDigits text).1 (Numeral.radixAndDigits text).2

/-- What is skipped of a broken literal: up to its closing quote or the end of its line. -/
def recovery (mark : Char) (rest : List Char) : List Char :=
  let skipped := rest.takeWhile fun c => c != mark && c != '\n'
  match rest.drop skipped.length with
  | c :: _ => if c = mark then skipped ++ [mark] else skipped
  | [] => skipped

/-- One character of a quoted literal, as its value, if it has one, and its text. -/
def quotedChar : List Char → Option Char × List Char
  | [] => (none, [])
  | '\n' :: _ => (none, [])
  | '\\' :: [] => (none, ['\\'])
  | '\\' :: '\n' :: _ => (none, ['\\'])
  | '\\' :: letter :: _ => (Text.unescape? letter, ['\\', letter])
  | c :: _ => (some c, [c])

def character (rest : List Char) : Lexeme :=
  let (value, text) := quotedChar rest
  match value, rest.drop text.length with
  | some c, '\'' :: _ => ofToken ('\'' :: text ++ ['\'']) (.integer c.toNat)
  | _, rest => malformed ('\'' :: text ++ recovery '\'' rest)

def before (c : Char) (source : List Char) (body : Option (List Char) × List Char) :
    Option (List Char) × List Char :=
  (body.1.map (c :: ·), source ++ body.2)

/-- The value of a string literal, if it has one, and its text behind the opening quote. -/
def stringBody : List Char → Option (List Char) × List Char
  | [] => (none, [])
  | '"' :: _ => (some [], ['"'])
  | '\n' :: _ => (none, [])
  | '\\' :: [] => (none, ['\\'])
  | '\\' :: '\n' :: _ => (none, ['\\'])
  | '\\' :: letter :: rest =>
    match Text.unescape? letter with
    | some c => before c ['\\', letter] (stringBody rest)
    | none => (none, '\\' :: letter :: recovery '"' rest)
  | c :: rest => before c [c] (stringBody rest)

def string (rest : List Char) : Lexeme :=
  match stringBody rest with
  | (none, text) => malformed ('"' :: text)
  | (some value, text) =>
    if scanCapacity < (String.ofList value).utf8ByteSize then overlong ('"' :: text)
    else ofToken ('"' :: text) (.string (String.ofList value))

def first (c : Char) (rest : List Char) : Lexeme :=
  match c with
  | ' ' | '\t' => ⟨[c], .gap⟩
  | ';' => ⟨c :: rest.takeWhile (· != '\n'), .gap⟩
  | '\n' => ⟨[c], .lineEnd⟩
  | ',' => ofToken [c] .comma
  | '(' => ofToken [c] .leftParen
  | ')' => ofToken [c] .rightParen
  | '+' => ofToken [c] .plus
  | '-' => ofToken [c] .minus
  | '@' => atName (rest.takeWhile isVariableChar)
  | '\'' => character rest
  | '"' => string rest
  | c =>
    if c.isDigit then number (c :: rest.takeWhile isNumeralChar)
    else if isNameStart c then
      name (c :: rest.takeWhile isNameChar) (rest.dropWhile isNameChar)
    else ⟨[c], .fault (.unexpectedCharacter c)⟩

end Lexeme

def lexemes : List Char → List Lexeme
  | [] => []
  | c :: rest =>
    Lexeme.first c rest :: lexemes (rest.drop ((Lexeme.first c rest).text.length - 1))
termination_by text => text.length

end Z80Toolchain
