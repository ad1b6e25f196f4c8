import Z80Toolchain.Yaml.Line
import Z80Toolchain.Yaml.Scalar

/-!
How a text is written as the key of a mapping: as it is where that reads back as the same string,
else in single quotes, and in double quotes if it holds a character that has to be escaped. A key
with a line feed is written as a block of lines. Keys of more than one line, and long ones, are
marked by a question mark.
-/
namespace Z80Toolchain.Yaml

def isWritable (c : Char) : Bool :=
  let code := c.toNat
  code == 0x0A || (0x20 ≤ code && code ≤ 0x7E) || (0xA0 ≤ code && code ≤ 0xD7FF)
    || (0xE000 ≤ code && code ≤ 0xFFFD && code != 0xFEFF) || 0x10000 ≤ code

def isGap : List Char → Bool
  | [] => true
  | c :: _ => c == ' ' || c == '\t' || c == '\x00' || isBreak c

/-! ### Plain keys -/

def isIndicator (c : Char) : Bool :=
  "#,[]\x7b\x7d&*!|>'\"%@`".toList.contains c

/-- The text starts like something else than a plain key. -/
def opensOtherwise : List Char → Bool
  | [] => true
  | '-' :: '-' :: '-' :: _ => true
  | '.' :: '.' :: '.' :: _ => true
  | c :: rest => c == ' ' || isIndicator c || ((c == '-' || c == '?' || c == ':') && isGap rest)

/-- A colon before a gap or a number sign behind a blank ends a plain key. -/
def isInterrupted : List Char → Bool
  | [] => false
  | ':' :: rest => isGap rest || isInterrupted rest
  | ' ' :: '#' :: _ => true
  | _ :: rest => isInterrupted rest

def isPlain (text : List Char) : Bool :=
  !opensOtherwise text && !isInterrupted text && text.getLast? != some ' '
    && !text.any isBreak

/-! ### Quoted keys -/

def hasSpaceBreak : List Char → Bool
  | ' ' :: c :: rest => isBreak c || hasSpaceBreak (c :: rest)
  | _ :: rest => hasSpaceBreak rest
  | [] => false

def hasBreakSpace : List Char → Bool
  | c :: ' ' :: rest => isBreak c || hasBreakSpace rest
  | _ :: rest => hasBreakSpace rest
  | [] => false

def needsNoEscape (text : List Char) : Bool :=
  text.all isWritable && !hasSpaceBreak text

def singleQuoted (text : List Char) : List Char :=
  '\'' :: text.flatMap (fun c => if c = '\'' then ['\'', '\''] else [c]) ++ ['\'']

def escape? (c : Char) : Option String :=
  match c with
  | '\x00' => some "\\0"
  | '\x07' => some "\\a"
  | '\x08' => some "\\b"
  | '\t' => some "\\t"
  | '\n' => some "\\n"
  | '\x0b' => some "\\v"
  | '\x0c' => some "\\f"
  | '\r' => some "\\r"
  | '\x1b' => some "\\e"
  | '"' => some "\\\""
  | '\\' => some "\\\\"
  | '\x85' => some "\\N"
  | '\u2028' => some "\\L"
  | '\u2029' => some "\\P"
  | _ =>
    if isWritable c then none
    else if c.toNat ≤ 0xFF then some ("\\x" ++ Numeral.hexUpper 2 c.toNat)
    else if c.toNat ≤ 0xFFFF then some ("\\u" ++ Numeral.hexUpper 4 c.toNat)
    else some ("\\U" ++ Numeral.hexUpper 8 c.toNat)

def doubleQuoted (text : List Char) : String :=
  "\"" ++ String.join (text.map fun c => (escape? c).getD c.toString) ++ "\""

/-! ### Blocks of lines -/

def isBlock (text : List Char) : Bool :=
  needsNoEscape text && text.getLast? != some ' '

/-- The signs behind the bar: where the indentation ends if blanks follow it, and what happens to
the last line ends. -/
def blockHints (text : List Char) : String :=
  let indentation := if (text.head?.any fun c => c == ' ' || isBreak c) then "2" else ""
  let lastTwo := text.reverse.take 2
  let ending :=
    match lastTwo with
    | [] => "-"
    | last :: before =>
      if !isBreak last then "-"
      else if before.all isBreak then "+"
      else ""
  indentation ++ ending

def blockLines (text : List Char) : List Line :=
  .ofString ("|" ++ blockHints text) :: cutLines text

/-! ### Keys -/

def keyLines (text : List Char) : List Line :=
  if text.contains '\n' then
    if isBlock text then blockLines text else [.ofString (doubleQuoted text)]
  else if isAmbiguous text || !isPlain text || !text.all isWritable then
    if needsNoEscape text && !hasBreakSpace text then cutLines (singleQuoted text)
    else [.ofString (doubleQuoted text)]
  else cutLines text

/-- The key stands on the line of its value, or above it. -/
def isSimpleKey (text : List Char) : Bool :=
  !text.any isBreak && (String.ofList text).utf8ByteSize ≤ 128

end Z80Toolchain.Yaml
