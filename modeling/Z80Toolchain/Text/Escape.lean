import Z80Toolchain.Text.Numeral
import Z80Toolchain.Text.Printable

/-!
Escapes: a backslash and one letter for a character that a quoted literal cannot show. Tokens are
written with the escapes that the assembler reads; token listings also write every unprintable
character by its code.
-/
namespace Z80Toolchain.Text

/-- The letter behind the backslash, for a character that a string literal escapes. -/
def escapeLetter? : Char → Option Char
  | '\n' => some 'n'
  | '\t' => some 't'
  | '\r' => some 'r'
  | '\x00' => some '0'
  | '\\' => some '\\'
  | '"' => some '"'
  | _ => none

def unescape? : Char → Option Char
  | 'n' => some '\n'
  | 't' => some '\t'
  | 'r' => some '\r'
  | '0' => some '\x00'
  | '\\' => some '\\'
  | '\'' => some '\''
  | '"' => some '"'
  | _ => none

theorem unescape?_of_escape_letter? {c letter : Char} (escaped : escapeLetter? c = some letter) :
    unescape? letter = some c := by
  unfold escapeLetter? at escaped
  split at escaped <;> simp_all <;> subst escaped <;> rfl

def escape (c : Char) : List Char :=
  match escapeLetter? c with
  | some letter => ['\\', letter]
  | none => [c]

def quote (text : String) : String :=
  String.ofList ('"' :: text.toList.flatMap escape ++ ['"'])

/-- One character inside a quoted text of a listing. -/
def listed (c : Char) : List Char :=
  match escapeLetter? c with
  | some letter => ['\\', letter]
  | none =>
    if isPrintable c then [c]
    else "\\u\x7b".toList ++ (Numeral.hex 1 c.toNat).toList ++ "\x7d".toList

def quoteListed (text : String) : String :=
  String.ofList ('"' :: text.toList.flatMap listed ++ ['"'])

end Z80Toolchain.Text
