import Z80Toolchain.Source.Position
import Z80Toolchain.Text.Escape

/-!
Tokens and their text. A list of tokens written with a space between each two reads as the same
list again, if it is one that the tokenizer can produce.
-/
namespace Z80Toolchain

namespace Token

/-- What a token is. `bad` keeps the text of something that is no token, and `endOfInput` is what a
reader sees behind the last token. -/
inductive Kind
  | comma
  | leftParen
  | rightParen
  | plus
  | minus
  | newLine
  | endOfInput
  | integer (value : Int)
  | string (value : String)
  | text (name : String)
  | label (name : String)
  | atName (name : String)
  | bad (source : String)
deriving DecidableEq, Repr

namespace Kind

def render : Kind → String
  | comma => ","
  | leftParen => "("
  | rightParen => ")"
  | plus => "+"
  | minus => "-"
  | newLine => "\n"
  | endOfInput => ""
  | integer value => Numeral.signed value
  | string value => Text.quote value
  | text name => name
  | label name => name ++ ":"
  | atName name => "@" ++ name
  | bad source => source

/-- A statement ends before a line end and before the end of the input. -/
def endsLine (kind : Kind) : Bool :=
  kind == newLine || kind == endOfInput

end Kind

end Token

structure Token where
  kind : Token.Kind
  position : Position
deriving DecidableEq, Repr

namespace Token

def renderAll (kinds : List Kind) : String :=
  String.intercalate " " (kinds.map Kind.render)

end Token

end Z80Toolchain
