import Z80Toolchain.Assembly.Assemble

/-!
The listing of a token list: one line for each token of the expanded source, with its place in the
source.
-/
namespace Z80Toolchain

namespace Token.Kind

def listing : Token.Kind → String
  | comma => "Comma"
  | leftParen => "LParen"
  | rightParen => "RParen"
  | plus => "Plus"
  | minus => "Minus"
  | newLine => "NewLine"
  | endOfInput => "EndOfInput"
  | integer value => "Integer(" ++ Numeral.signed value ++ ")"
  | string value => "Str(" ++ Text.quoteListed value ++ ")"
  | text name => "Text(" ++ Text.quoteListed name ++ ")"
  | label name => "Label(" ++ Text.quoteListed name ++ ")"
  | atName name => "Variable(" ++ Text.quoteListed name ++ ")"
  | bad source => "Bad(" ++ Text.quoteListed source ++ ")"

end Token.Kind

def Token.listing (path : String) (token : Token) : String :=
  path ++ ":" ++ token.position.text ++ " " ++ token.kind.listing ++ "\n"

def tokenListing (path : String) (source : List Char) : String :=
  String.join ((Expansion.ofText (Text.normalize source)).tokens.map (Token.listing path))

end Z80Toolchain
