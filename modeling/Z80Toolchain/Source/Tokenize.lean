import Z80Toolchain.Source.Lexeme
import Z80Toolchain.Text.Lines

/-!
From lexemes to tokens. Gaps vanish, line ends in a row become one, and a line end closes the last
line whether the text has one there or not. What is no token becomes a bad token and a diagnostic
at the same place.
-/
namespace Z80Toolchain

namespace Lexeme

/-- The tokens of the lexemes from a place on. `closed` tells that the token before is a line end. -/
def tokensFrom (position : Position) (closed : Bool) : List Lexeme → List Token
  | [] => if closed then [] else [⟨.newLine, position⟩]
  | lexeme :: rest =>
    let next := position.advance lexeme.text
    match lexeme.content with
    | .gap => tokensFrom next closed rest
    | .lineEnd =>
      if closed then tokensFrom next true rest
      else ⟨.newLine, position⟩ :: tokensFrom next true rest
    | .token kind => ⟨kind, position⟩ :: tokensFrom next false rest
    | .fault _ => ⟨.bad (String.ofList lexeme.text), position⟩ :: tokensFrom next false rest

def faultsFrom (position : Position) : List Lexeme → List Diagnostic
  | [] => []
  | lexeme :: rest =>
    let next := position.advance lexeme.text
    match lexeme.content with
    | .fault cause =>
      ⟨position, cause, some (.bad (String.ofList lexeme.text))⟩ :: faultsFrom next rest
    | _ => faultsFrom next rest

end Lexeme

def tokenize (source : List Char) : List Token :=
  Lexeme.tokensFrom .start false (lexemes (Text.normalize source))

def lexicalFaults (source : List Char) : List Diagnostic :=
  Lexeme.faultsFrom .start (lexemes (Text.normalize source))

end Z80Toolchain
