import Z80Toolchain.Source.Token

/-!
What is wrong with a source text, and where. Each cause has one message.
-/
namespace Z80Toolchain

inductive Cause
  | unexpectedCharacter (c : Char)
  | overlong
  | malformedLiteral (text : String)
  | literalOutOfRange (text : String)
  | unknownInstruction (name : String)
  | invalidOperand (mnemonic : String)
  | expected (what : String)
  | expectedEndOfLine
  | unsupportedExpression
  | undefinedVariable (name : String)
  | valueOutOfRange (value : Int)
  | displacementOutOfRange (value : Int)
  | relativeOutOfRange (value : Int)
  | redefinedSymbol (name : String)
  | unresolvedSymbol (name : String)
  | addressOverflow (limit : Nat)
  | missingDefineName
  | unknownDirective (word : String)
  | unknownDefine (name : String)
deriving DecidableEq, Repr

def Cause.message : Cause → String
  | unexpectedCharacter c => "Unexpected character: `" ++ c.toString ++ "`"
  | overlong => "Literal overruns the scan buffer"
  | malformedLiteral text => "Malformed literal: `" ++ text ++ "`"
  | literalOutOfRange text => "Literal out of range: `" ++ text ++ "`"
  | unknownInstruction name => "Unknown instruction: `" ++ name ++ "`"
  | invalidOperand mnemonic => "Invalid operand for `" ++ mnemonic ++ "`"
  | expected what => "Expected " ++ what
  | expectedEndOfLine => "Expected end of line"
  | unsupportedExpression => "Unsupported expression"
  | undefinedVariable name => "Undefined variable: `@" ++ name ++ "`"
  | valueOutOfRange value => "Value out of range: " ++ Numeral.signed value
  | displacementOutOfRange value => "Displacement out of range: " ++ Numeral.signed value
  | relativeOutOfRange value => "Relative jump out of range: " ++ Numeral.signed value
  | redefinedSymbol name => "Re-defined symbol: `" ++ name ++ "`"
  | unresolvedSymbol name => "Unresolved symbol: `" ++ name ++ "`"
  | addressOverflow limit => "Code runs past the end of memory at 0x" ++ Numeral.hexUpper 1 limit
  | missingDefineName => "Missing macro name"
  | unknownDirective word => "Unknown directive: `%" ++ word ++ "`"
  | unknownDefine name => "Undefined macro: `" ++ name ++ "`"

/-- A cause at a place. `token` is the token found there, where a token was looked at. -/
structure Diagnostic where
  position : Position
  cause : Cause
  token : Option Token.Kind
deriving DecidableEq, Repr

namespace Diagnostic

def atToken (token : Token) (cause : Cause) : Diagnostic :=
  ⟨token.position, cause, some token.kind⟩

def message (diagnostic : Diagnostic) : String :=
  diagnostic.cause.message

/-- A complaint about a token that was already reported as bad. -/
def isFollowUp (diagnostic : Diagnostic) : Bool :=
  match diagnostic.token with
  | some (.bad _) => true
  | _ => false

def isUnresolved (diagnostic : Diagnostic) : Bool :=
  match diagnostic.cause with
  | .unresolvedSymbol _ => true
  | _ => false

end Diagnostic

end Z80Toolchain
