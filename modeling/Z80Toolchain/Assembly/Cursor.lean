import Z80Toolchain.Source.Diagnostic

/-!
Reading tokens from left to right. A reader gives a result or a diagnostic, and in both cases the
cursor behind what it has taken.
-/
namespace Z80Toolchain

/-- The tokens that are still to be read, and the place of the last token of the whole input, where
complaints about a missing token go. -/
structure Cursor where
  ahead : List Token
  final : Position
deriving DecidableEq, Repr

namespace Cursor

def ofTokens (tokens : List Token) : Cursor :=
  ⟨tokens, (tokens.getLast?.map Token.position).getD .start⟩

/-- The next token; behind the last one there is an end token. -/
def peek (cursor : Cursor) : Token :=
  cursor.ahead.head?.getD ⟨.endOfInput, .start⟩

def skip (cursor : Cursor) : Cursor :=
  { cursor with ahead := cursor.ahead.tail }

def atEnd (cursor : Cursor) : Bool :=
  cursor.ahead.isEmpty

def atLineEnd (cursor : Cursor) : Bool :=
  cursor.peek.kind.endsLine

def complain (cursor : Cursor) (cause : Cause) : Diagnostic :=
  if cursor.peek.kind = .endOfInput then ⟨cursor.final, cause, some .endOfInput⟩
  else .atToken cursor.peek cause

def lineAhead (cursor : Cursor) : List Token :=
  cursor.ahead.takeWhile fun token => !token.kind.endsLine

def skipLine (cursor : Cursor) : Cursor :=
  { cursor with ahead := cursor.ahead.dropWhile fun token => !token.kind.endsLine }

end Cursor

def Parse (α : Type) : Type :=
  Cursor → Except Diagnostic α × Cursor

namespace Parse

instance : Monad Parse where
  pure value := fun cursor => (.ok value, cursor)
  bind reader next := fun cursor =>
    match reader cursor with
    | (.ok value, after) => next value after
    | (.error diagnostic, after) => (.error diagnostic, after)

def run {α : Type} (reader : Parse α) (cursor : Cursor) : Except Diagnostic α × Cursor :=
  reader cursor

def fail {α : Type} (diagnostic : Diagnostic) : Parse α :=
  fun cursor => (.error diagnostic, cursor)

def refuse {α : Type} (cause : Cause) : Parse α :=
  fun cursor => (.error (cursor.complain cause), cursor)

def ofExcept {α : Type} : Except Diagnostic α → Parse α
  | .ok value => pure value
  | .error diagnostic => fail diagnostic

def peek : Parse Token :=
  fun cursor => (.ok cursor.peek, cursor)

def take : Parse Token :=
  fun cursor => (.ok cursor.peek, cursor.skip)

def atLineEnd : Parse Bool :=
  fun cursor => (.ok cursor.atLineEnd, cursor)

def eat (kind : Token.Kind) : Parse Bool :=
  fun cursor => if cursor.peek.kind = kind then (.ok true, cursor.skip) else (.ok false, cursor)

def expect (kind : Token.Kind) (what : String) : Parse Unit :=
  fun cursor =>
    if cursor.peek.kind = kind then (.ok (), cursor.skip)
    else (.error (cursor.complain (.expected what)), cursor)

end Parse

end Z80Toolchain
