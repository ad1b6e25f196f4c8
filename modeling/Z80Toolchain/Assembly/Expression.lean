import Z80Toolchain.Assembly.Cursor
import Z80Toolchain.Assembly.Symbols

/-!
Operand arithmetic: a term, or a label where one is allowed, followed by terms with signs. A term is
an integer, a negated integer or a variable. Values and partial sums stay within 32 bits; a sum that
leaves them is refused, never wrapped.
-/
namespace Z80Toolchain

inductive Expression
  | value (number : Int)
  | symbol (name : String) (addend : Int)
deriving DecidableEq, Repr

def fitsInteger (number : Int) : Bool :=
  -2147483648 ≤ number && number ≤ 2147483647

namespace Token.Kind

def sign? : Token.Kind → Option Int
  | plus => some 1
  | minus => some (-1)
  | _ => none

end Token.Kind

namespace Expression

/-- One term of a sum. A minus sign in front of it negates an integer only. -/
def term (symbols : Symbols) : Parse Int := fun cursor =>
  match cursor.peek.kind with
  | .integer number => (.ok number, cursor.skip)
  | .minus =>
    match cursor.skip.peek.kind with
    | .integer number => (.ok (-number), cursor.skip.skip)
    | _ => (.error (cursor.skip.complain .unsupportedExpression), cursor.skip)
  | .atName name =>
    match symbols.constant? name with
    | some number => (.ok number, cursor.skip)
    | none => (.error (.atToken cursor.peek (.undefinedVariable name)), cursor.skip)
  | _ => (.error (cursor.complain .unsupportedExpression), cursor)

theorem term_length_le (symbols : Symbols) (cursor : Cursor) :
    (term symbols cursor).2.ahead.length ≤ cursor.ahead.length := by
  unfold term Cursor.skip
  split
  · simp
  · split
    · simp only [List.length_tail]
      omega
    · simp
  · split <;> simp
  · simp

theorem length_pos_of_sign {cursor : Cursor} {sign : Int}
    (signed : cursor.peek.kind.sign? = some sign) : 0 < cursor.ahead.length := by
  cases ahead : cursor.ahead with
  | nil => simp [Cursor.peek, ahead, Token.Kind.sign?] at signed
  | cons token rest => simp

def chain (symbols : Symbols) (sum : Int) (cursor : Cursor) : Except Diagnostic Int × Cursor :=
  match _signed : cursor.peek.kind.sign? with
  | none => (.ok sum, cursor)
  | some sign =>
    match _read : term symbols cursor.skip with
    | (.error diagnostic, after) => (.error diagnostic, after)
    | (.ok number, after) =>
      if fitsInteger (number * sign) && fitsInteger (sum + number * sign) then
        chain symbols (sum + number * sign) after
      else (.error (.atToken cursor.peek .unsupportedExpression), after)
termination_by cursor.ahead.length
decreasing_by
  have shorter := term_length_le symbols cursor.skip
  have positive := length_pos_of_sign _signed
  rw [_read] at shorter
  simp only [Cursor.skip, List.length_tail] at shorter
  omega

/-- Reads an expression; a label may open it only where `labels` allows one. -/
def parse (symbols : Symbols) (labels : Bool) : Parse Expression := do
  let start ← Parse.peek
  match start.kind, labels with
  | .text name, true =>
    let _ ← Parse.take
    let addend ← (chain symbols 0 : Parse Int)
    return .symbol name addend
  | _, _ =>
    let head ← term symbols
    let addend ← (chain symbols 0 : Parse Int)
    if fitsInteger (head + addend) then return .value (head + addend)
    else Parse.fail (.atToken start .unsupportedExpression)

end Expression

end Z80Toolchain
