import Z80Toolchain.Proofs.Assembly.ExactSums
import Z80Toolchain.Source.Tokenize

/-!
Distances from an index register. Behind the register stand terms with signs, and the distance is their
sum. The first sign is special: a plus is taken before the distance is read, a minus is read with it and
belongs to its first term. So a distance may open with a minus in front of a number, but not in front of
a variable, although a minus may stand in front of any later one.
-/
namespace Z80Toolchain

open Expression

/-! ### Signed terms as an expression -/

/-- A sign and a term of one token, then more terms with signs, and their sum. All sums that are made on
the way are within 32 bits. -/
inductive IsDistance (symbols : Symbols) (sign term : Token) (tail : List Token) : Int → Prop
  | sum {factor number : Int} {values : List Int} (signed : sign.kind.sign? = some factor)
      (isTerm : IsTerm symbols [term] number) (summands : Summands symbols tail values)
      (inRange : InRange 0 values) (fits : fitsInteger (number * factor + total values) = true) :
      IsDistance symbols sign term tail (number * factor + total values)

namespace IsDistance

variable {symbols : Symbols} {sign term : Token} {tail : List Token} {number : Int}

/-- Behind a plus the terms are an expression. -/
theorem sums_of_plus (distance : IsDistance symbols sign term tail number)
    (plus : sign.kind = .plus) : Sums symbols false (term :: tail) (.value number) := by
  obtain ⟨signed, isTerm, summands, inRange, fits⟩ := distance
  rw [plus] at signed
  cases signed
  rw [Int.mul_one] at fits ⊢
  exact .sum (.term isTerm) summands inRange fits

/-- A minus and a number are one term, which opens the expression. -/
theorem sums_of_minus (distance : IsDistance symbols sign term tail number)
    (minus : sign.kind = .minus) {digits : Int} (integer : term.kind = .integer digits) :
    Sums symbols false (sign :: term :: tail) (.value number) := by
  obtain ⟨signed, isTerm, summands, inRange, fits⟩ := distance
  rw [minus] at signed
  cases signed
  cases isTerm with
  | integer same =>
    rw [integer] at same
    cases same
    rw [Int.mul_neg, Int.mul_one] at fits ⊢
    exact .sum (.term (.negated minus integer)) summands inRange fits
  | constant named known =>
    rw [integer] at named
    cases named

end IsDistance

/-- A minus in front of anything but a number opens no expression. -/
theorem Expression.parse_lone_minus {symbols : Symbols} {sign : Token} {after : Cursor}
    (minus : sign.kind = .minus) (other : ∀ digits, after.peek.kind ≠ .integer digits) :
    parse symbols false (after.before [sign]) =
      (.error (after.complain .unsupportedExpression), after) :=
  (Stumbles.opening (by simp) (.loneMinus minus other)).read

/-! ### The operand -/

namespace Operand

variable {symbols : Symbols} {sign term : Token} {tail : List Token} {number : Int} {after : Cursor}

theorem distance_of_sums {tokens : List Token} (sums : Sums symbols false tokens (.value number))
    (stops : after.peek.kind.sign? = none) :
    distance symbols (after.before tokens) = (.ok number, after) := by
  rw [distance, Parse.bind_of_ok (by rfl), Parse.bind_of_ok (sums.read stops)]
  rfl

/-- Either sign leads to the sum, but a minus only in front of a number. -/
theorem indexed_by_of_is_distance (isDistance : IsDistance symbols sign term tail number)
    (opens : sign.kind = .plus ∨ ∃ digits, term.kind = .integer digits) (register : Index)
    (stops : after.peek.kind.sign? = none) :
    indexedBy symbols register (after.before (sign :: term :: tail)) =
      (.ok (indexed register number), after) := by
  rw [indexedBy, Parse.bind_of_ok (by rfl), Cursor.peek_before]
  have signed : sign.kind = .plus ∨ sign.kind = .minus := by
    obtain ⟨signed, -, -, -, -⟩ := isDistance
    cases kind : sign.kind <;> simp [kind, Token.Kind.sign?] at signed ⊢
  rcases signed with plus | minus
  · have read := distance_of_sums (isDistance.sums_of_plus plus) stops
    simp only [plus]
    rw [Parse.bind_of_ok (by rfl), Cursor.skip_before, Parse.bind_of_ok read]
    rfl
  · obtain ⟨digits, integer⟩ := opens.resolve_left (by simp [minus])
    have read := distance_of_sums (isDistance.sums_of_minus minus integer) stops
    simp only [minus]
    rw [Parse.bind_of_ok read]
    rfl

/-- In front of a variable the minus is refused, where the variable stands. -/
theorem indexed_by_minus_variable (minus : sign.kind = .minus) {name : String}
    (named : term.kind = .atName name) (register : Index) :
    indexedBy symbols register (after.before (sign :: term :: tail)) =
      (.error (.atToken term .unsupportedExpression), after.before (term :: tail)) := by
  have blamed : (after.before (term :: tail)).complain .unsupportedExpression =
      .atToken term .unsupportedExpression := by
    simp [Cursor.complain, named]
  have refused := @parse_lone_minus symbols sign (after.before (term :: tail)) minus (by simp [named])
  rw [blamed, ← Cursor.before_append, List.singleton_append] at refused
  have none : distance symbols (after.before (sign :: term :: tail)) =
      (.error (.atToken term .unsupportedExpression), after.before (term :: tail)) := by
    rw [distance, Parse.bind_of_ok (by rfl), Parse.bind_of_error refused]
  rw [indexedBy, Parse.bind_of_ok (by rfl), Cursor.peek_before, minus]
  simp only
  rw [Parse.bind_of_error none]

end Operand

namespace Argument

variable {symbols : Symbols} {register : Index} {name : String}
  {opening word sign term closing : Token} {tail : List Token} {number : Int}

/-- What stands in parentheses has to be followed by the closing one. -/
theorem parse_left_paren (opened : opening.kind = .leftParen) (after : Cursor) (inside : List Token) :
    parse symbols (after.before (opening :: inside)) =
      match Operand.enclosed symbols (after.before inside) with
      | (.error diagnostic, stop) => (.error diagnostic, stop)
      | (.ok operand, stop) =>
        if stop.peek.kind = .rightParen then (.ok ⟨operand, opening⟩, stop.skip)
        else (.error (stop.complain (.expected "`)`")), stop) := by
  rw [parse, Parse.bind_of_ok (by rfl), Cursor.peek_before, opened, Parse.bind_apply,
    Operand.startingWith, Parse.bind_of_ok (by rfl), Cursor.skip_before, Parse.bind_apply]
  rcases Operand.enclosed symbols (after.before inside) with ⟨diagnostic | operand, stop⟩
  · rfl
  · by_cases ends : stop.peek.kind = .rightParen
    · simp only [Parse.bind_apply, Parse.expect, if_pos ends]
      rfl
    · simp only [Parse.bind_apply, Parse.expect, if_neg ends]

/-- An index register in parentheses with signed terms behind it stands for the sum of these, unless the
first of them is a variable behind a minus, which is refused. -/
theorem parse_indexed (found : Index.ofName? name = some register)
    (opened : opening.kind = .leftParen) (named : word.kind = .text name)
    (isDistance : IsDistance symbols sign term tail number) (closed : closing.kind = .rightParen)
    (after : Cursor) :
    let cursor := after.before (opening :: word :: sign :: term :: (tail ++ [closing]))
    (sign.kind = .plus ∨ (∃ digits, term.kind = .integer digits) →
      parse symbols cursor = (.ok ⟨.indexed register number, opening⟩, after)) ∧
    (sign.kind = .minus → (∃ name, term.kind = .atName name) →
      parse symbols cursor = (.error (.atToken term .unsupportedExpression),
        after.before (term :: (tail ++ [closing])))) := by
  intro cursor
  have index : Operand.enclosed symbols (after.before (word :: sign :: term :: (tail ++ [closing]))) =
      Operand.indexedBy symbols register (after.before (sign :: term :: (tail ++ [closing]))) :=
    Operand.enclosed_index symbols found named _ _
  refine ⟨fun opens => ?_, fun minus ⟨other, atName⟩ => ?_⟩
  · have stops : (after.before [closing]).peek.kind.sign? = none := by
      simp [closed, Token.Kind.sign?]
    have read := Operand.indexed_by_of_is_distance isDistance opens register stops
    rw [← Cursor.before_append, List.cons_append, List.cons_append] at read
    rw [parse_left_paren opened, index, read]
    simp [closed]
  · rw [parse_left_paren opened, index, Operand.indexed_by_minus_variable minus atName]

/-- `(Ix-5+@n)`, where the variable `n` is 10. -/
theorem parse_indexed_sum :
    let symbols : Symbols := ⟨[⟨"n", .constant, 10, ⟨0, 0⟩⟩]⟩
    let after : Cursor := ⟨[⟨.newLine, ⟨0, 9⟩⟩], ⟨0, 9⟩⟩
    parse symbols (after.before [⟨.leftParen, ⟨0, 0⟩⟩, ⟨.text "Ix", ⟨0, 1⟩⟩, ⟨.minus, ⟨0, 3⟩⟩,
      ⟨.integer 5, ⟨0, 4⟩⟩, ⟨.plus, ⟨0, 5⟩⟩, ⟨.atName "n", ⟨0, 6⟩⟩, ⟨.rightParen, ⟨0, 8⟩⟩]) =
      (.ok ⟨.indexed .ix 5, ⟨.leftParen, ⟨0, 0⟩⟩⟩, after) := by
  intro symbols after
  have isDistance : IsDistance symbols ⟨.minus, ⟨0, 3⟩⟩ ⟨.integer 5, ⟨0, 4⟩⟩
      [⟨.plus, ⟨0, 5⟩⟩, ⟨.atName "n", ⟨0, 6⟩⟩] 5 :=
    @IsDistance.sum _ _ _ _ (-1) 5 [10 * 1] rfl (.integer rfl)
      (.cons rfl (.constant rfl (by decide)) .nil) ⟨⟨by decide, by decide⟩, trivial⟩ (by decide)
  exact (parse_indexed (by decide) rfl rfl isDistance rfl after).1 (.inr ⟨5, rfl⟩)

/-- With a variable `n`, `(ix+@n)` is an operand and `(ix-@n)` is not, although `-@n` has a sum. -/
theorem minus_variable_refused :
    let symbols : Symbols := ⟨[⟨"n", .constant, 10, ⟨0, 0⟩⟩]⟩
    let read (text : String) := (parse symbols (.ofTokens (tokenize text.toList))).1.toOption
    IsDistance symbols ⟨.minus, ⟨0, 3⟩⟩ ⟨.atName "n", ⟨0, 4⟩⟩ [] (-10) ∧
      read "(ix+@n)" = some ⟨.indexed .ix 10, ⟨.leftParen, ⟨0, 0⟩⟩⟩ ∧ read "(ix-@n)" = none := by
  intro symbols read
  have isDistance := @IsDistance.sum symbols ⟨.minus, ⟨0, 3⟩⟩ ⟨.atName "n", ⟨0, 4⟩⟩ [] (-1) 10 [] rfl
    (.constant rfl (by decide)) .nil trivial (by decide)
  exact ⟨isDistance, by decide +kernel, by decide +kernel⟩

end Argument

end Z80Toolchain
