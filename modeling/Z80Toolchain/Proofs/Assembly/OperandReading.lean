import Z80Toolchain.Assembly.Operand
import Z80Toolchain.Machine.Instruction.Render

/-!
Literal operands and the tokens that stand for them. A literal operand is a register, a condition, a
pointer or a number without a label; its tokens are read as that operand, whatever else follows, as
long as no sign goes on with its number.
-/
namespace Z80Toolchain

/-! ### Readers applied to a cursor -/

namespace Parse

@[simp] theorem pure_apply {α : Type} (value : α) (cursor : Cursor) :
    (pure value : Parse α) cursor = (.ok value, cursor) := rfl

theorem bind_apply {α β : Type} (reader : Parse α) (next : α → Parse β) (cursor : Cursor) :
    (reader >>= next) cursor =
      match reader cursor with
      | (.ok value, after) => next value after
      | (.error diagnostic, after) => (.error diagnostic, after) := rfl

theorem bind_of_ok {α β : Type} {reader : Parse α} {next : α → Parse β} {cursor after : Cursor}
    {value : α} (read : reader cursor = (.ok value, after)) :
    (reader >>= next) cursor = next value after := by
  rw [bind_apply, read]

theorem bind_of_error {α β : Type} {reader : Parse α} {next : α → Parse β} {cursor after : Cursor}
    {diagnostic : Diagnostic} (refused : reader cursor = (.error diagnostic, after)) :
    (reader >>= next) cursor = (.error diagnostic, after) := by
  rw [bind_apply, refused]

/-- A result behind two readers is the second one's, where the first left the cursor. -/
theorem bind_eq_ok {α β : Type} {reader : Parse α} {next : α → Parse β} {cursor after : Cursor}
    {result : β} :
    (reader >>= next) cursor = (.ok result, after) ↔
      ∃ value middle, reader cursor = (.ok value, middle) ∧
        next value middle = (.ok result, after) := by
  rw [bind_apply]
  constructor
  · intro read
    split at read
    · rename_i value middle first
      exact ⟨value, middle, first, read⟩
    · cases read
  · rintro ⟨value, middle, first, read⟩
    rw [first]
    exact read

end Parse

namespace Cursor

@[simp] theorem peek_cons (token : Token) (rest : List Token) (final : Position) :
    peek ⟨token :: rest, final⟩ = token := rfl

@[simp] theorem skip_cons (token : Token) (rest : List Token) (final : Position) :
    skip ⟨token :: rest, final⟩ = ⟨rest, final⟩ := rfl

end Cursor

/-! ### Numbers -/

def Unsigned (rest : List Token) : Prop :=
  ∀ token ∈ rest.head?, token.kind.sign? = none

theorem Unsigned.peek {rest : List Token} (unsigned : Unsigned rest) (final : Position) :
    (Cursor.mk rest final).peek.kind.sign? = none := by
  cases rest with
  | nil => rfl
  | cons token rest => exact unsigned token rfl

namespace Expression

theorem chain_stop {symbols : Symbols} {cursor : Cursor} (unsigned : cursor.peek.kind.sign? = none)
    (sum : Int) : chain symbols sum cursor = (.ok sum, cursor) := by
  rw [chain]
  split
  · rfl
  · rename_i sign signed
    rw [unsigned] at signed
    cases signed

theorem chain_of_signed {cursor : Cursor} {sign : Int}
    (signed : cursor.peek.kind.sign? = some sign) (symbols : Symbols) (sum : Int) :
    chain symbols sum cursor =
      match term symbols cursor.skip with
      | (.error diagnostic, after) => (.error diagnostic, after)
      | (.ok number, after) =>
        if fitsInteger (number * sign) && fitsInteger (sum + number * sign) then
          chain symbols (sum + number * sign) after
        else (.error (.atToken cursor.peek .unsupportedExpression), after) := by
  rw [chain]
  split
  · next unsigned => simp [signed] at unsigned
  · next found here =>
    obtain rfl : found = sign := Option.some.inj (here.symm.trans signed)
    split <;> next read => rw [read]

def literalKinds (number : Int) : List Token.Kind :=
  if number < 0 then [.minus, .integer (-number)] else [.integer number]

theorem term_literal (symbols : Symbols) {number : Int} {tokens : List Token}
    (kinds : tokens.map Token.kind = literalKinds number) (rest : List Token) (final : Position) :
    term symbols ⟨tokens ++ rest, final⟩ = (.ok number, ⟨rest, final⟩) := by
  unfold literalKinds at kinds
  split at kinds
  · obtain ⟨minus, tail, rfl, first, kinds⟩ := List.map_eq_cons_iff.mp kinds
    obtain ⟨digits, tail, rfl, second, kinds⟩ := List.map_eq_cons_iff.mp kinds
    obtain rfl := List.map_eq_nil_iff.mp kinds
    simp [term, first, second]
  · obtain ⟨digits, tail, rfl, first, kinds⟩ := List.map_eq_cons_iff.mp kinds
    obtain rfl := List.map_eq_nil_iff.mp kinds
    simp [term, first]

/-- An expression that no label opens is the sum of its first term and the terms behind it. -/
theorem parse_of_no_label (symbols : Symbols) {labels : Bool} {cursor : Cursor}
    (noLabel : ∀ name, cursor.peek.kind = .text name → labels = false) :
    parse symbols labels cursor =
      (term symbols >>= fun head => (chain symbols 0 : Parse Int) >>= fun addend =>
        if fitsInteger (head + addend) then pure (.value (head + addend))
        else Parse.fail (.atToken cursor.peek .unsupportedExpression)) cursor := by
  rw [parse, Parse.bind_of_ok (by rfl)]
  generalize cursor.peek = start at noLabel
  obtain ⟨kind, position⟩ := start
  cases kind with
  | text name =>
    obtain rfl := noLabel name rfl
    rfl
  | _ => cases labels <;> rfl

/-- A number starts with its sign or with its digits. -/
theorem peek_literal {number : Int} {tokens : List Token}
    (kinds : tokens.map Token.kind = literalKinds number) (rest : List Token) (final : Position) :
    (Cursor.mk (tokens ++ rest) final).peek.kind = .minus ∨
      ∃ digits, (Cursor.mk (tokens ++ rest) final).peek.kind = .integer digits := by
  unfold literalKinds at kinds
  split at kinds
  · obtain ⟨first, tail, rfl, kind, -⟩ := List.map_eq_cons_iff.mp kinds
    exact .inl kind
  · obtain ⟨first, tail, rfl, kind, -⟩ := List.map_eq_cons_iff.mp kinds
    exact .inr ⟨number, kind⟩

theorem parse_literal (symbols : Symbols) (labels : Bool) {number : Int} {tokens rest : List Token}
    (kinds : tokens.map Token.kind = literalKinds number) (fits : fitsInteger number = true)
    (unsigned : Unsigned rest) (final : Position) :
    parse symbols labels ⟨tokens ++ rest, final⟩ = (.ok (.value number), ⟨rest, final⟩) := by
  have noLabel : ∀ name, (Cursor.mk (tokens ++ rest) final).peek.kind = .text name →
      labels = false := by
    intro name text
    rcases peek_literal kinds rest final with minus | ⟨digits, integer⟩
    · simp [minus] at text
    · simp [integer] at text
  rw [parse_of_no_label symbols noLabel,
    Parse.bind_of_ok (term_literal symbols kinds rest final),
    Parse.bind_of_ok (chain_stop (unsigned.peek final) 0), Int.add_zero, if_pos fits]
  rfl

end Expression

/-! ### Operands -/

namespace Operand

/-- The tokens of an operand; a label in it stands by its name alone. -/
def kinds : Operand → List Token.Kind
  | reg register => [.text register.name]
  | half register part => [.text (register.halfName part)]
  | pair registers => [.text registers.name]
  | shadowAf => [.text "af'"]
  | index register => [.text register.name]
  | control register => [.text register.name]
  | cond condition => [.text condition.name]
  | atHl => [.leftParen, .text "hl", .rightParen]
  | atBc => [.leftParen, .text "bc", .rightParen]
  | atDe => [.leftParen, .text "de", .rightParen]
  | atSp => [.leftParen, .text "sp", .rightParen]
  | atC => [.leftParen, .text "c", .rightParen]
  | atIndex register => [.leftParen, .text register.name, .rightParen]
  | indexed register distance =>
    .leftParen :: .text register.name ::
      ((if distance < 0 then [.minus, .integer (-distance)] else [.plus, .integer distance]) ++
        [.rightParen])
  | memory (.value number) => .leftParen :: (Expression.literalKinds number ++ [.rightParen])
  | memory (.symbol name _) => [.leftParen, .text name, .rightParen]
  | immediate (.value number) => Expression.literalKinds number
  | immediate (.symbol name _) => [.text name]

/-- An operand that its tokens stand for: one without a label. The condition `c` has the name of a
register and is read as that. -/
def IsLiteral : Operand → Prop
  | cond condition => condition ≠ .c
  | indexed _ distance => fitsInteger distance = true
  | memory (.value number) => fitsInteger number = true
  | immediate (.value number) => fitsInteger number = true
  | memory (.symbol _ _) => False
  | immediate (.symbol _ _) => False
  | _ => True

def isNamed : Operand → Bool
  | reg _ | half _ _ | pair _ | shadowAf | index _ | control _ | cond _ => true
  | _ => false

theorem is_named_of_name? {name : String} {operand : Operand} (found : ofName? name = some operand) :
    operand.isNamed = true := by
  have either {first second : Option Operand} (found : (first <|> second) = some operand) :
      first = some operand ∨ second = some operand := by
    cases first with
    | none => exact .inr found
    | some other => exact .inl found
  unfold ofName? at found
  iterate 5
    rcases either found with named | found
    · obtain ⟨register, -, rfl⟩ := Option.map_eq_some_iff.mp named
      rfl
  unfold ofSpecialName? at found
  split at found <;> cases found <;> rfl

/-- A name that belongs to an operand is read as that operand. -/
theorem starting_with_name (symbols : Symbols) {name : String} {operand : Operand}
    (found : ofName? name = some operand) (token : Token) (rest : List Token) (final : Position) :
    startingWith symbols (.text name) ⟨token :: rest, final⟩ = (.ok operand, ⟨rest, final⟩) := by
  simp only [startingWith, found]
  rfl

/-- What is read between parentheses is an operand. -/
theorem starting_with_paren (symbols : Symbols) {operand : Operand} {opening closing : Token}
    {inside rest : List Token} (final : Position) (closed : closing.kind = .rightParen)
    (read : enclosed symbols ⟨inside ++ closing :: rest, final⟩ =
      (.ok operand, ⟨closing :: rest, final⟩)) :
    startingWith symbols .leftParen ⟨opening :: (inside ++ closing :: rest), final⟩ =
      (.ok operand, ⟨rest, final⟩) := by
  have expected : Parse.expect .rightParen "`)`" ⟨closing :: rest, final⟩ =
      (.ok (), ⟨rest, final⟩) := by
    simp [Parse.expect, closed]
  simp only [startingWith]
  rw [Parse.bind_of_ok (by rfl), Cursor.skip_cons, Parse.bind_of_ok read, Parse.bind_of_ok expected]
  rfl

/-- A pointer register alone in parentheses. -/
theorem enclosed_pointer (symbols : Symbols) {name : String} {operand : Operand}
    (found : ofPointerName? name = some operand) {token : Token} (named : token.kind = .text name)
    (rest : List Token) (final : Position) :
    enclosed symbols ⟨token :: rest, final⟩ = (.ok operand, ⟨rest, final⟩) := by
  rw [enclosed, Parse.bind_of_ok (by rfl), Cursor.peek_cons, named]
  simp only [found]
  rfl

theorem of_pointer_name?_of_index {name : String} {register : Index}
    (found : Index.ofName? name = some register) : ofPointerName? name = none := by
  unfold Index.ofName? at found
  have spelled := List.find?_some found
  rw [beq_iff_eq] at spelled
  simp only [ofPointerName?, ← spelled]
  cases register <;> decide

/-- An index register opens its own kind of operand. -/
theorem enclosed_index (symbols : Symbols) {name : String} {register : Index}
    (found : Index.ofName? name = some register) {token : Token} (named : token.kind = .text name)
    (rest : List Token) (final : Position) :
    enclosed symbols ⟨token :: rest, final⟩ = indexedBy symbols register ⟨rest, final⟩ := by
  rw [enclosed, Parse.bind_of_ok (by rfl), Cursor.peek_cons, named]
  simp only [of_pointer_name?_of_index found, found]
  rfl

theorem indexed_by_alone (symbols : Symbols) (register : Index) {closing : Token}
    (closed : closing.kind = .rightParen) (rest : List Token) (final : Position) :
    indexedBy symbols register ⟨closing :: rest, final⟩ =
      (.ok (atIndex register), ⟨closing :: rest, final⟩) := by
  rw [indexedBy, Parse.bind_of_ok (by rfl), Cursor.peek_cons, closed]
  rfl

theorem distance_literal (symbols : Symbols) {number : Int} {tokens rest : List Token}
    (kinds : tokens.map Token.kind = Expression.literalKinds number)
    (fits : fitsInteger number = true) (unsigned : Unsigned rest) (final : Position) :
    distance symbols ⟨tokens ++ rest, final⟩ = (.ok number, ⟨rest, final⟩) := by
  rw [distance, Parse.bind_of_ok (by rfl),
    Parse.bind_of_ok (Expression.parse_literal symbols false kinds fits unsigned final)]
  rfl

/-- A sign and digits behind an index register. A minus sign is read as part of the number. -/
theorem indexed_by_distance (symbols : Symbols) (register : Index) {number : Int}
    {tokens rest : List Token}
    (kinds : tokens.map Token.kind =
      if number < 0 then [.minus, .integer (-number)] else [.plus, .integer number])
    (fits : fitsInteger number = true) (unsigned : Unsigned rest) (final : Position) :
    indexedBy symbols register ⟨tokens ++ rest, final⟩ =
      (.ok (indexed register number), ⟨rest, final⟩) := by
  by_cases negative : number < 0
  · have literal : tokens.map Token.kind = Expression.literalKinds number := by
      rw [kinds, Expression.literalKinds, if_pos negative, if_pos negative]
    have read := distance_literal symbols literal fits unsigned final
    rw [if_pos negative] at kinds
    obtain ⟨sign, tail, rfl, minus, -⟩ := List.map_eq_cons_iff.mp kinds
    rw [indexedBy, Parse.bind_of_ok (by rfl)]
    simp only [List.cons_append, Cursor.peek_cons, minus] at read ⊢
    rw [Parse.bind_of_ok read]
    rfl
  · rw [if_neg negative] at kinds
    obtain ⟨sign, tail, rfl, plus, digits⟩ := List.map_eq_cons_iff.mp kinds
    have literal : tail.map Token.kind = Expression.literalKinds number := by
      rw [digits, Expression.literalKinds, if_neg negative]
    rw [indexedBy, Parse.bind_of_ok (by rfl)]
    simp only [List.cons_append, Cursor.peek_cons, plus]
    rw [Parse.bind_of_ok (by rfl), Cursor.skip_cons,
      Parse.bind_of_ok (distance_literal symbols literal fits unsigned final)]
    rfl

theorem enclosed_literal (symbols : Symbols) {number : Int} {tokens rest : List Token}
    (kinds : tokens.map Token.kind = Expression.literalKinds number)
    (fits : fitsInteger number = true) (unsigned : Unsigned rest) (final : Position) :
    enclosed symbols ⟨tokens ++ rest, final⟩ =
      (.ok (memory (.value number)), ⟨rest, final⟩) := by
  have read := Expression.parse_literal symbols true kinds fits unsigned final
  rw [enclosed, Parse.bind_of_ok (by rfl)]
  rcases Expression.peek_literal kinds rest final with minus | ⟨digits, integer⟩
  · simp only [minus]
    rw [Parse.bind_of_ok read]
    rfl
  · simp only [integer]
    rw [Parse.bind_of_ok read]
    rfl

theorem starting_with_literal (symbols : Symbols) {number : Int} {tokens rest : List Token}
    (kinds : tokens.map Token.kind = Expression.literalKinds number)
    (fits : fitsInteger number = true) (unsigned : Unsigned rest) (final : Position) :
    startingWith symbols (Cursor.mk (tokens ++ rest) final).peek.kind ⟨tokens ++ rest, final⟩ =
      (.ok (immediate (.value number)), ⟨rest, final⟩) := by
  have read := Expression.parse_literal symbols false kinds fits unsigned final
  rcases Expression.peek_literal kinds rest final with minus | ⟨digits, integer⟩
  · rw [minus, startingWith, Parse.bind_of_ok read]
    rfl
  · rw [integer, startingWith, Parse.bind_of_ok read]
    rfl

theorem unsigned_paren {closing : Token} (closed : closing.kind = .rightParen) (rest : List Token) :
    Unsigned (closing :: rest) := by
  simp [Unsigned, closed, Token.Kind.sign?]

/-- The tokens of a literal operand are read as the operand. -/
theorem starting_with_kinds (symbols : Symbols) {operand : Operand} (literal : operand.IsLiteral)
    {tokens rest : List Token} (kinds : tokens.map Token.kind = operand.kinds)
    (unsigned : Unsigned rest) (final : Position) :
    startingWith symbols (Cursor.mk (tokens ++ rest) final).peek.kind ⟨tokens ++ rest, final⟩ =
      (.ok operand, ⟨rest, final⟩) := by
  have named : ∀ name, operand.kinds = [.text name] → ofName? name = some operand →
      startingWith symbols (Cursor.mk (tokens ++ rest) final).peek.kind ⟨tokens ++ rest, final⟩ =
        (.ok operand, ⟨rest, final⟩) := by
    intro name single found
    rw [single] at kinds
    obtain ⟨token, tail, rfl, kind, empty⟩ := List.map_eq_cons_iff.mp kinds
    obtain rfl := List.map_eq_nil_iff.mp empty
    rw [List.cons_append, Cursor.peek_cons, kind]
    exact starting_with_name symbols found token rest final
  have parens : ∀ inner, operand.kinds = .leftParen :: (inner ++ [.rightParen]) →
      (∀ inside closing, inside.map Token.kind = inner → closing.kind = .rightParen →
        enclosed symbols ⟨inside ++ closing :: rest, final⟩ =
          (.ok operand, ⟨closing :: rest, final⟩)) →
      startingWith symbols (Cursor.mk (tokens ++ rest) final).peek.kind ⟨tokens ++ rest, final⟩ =
        (.ok operand, ⟨rest, final⟩) := by
    intro inner shape read
    rw [shape] at kinds
    obtain ⟨opening, tail, rfl, opened, kinds⟩ := List.map_eq_cons_iff.mp kinds
    obtain ⟨inside, ending, rfl, inner, kinds⟩ := List.map_eq_append_iff.mp kinds
    obtain ⟨closing, tail, rfl, closed, empty⟩ := List.map_eq_cons_iff.mp kinds
    obtain rfl := List.map_eq_nil_iff.mp empty
    simp only [List.cons_append, List.append_assoc, List.nil_append, Cursor.peek_cons, opened]
    exact starting_with_paren symbols final closed (read inside closing inner closed)
  have pointed : ∀ name, operand.kinds = [.leftParen, .text name, .rightParen] →
      ofPointerName? name = some operand →
      startingWith symbols (Cursor.mk (tokens ++ rest) final).peek.kind ⟨tokens ++ rest, final⟩ =
        (.ok operand, ⟨rest, final⟩) := by
    intro name three found
    refine parens [.text name] three fun inside closing inner closed => ?_
    obtain ⟨token, tail, rfl, kind, empty⟩ := List.map_eq_cons_iff.mp inner
    obtain rfl := List.map_eq_nil_iff.mp empty
    exact enclosed_pointer symbols found kind (closing :: rest) final
  cases operand with
  | reg register => exact named register.name rfl (by cases register <;> decide)
  | half register part =>
    exact named (register.halfName part) rfl (by cases register <;> cases part <;> decide)
  | pair registers => exact named registers.name rfl (by cases registers <;> decide)
  | shadowAf => exact named "af'" rfl (by decide)
  | index register => exact named register.name rfl (by cases register <;> decide)
  | control register => exact named register.name rfl (by cases register <;> decide)
  | cond condition =>
    exact named condition.name rfl (by cases condition <;> first | decide | exact absurd rfl literal)
  | atHl => exact pointed "hl" rfl (by decide)
  | atBc => exact pointed "bc" rfl (by decide)
  | atDe => exact pointed "de" rfl (by decide)
  | atSp => exact pointed "sp" rfl (by decide)
  | atC => exact pointed "c" rfl (by decide)
  | atIndex register =>
    refine parens [.text register.name] rfl fun inside closing inner closed => ?_
    obtain ⟨token, tail, rfl, kind, empty⟩ := List.map_eq_cons_iff.mp inner
    obtain rfl := List.map_eq_nil_iff.mp empty
    have found : Index.ofName? register.name = some register := by cases register <;> decide
    exact (enclosed_index symbols found kind (closing :: rest) final).trans
      (indexed_by_alone symbols register closed rest final)
  | indexed register distance =>
    refine parens (.text register.name :: if distance < 0 then [.minus, .integer (-distance)]
      else [.plus, .integer distance]) rfl fun inside closing inner closed => ?_
    obtain ⟨token, tail, rfl, kind, signed⟩ := List.map_eq_cons_iff.mp inner
    have found : Index.ofName? register.name = some register := by cases register <;> decide
    exact (enclosed_index symbols found kind (tail ++ closing :: rest) final).trans
      (indexed_by_distance symbols register signed literal (unsigned_paren closed rest) final)
  | memory address =>
    cases address with
    | value number =>
      refine parens _ rfl fun inside closing inner closed => ?_
      exact enclosed_literal symbols inner literal (unsigned_paren closed rest) final
    | symbol name addend => exact absurd literal id
  | immediate value =>
    cases value with
    | value number => exact starting_with_literal symbols kinds literal unsigned final
    | symbol name addend => exact absurd literal id

end Operand

/-- The argument that a literal operand is read as, at its first token. -/
theorem Argument.parse_kinds (symbols : Symbols) {operand : Operand} (literal : operand.IsLiteral)
    {tokens rest : List Token} (kinds : tokens.map Token.kind = operand.kinds)
    (unsigned : Unsigned rest) (final : Position) :
    Argument.parse symbols ⟨tokens ++ rest, final⟩ =
      (.ok ⟨operand, (Cursor.mk (tokens ++ rest) final).peek⟩, ⟨rest, final⟩) := by
  rw [Argument.parse, Parse.bind_of_ok (by rfl),
    Parse.bind_of_ok (Operand.starting_with_kinds symbols literal kinds unsigned final)]
  rfl

end Z80Toolchain
