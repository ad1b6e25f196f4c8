import Z80Toolchain.Assembly.Statement
import Z80Toolchain.Proofs.Assembly.ArgumentReading
import Z80Toolchain.Proofs.Assembly.Rewording

/-!
Statements that are told again, with other places for the tokens and other letter cases for the words.
No reader looks at a place, and each looks at words without regard to case; so reading a retold
statement gives the retold result, whether it is accepted or not. One lemma says so for each reader.
-/
namespace Z80Toolchain

/-! ### Retellings -/

/-- A new place for every token, and a new spelling for every word, which keeps its letters. -/
structure Retelling where
  place : Position → Position
  word : String → String
  sameLetters : ∀ text, Text.SameLetters (word text) text

section

variable (retelling : Retelling)

def Token.Kind.retold : Token.Kind → Token.Kind
  | text name => text (retelling.word name)
  | kind => kind

def Token.retold (token : Token) : Token :=
  ⟨token.kind.retold retelling, retelling.place token.position⟩

def Cursor.retold (cursor : Cursor) : Cursor :=
  ⟨cursor.ahead.map (Token.retold retelling), retelling.place cursor.final⟩

def Diagnostic.retold (diagnostic : Diagnostic) : Diagnostic :=
  ⟨retelling.place diagnostic.position, diagnostic.cause,
    diagnostic.token.map (Token.Kind.retold retelling)⟩

def Expression.retold : Expression → Expression
  | value number => value number
  | symbol name addend => symbol (retelling.word name) addend

def Operand.retold : Operand → Operand
  | memory address => memory (address.retold retelling)
  | immediate value => immediate (value.retold retelling)
  | operand => operand

def Argument.retold (argument : Argument) : Argument :=
  ⟨argument.operand.retold retelling, argument.token.retold retelling⟩

def Target.retold (target : Target) : Target :=
  ⟨retelling.word target.name, target.addend, retelling.place target.position⟩

def Selection.retold (selection : Selection) : Selection :=
  ⟨selection.instruction, selection.target.map (Prod.map id (Target.retold retelling))⟩

def Statement.retold : Statement → Statement
  | instruction selection => instruction (selection.retold retelling)
  | bytes items => bytes items
  | words items => words (items.map (Prod.map id (Option.map (Target.retold retelling))))

def Reference.retold (reference : Reference) : Reference :=
  ⟨retelling.word reference.name, reference.offset, reference.width, reference.addend,
    retelling.place reference.position⟩

def Retelling.result {α β : Type} (change : α → β) : Except Diagnostic α → Except Diagnostic β
  | .ok value => .ok (change value)
  | .error diagnostic => .error (diagnostic.retold retelling)

end

variable {retelling : Retelling}

/-! ### Tokens and cursors -/

theorem Token.Kind.retold_eq_iff {kind other : Token.Kind} (noText : ∀ name, other ≠ .text name) :
    kind.retold retelling = other ↔ kind = other := by
  cases kind with
  | text name => simp [retold, (noText _).symm]
  | _ => rfl

namespace Cursor

variable (cursor : Cursor)

theorem kind_peek_retold :
    (cursor.retold retelling).peek.kind = cursor.peek.kind.retold retelling := by
  obtain ⟨ahead, final⟩ := cursor
  cases ahead <;> rfl

theorem peek_retold (some : cursor.ahead ≠ []) :
    (cursor.retold retelling).peek = cursor.peek.retold retelling := by
  obtain ⟨ahead, final⟩ := cursor
  cases ahead with
  | nil => exact absurd rfl some
  | cons token rest => rfl

theorem skip_retold : (cursor.retold retelling).skip = cursor.skip.retold retelling := by
  simp [skip, retold]

theorem ends_line_retold (kind : Token.Kind) : (kind.retold retelling).endsLine = kind.endsLine := by
  cases kind <;> rfl

theorem at_line_end_retold : (cursor.retold retelling).atLineEnd = cursor.atLineEnd := by
  rw [atLineEnd, kind_peek_retold, ends_line_retold, atLineEnd]

theorem complain_retold (cause : Cause) :
    (cursor.retold retelling).complain cause = (cursor.complain cause).retold retelling := by
  obtain ⟨ahead, final⟩ := cursor
  cases ahead with
  | nil => rfl
  | cons token rest =>
    have same : token.kind.retold retelling = .endOfInput ↔ token.kind = .endOfInput :=
      Token.Kind.retold_eq_iff (by simp)
    by_cases ended : token.kind = .endOfInput
    · simp [complain, retold, Token.retold, ended, Diagnostic.retold, Token.Kind.retold]
    · simp [complain, retold, Token.retold, same, ended, Diagnostic.retold, Diagnostic.atToken]

theorem line_ahead_retold :
    (cursor.retold retelling).lineAhead = cursor.lineAhead.map (Token.retold retelling) := by
  simp only [lineAhead, retold, List.takeWhile_map, Function.comp_def, Token.retold, ends_line_retold]

theorem skip_line_retold : (cursor.retold retelling).skipLine = cursor.skipLine.retold retelling := by
  simp only [skipLine, retold, List.dropWhile_map, Function.comp_def, Token.retold, ends_line_retold]

end Cursor

/-! ### Selections -/

theorem Retelling.result_bind {α β γ δ : Type} {change : α → γ} {finish : β → δ}
    {result : Except Diagnostic α} {retold : Except Diagnostic γ} {next : α → Except Diagnostic β}
    {nextRetold : γ → Except Diagnostic δ} (start : retold = retelling.result change result)
    (rest : ∀ value, nextRetold (change value) = retelling.result finish (next value)) :
    retold >>= nextRetold = retelling.result finish (result >>= next) := by
  subst start
  cases result with
  | error diagnostic => rfl
  | ok value => exact rest value

def Retelling.rewording (retelling : Retelling) : Rewording :=
  ⟨retelling.place, Token.Kind.retold retelling, retelling.word⟩

namespace Selection

theorem byte_retold {argument : Argument} (value : Expression) :
    byte (argument.retold retelling) (value.retold retelling) =
      retelling.result id (byte argument value) :=
  @byte_reworded retelling.rewording argument value

theorem word_retold {argument : Argument} (number : Int) :
    word (argument.retold retelling) number = retelling.result id (word argument number) :=
  @word_reworded retelling.rewording argument number

theorem IsChoice.retold {choose : Argument → Except Diagnostic Selection} (isChoice : IsChoice choose)
    (argument : Argument) : choose (argument.retold retelling) =
      retelling.result (Selection.retold retelling) (choose argument) :=
  isChoice.reworded retelling.rewording argument

theorem IsChoiceOfTwo.retold {choose : Argument → Argument → Except Diagnostic Selection}
    (isChoice : IsChoiceOfTwo choose) (first second : Argument) :
    choose (first.retold retelling) (second.retold retelling) =
      retelling.result (Selection.retold retelling) (choose first second) :=
  isChoice.reworded retelling.rewording first second

end Selection

/-! ### Readers -/

/-- A reader of retold tokens gives the retold result, and leaves the retold tokens. -/
def Parse.Retells {α β : Type} (retelling : Retelling) (change : α → β) (reader : Parse α)
    (retold : Parse β) : Prop :=
  ∀ cursor, retold (cursor.retold retelling) =
    (retelling.result change (reader cursor).1, (reader cursor).2.retold retelling)

namespace Parse

variable {α β γ δ : Type} {change : α → γ} {finish : β → δ}

theorem retells_pure {value : α} {retold : γ} (same : retold = change value) :
    Retells retelling change (pure value) (pure retold) := by
  subst same
  intro cursor
  rfl

theorem retells_fail (diagnostic : Diagnostic) :
    Retells retelling change (fail diagnostic) (fail (diagnostic.retold retelling)) := by
  intro cursor
  rfl

theorem retells_refuse (cause : Cause) :
    Retells retelling change (refuse cause) (refuse cause) := by
  intro cursor
  exact congrArg (fun diagnostic => (Except.error diagnostic, _)) (cursor.complain_retold cause)

theorem retells_of_except {result : Except Diagnostic α} {retold : Except Diagnostic γ}
    (same : retold = retelling.result change result) :
    Retells retelling change (ofExcept result) (ofExcept retold) := by
  subst same
  cases result with
  | ok value => exact retells_pure rfl
  | error diagnostic => exact retells_fail diagnostic

theorem retells_bind {reader : Parse α} {retold : Parse γ} {next : α → Parse β}
    {nextRetold : γ → Parse δ} (first : Retells retelling change reader retold)
    (second : ∀ value, Retells retelling finish (next value) (nextRetold (change value))) :
    Retells retelling finish (reader >>= next) (retold >>= nextRetold) := by
  intro cursor
  rw [bind_apply, bind_apply, first cursor]
  rcases reader cursor with ⟨diagnostic | value, after⟩
  · rfl
  · exact second value after

/-- A reader that looks at the next token may see the end of the input, which has no place. -/
theorem retells_peek {next : Token → Parse β} {nextRetold : Token → Parse δ}
    (found : ∀ token, Retells retelling finish (next token) (nextRetold (token.retold retelling)))
    (ended : ∀ final, nextRetold ⟨.endOfInput, .start⟩ ⟨[], retelling.place final⟩ =
      (retelling.result finish (next ⟨.endOfInput, .start⟩ ⟨[], final⟩).1,
        (next ⟨.endOfInput, .start⟩ ⟨[], final⟩).2.retold retelling)) :
    Retells retelling finish (peek >>= next) (peek >>= nextRetold) := by
  rintro ⟨ahead, final⟩
  cases ahead with
  | nil => exact ended final
  | cons token rest => exact found token ⟨token :: rest, final⟩

theorem retells_take {next : Parse β} {nextRetold : Parse δ}
    (rest : Retells retelling finish next nextRetold) :
    Retells retelling finish (take >>= fun _ => next) (take >>= fun _ => nextRetold) := by
  intro cursor
  have behind := rest cursor.skip
  rw [← Cursor.skip_retold] at behind
  exact behind

theorem retells_at_line_end : Retells retelling id atLineEnd atLineEnd := by
  intro cursor
  exact congrArg (fun ends => (Except.ok ends, _)) cursor.at_line_end_retold

theorem retells_eat {kind : Token.Kind} (noText : ∀ name, kind ≠ .text name) :
    Retells retelling id (eat kind) (eat kind) := by
  intro cursor
  have same : (cursor.retold retelling).peek.kind = kind ↔ cursor.peek.kind = kind := by
    rw [cursor.kind_peek_retold, Token.Kind.retold_eq_iff noText]
  by_cases found : cursor.peek.kind = kind
  · rw [eat_eq_true found, eat_eq_true (same.mpr found), cursor.skip_retold]
    rfl
  · rw [eat_eq_false found, eat_eq_false (mt same.mp found)]
    rfl

theorem retells_expect {kind : Token.Kind} (noText : ∀ name, kind ≠ .text name) (what : String) :
    Retells retelling id (expect kind what) (expect kind what) := by
  intro cursor
  have same : (cursor.retold retelling).peek.kind = kind ↔ cursor.peek.kind = kind := by
    rw [cursor.kind_peek_retold, Token.Kind.retold_eq_iff noText]
  by_cases found : cursor.peek.kind = kind
  · rw [expect_of_kind found, expect_of_kind (same.mpr found), cursor.skip_retold]
    rfl
  · simp only [expect, if_neg found, if_neg (mt same.mp found), cursor.complain_retold]
    rfl

end Parse

open Parse

variable (symbols : Symbols)

namespace Expression

theorem retells_term : Retells retelling id (term symbols) (term symbols) := by
  intro cursor
  unfold term
  rw [cursor.kind_peek_retold]
  cases kind : cursor.peek.kind with
  | integer number => exact congrArg (Prod.mk _) cursor.skip_retold
  | minus =>
    simp only [Token.Kind.retold]
    rw [cursor.skip_retold, cursor.skip.kind_peek_retold]
    cases second : cursor.skip.peek.kind with
    | integer number => exact congrArg (Prod.mk _) cursor.skip.skip_retold
    | _ => exact congrArg (fun diagnostic => (Except.error diagnostic, _)) (cursor.skip.complain_retold _)
  | atName name =>
    have some : cursor.ahead ≠ [] := by
      intro none
      simp [Cursor.peek, none] at kind
    simp only [Token.Kind.retold]
    cases symbols.constant? name with
    | some number => exact congrArg (Prod.mk _) cursor.skip_retold
    | none =>
      rw [cursor.peek_retold some, cursor.skip_retold]
      rfl
  | _ => exact congrArg (fun diagnostic => (Except.error diagnostic, _)) (cursor.complain_retold _)

theorem sign?_retold (kind : Token.Kind) : (kind.retold retelling).sign? = kind.sign? := by
  cases kind <;> rfl

theorem chain_retold {cursor after : Cursor} {sign : Int} {result : Except Diagnostic Int}
    (signed : cursor.peek.kind.sign? = some sign)
    (read : term symbols cursor.skip = (result, after)) (sum : Int) :
    chain symbols sum (cursor.retold retelling) =
      match retelling.result id result with
      | .error diagnostic => (.error diagnostic, after.retold retelling)
      | .ok number =>
        if fitsInteger (number * sign) && fitsInteger (sum + number * sign) then
          chain symbols (sum + number * sign) (after.retold retelling)
        else
          (.error (.atToken (cursor.peek.retold retelling) .unsupportedExpression),
            after.retold retelling) := by
  have again : (cursor.retold retelling).peek.kind.sign? = some sign := by
    rw [cursor.kind_peek_retold, sign?_retold, signed]
  have some : cursor.ahead ≠ [] := List.ne_nil_of_length_pos (length_pos_of_sign signed)
  rw [chain_of_signed again, cursor.skip_retold, retells_term symbols cursor.skip, read,
    cursor.peek_retold some]
  cases result <;> rfl

theorem retells_chain (sum : Int) :
    Retells retelling id (chain symbols sum : Parse Int) (chain symbols sum) := by
  intro cursor
  fun_induction chain symbols sum cursor with
  | case1 sum cursor unsigned =>
    rw [chain_stop]
    · rfl
    · rw [cursor.kind_peek_retold, sign?_retold, unsigned]
  | case2 sum cursor sign signed diagnostic after read =>
    rw [chain_retold symbols signed read]
    rfl
  | case3 sum cursor sign signed number after read fits induction =>
    rw [chain_retold symbols signed read]
    exact (if_pos fits).trans induction
  | case4 sum cursor sign signed number after read beyond =>
    rw [chain_retold symbols signed read]
    exact if_neg beyond

theorem retells_parse (labels : Bool) :
    Retells retelling (Expression.retold retelling) (parse symbols labels)
      (parse symbols labels) := by
  unfold parse
  apply retells_peek
  · intro start
    have sum : Retells retelling (Expression.retold retelling)
        (term symbols >>= fun head => (chain symbols 0 : Parse Int) >>= fun addend =>
          if fitsInteger (head + addend) then pure (.value (head + addend))
          else Parse.fail (.atToken start .unsupportedExpression))
        (term symbols >>= fun head => (chain symbols 0 : Parse Int) >>= fun addend =>
          if fitsInteger (head + addend) then pure (.value (head + addend))
          else Parse.fail (.atToken (start.retold retelling) .unsupportedExpression)) := by
      refine retells_bind (retells_term symbols) fun head => ?_
      refine retells_bind (retells_chain symbols 0) fun addend => ?_
      simp only [id]
      split
      · exact retells_pure rfl
      · exact retells_fail _
    obtain ⟨kind, position⟩ := start
    cases kind with
    | text name =>
      cases labels with
      | false => exact sum
      | true =>
        refine retells_take (retells_bind (retells_chain symbols 0) fun addend => ?_)
        exact retells_pure rfl
    | _ => exact sum
  · intro final
    rfl

end Expression

namespace Operand

theorem of_name?_word (name : String) : ofName? (retelling.word name) = ofName? name := by
  have same := retelling.sameLetters name
  unfold Text.SameLetters at same
  simp only [ofName?, Reg8.ofName?, Pair.ofName?, Index.ofName?, Index.ofHalfName?, Cond.ofName?,
    ofSpecialName?, same]

theorem of_pointer_name?_word (name : String) :
    ofPointerName? (retelling.word name) = ofPointerName? name := by
  have same := retelling.sameLetters name
  unfold Text.SameLetters at same
  simp only [ofPointerName?, same]

theorem index_of_name?_word (name : String) :
    Index.ofName? (retelling.word name) = Index.ofName? name := by
  have same := retelling.sameLetters name
  unfold Text.SameLetters at same
  simp only [Index.ofName?, same]

/-- A register or a condition is told in one way only. -/
theorem retold_of_name? {name : String} {operand : Operand} (found : ofName? name = some operand) :
    operand.retold retelling = operand := by
  have named := is_named_of_name? found
  cases operand <;> first | rfl | cases named

theorem retold_of_pointer_name? {name : String} {operand : Operand}
    (found : ofPointerName? name = some operand) : operand.retold retelling = operand := by
  unfold ofPointerName? at found
  split at found <;> cases found <;> rfl

theorem retells_distance : Retells retelling id (distance symbols) (distance symbols) := by
  unfold distance
  apply retells_peek
  · intro start
    apply retells_bind (Expression.retells_parse symbols false)
    intro expression
    cases expression with
    | value number => exact retells_pure rfl
    | symbol name addend => exact retells_fail _
  · intro final
    rfl

theorem retells_indexed_by (register : Index) :
    Retells retelling (Operand.retold retelling) (indexedBy symbols register)
      (indexedBy symbols register) := by
  have far : Retells retelling (Operand.retold retelling)
      (distance symbols >>= fun found => pure (indexed register found))
      (distance symbols >>= fun found => pure (indexed register found)) := by
    refine retells_bind (retells_distance symbols) fun found => ?_
    exact retells_pure rfl
  unfold indexedBy
  apply retells_peek
  · rintro ⟨kind, position⟩
    cases kind with
    | plus => exact retells_take far
    | minus => exact far
    | _ => exact retells_pure rfl
  · intro final
    rfl

theorem retells_enclosed :
    Retells retelling (Operand.retold retelling) (enclosed symbols) (enclosed symbols) := by
  have address : Retells retelling (Operand.retold retelling)
      (Expression.parse symbols true >>= fun found => pure (memory found))
      (Expression.parse symbols true >>= fun found => pure (memory found)) := by
    refine retells_bind (Expression.retells_parse symbols true) fun found => ?_
    exact retells_pure rfl
  unfold enclosed
  apply retells_peek
  · rintro ⟨kind, position⟩
    cases kind with
    | text name =>
      simp only [Token.retold, Token.Kind.retold, of_pointer_name?_word, index_of_name?_word]
      split
      · next operand pointer =>
        exact retells_take (retells_pure (retold_of_pointer_name? pointer).symm)
      · exact retells_take (retells_indexed_by symbols _)
      · exact address
    | _ => exact address
  · intro final
    rfl

theorem retells_starting_with (kind : Token.Kind) :
    Retells retelling (Operand.retold retelling) (startingWith symbols kind)
      (startingWith symbols (kind.retold retelling)) := by
  have value (labels : Bool) : Retells retelling (Operand.retold retelling)
      (Expression.parse symbols labels >>= fun found => pure (immediate found))
      (Expression.parse symbols labels >>= fun found => pure (immediate found)) := by
    refine retells_bind (Expression.retells_parse symbols labels) fun found => ?_
    exact retells_pure rfl
  cases kind with
  | text name =>
    unfold startingWith
    simp only [Token.Kind.retold, of_name?_word]
    split
    · next operand named =>
      exact retells_take (retells_pure (retold_of_name? named).symm)
    · exact value true
  | leftParen =>
    refine retells_take (retells_bind (retells_enclosed symbols) fun operand => ?_)
    refine retells_bind (retells_expect (by simp) _) fun _ => ?_
    exact retells_pure rfl
  | integer number | minus | atName name => exact value false
  | _ => exact retells_refuse _

end Operand

theorem Argument.retells_parse :
    Retells retelling (Argument.retold retelling) (Argument.parse symbols)
      (Argument.parse symbols) := by
  unfold Argument.parse
  apply retells_peek
  · intro token
    refine retells_bind (Operand.retells_starting_with symbols token.kind) fun operand => ?_
    exact retells_pure rfl
  · intro final
    rfl

/-! ### Statements -/

namespace Selection

theorem retold_of_plain {selection : Selection} (plain : selection.target = none) :
    selection = selection.retold retelling := by
  obtain ⟨instruction, target⟩ := selection
  cases plain
  rfl

theorem retells_of_one {choose : Argument → Except Diagnostic Selection} (isChoice : IsChoice choose) :
    Retells retelling (Selection.retold retelling) (ofOne symbols choose)
      (ofOne symbols choose) :=
  retells_bind (Argument.retells_parse symbols) fun argument =>
    retells_of_except (isChoice.retold argument)

theorem retells_of_two {choose : Argument → Argument → Except Diagnostic Selection}
    (isChoice : IsChoiceOfTwo choose) :
    Retells retelling (Selection.retold retelling) (ofTwo symbols choose)
      (ofTwo symbols choose) := by
  have pair : Retells retelling (Prod.map (Argument.retold retelling) (Argument.retold retelling))
      (two symbols) (two symbols) := by
    refine retells_bind (Argument.retells_parse symbols) fun first => ?_
    refine retells_bind (retells_expect (by simp) _) fun _ => ?_
    refine retells_bind (Argument.retells_parse symbols) fun second => ?_
    exact retells_pure rfl
  exact retells_bind pair fun found => retells_of_except (isChoice.retold found.1 found.2)

theorem retells_of_one_or_two {one : Argument → Except Diagnostic Selection}
    {both : Argument → Argument → Except Diagnostic Selection} (alone : IsChoice one)
    (ofBoth : IsChoiceOfTwo both) :
    Retells retelling (Selection.retold retelling) (ofOneOrTwo symbols one both)
      (ofOneOrTwo symbols one both) := by
  have found : Retells retelling
      (Prod.map (Argument.retold retelling) (Option.map (Argument.retold retelling)))
      (oneOrTwo symbols) (oneOrTwo symbols) := by
    refine retells_bind (Argument.retells_parse symbols) fun first => ?_
    refine retells_bind (retells_eat (by simp)) fun comma => ?_
    cases comma with
    | true =>
      refine retells_bind (Argument.retells_parse symbols) fun second => ?_
      exact retells_pure rfl
    | false =>
      exact retells_pure rfl
  refine retells_bind found fun arguments => ?_
  obtain ⟨first, _ | second⟩ := arguments
  · exact retells_of_except (alone.retold first)
  · exact retells_of_except (ofBoth.retold first second)

theorem retells_of_none_or_one {alone : Selection} (plain : alone.target = none)
    {one : Argument → Except Diagnostic Selection} (isChoice : IsChoice one) :
    Retells retelling (Selection.retold retelling) (ofNoneOrOne symbols alone one)
      (ofNoneOrOne symbols alone one) := by
  have found : Retells retelling (Option.map (Argument.retold retelling)) (noneOrOne symbols)
      (noneOrOne symbols) := by
    refine retells_bind retells_at_line_end fun ends => ?_
    cases ends with
    | true => exact retells_pure rfl
    | false =>
      refine retells_bind (Argument.retells_parse symbols) fun argument => ?_
      exact retells_pure rfl
  refine retells_bind found fun argument => ?_
  cases argument with
  | none => exact retells_pure (retold_of_plain plain)
  | some argument => exact retells_of_except (isChoice.retold argument)

theorem retells_parse (mnemonic : Mnemonic) :
    Retells retelling (Selection.retold retelling) (Selection.parse symbols mnemonic)
      (Selection.parse symbols mnemonic) := by
  apply parse_cases (motive := fun reader =>
    Retells retelling (Selection.retold retelling) reader reader)
  · exact fun _ plain => retells_pure (retold_of_plain plain)
  · exact fun _ isChoice => retells_of_one symbols isChoice
  · exact fun _ isChoice => retells_of_two symbols isChoice
  · exact fun _ _ alone ofBoth => retells_of_one_or_two symbols alone ofBoth
  · exact fun _ _ plain isChoice => retells_of_none_or_one symbols plain isChoice

end Selection

theorem string_bytes_retold (token : Token) (text : List Char) :
    stringBytes (token.retold retelling) text = retelling.result id (stringBytes token text) := by
  induction text with
  | nil => rfl
  | cons c rest induction =>
    unfold stringBytes
    split
    · exact Retelling.result_bind induction fun _ => rfl
    · rfl

theorem retells_byte_number : Retells retelling id (byteNumber symbols) (byteNumber symbols) := by
  refine retells_bind (Argument.retells_parse symbols) fun argument => ?_
  have refused : Retells retelling id
      (fail (argument.complain (.invalidOperand "db")) : Parse (List UInt8))
      (fail ((argument.retold retelling).complain (.invalidOperand "db"))) := retells_fail _
  obtain ⟨operand, token⟩ := argument
  cases operand with
  | immediate value =>
    refine retells_bind (retells_of_except (Selection.byte_retold value)) fun byte => ?_
    exact retells_pure rfl
  | _ => exact refused

theorem retells_byte_item : Retells retelling id (byteItem symbols) (byteItem symbols) := by
  have number := @retells_byte_number retelling symbols
  unfold byteItem
  apply retells_peek
  · rintro ⟨kind, position⟩
    cases kind with
    | string text => exact retells_take (retells_of_except (string_bytes_retold _ _))
    | _ => exact number
  · intro final
    rfl

theorem retells_word_item :
    Retells retelling (Prod.map id (Option.map (Target.retold retelling))) (wordItem symbols)
      (wordItem symbols) := by
  refine retells_bind (Argument.retells_parse symbols) fun argument => ?_
  have refused : Retells retelling (Prod.map id (Option.map (Target.retold retelling)))
      (fail (argument.complain (.invalidOperand "dw")) : Parse (UInt16 × Option Target))
      (fail ((argument.retold retelling).complain (.invalidOperand "dw"))) := retells_fail _
  obtain ⟨operand, token⟩ := argument
  cases operand with
  | immediate value =>
    cases value with
    | value number =>
      refine retells_bind (retells_of_except (Selection.word_retold number)) fun word => ?_
      exact retells_pure rfl
    | symbol name addend =>
      exact retells_pure rfl
  | _ => exact refused

section

variable {α : Type} {change : α → α} {item : Parse α}
  (each : Retells retelling change item item)

include each

theorem retells_items_up_to (count : Nat) :
    Retells retelling (List.map change) (itemsUpTo item count) (itemsUpTo item count) := by
  induction count with
  | zero => exact retells_pure rfl
  | succ count induction =>
    refine retells_bind each fun first => ?_
    refine retells_bind (retells_eat (by simp)) fun comma => ?_
    cases comma with
    | true =>
      refine retells_bind induction fun rest => ?_
      exact retells_pure rfl
    | false => exact retells_pure rfl

theorem retells_items : Retells retelling (List.map change) (items item) (items item) := by
  intro cursor
  have same : (cursor.retold retelling).lineAhead.length = cursor.lineAhead.length := by
    rw [cursor.line_ahead_retold, List.length_map]
  rw [items, items, same]
  exact retells_items_up_to each _ cursor

end

namespace Statement

/-- Reading a retold statement gives the retold statement. -/
theorem retells_parse (head : Token) :
    Retells retelling (Statement.retold retelling) (Statement.parse symbols head)
      (Statement.parse symbols (head.retold retelling)) := by
  obtain ⟨kind, position⟩ := head
  cases kind with
  | text name =>
    have same := retelling.sameLetters name
    unfold Text.SameLetters at same
    simp only [Statement.parse, Token.retold, Token.Kind.retold, same]
    unfold parseNamed
    split
    · refine retells_bind (retells_items (retells_byte_item symbols)) fun items => ?_
      exact retells_pure (congrArg bytes (List.map_id items))
    · refine retells_bind (retells_items (retells_word_item symbols)) fun items => ?_
      exact retells_pure rfl
    · refine retells_bind (Selection.retells_parse symbols _) fun selection => ?_
      exact retells_pure rfl
    · exact retells_fail (.atToken ⟨.text name, position⟩ _)
  | _ => exact retells_fail _

theorem references_of_words_retold (offset : Nat) (items : List (UInt16 × Option Target)) :
    Encoding.ofWords offset (items.map (Prod.map id (Option.map (Target.retold retelling)))) =
      ⟨(Encoding.ofWords offset items).bytes,
        (Encoding.ofWords offset items).references.map (Reference.retold retelling)⟩ := by
  induction items generalizing offset with
  | nil => rfl
  | cons item rest induction =>
    obtain ⟨word, target⟩ := item
    rw [List.map_cons, Encoding.ofWords, Encoding.ofWords, Prod.map, induction]
    cases target <;> rfl

/-- A retold statement has the same bytes and waits for the retold labels. -/
theorem encoding_retold (statement : Statement) :
    (statement.retold retelling).encoding =
      ⟨statement.encoding.bytes, statement.encoding.references.map (Reference.retold retelling)⟩ := by
  cases statement with
  | instruction selection =>
    obtain ⟨instruction, target⟩ := selection
    cases target <;> rfl
  | bytes items => rfl
  | words items => exact references_of_words_retold 0 items

end Statement

end Z80Toolchain
