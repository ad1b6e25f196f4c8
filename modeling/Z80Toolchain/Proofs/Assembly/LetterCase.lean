import Mathlib.Data.List.Forall2
import Z80Toolchain.Proofs.Assembly.Retelling

/-!
Letter case in statements. Two spellings of a statement that differ only in the case of letters are
compared through a third one, in small letters: each of the two is retold as that one, so what is read
from them is retold as one result. Labels keep their case, so the references of the two are the same
up to the case of their names only.
-/
namespace Z80Toolchain

/-! ### Small letters -/

theorem Text.lower_lower (text : String) : lower (lower text) = lower text := by
  have small (c : Char) : c.toLower.toLower = c.toLower := by
    unfold Char.toLower
    grind
  rw [← String.toList_inj]
  simp [small]

instance (left right : String) : Decidable (Text.SameLetters left right) :=
  inferInstanceAs (Decidable (Text.lower left = Text.lower right))

def Retelling.small : Retelling :=
  ⟨id, Text.lower, Text.lower_lower⟩

open Retelling (small)

/-! ### Spellings -/

/-- The same kind of token, where the letters of a word may differ in case. -/
inductive Token.Kind.Respelled : Token.Kind → Token.Kind → Prop
  | same (kind : Token.Kind) : Respelled kind kind
  | word {name other : String} (letters : Text.SameLetters name other) :
      Respelled (.text name) (.text other)

structure Token.Respelled (token other : Token) : Prop where
  kind : token.kind.Respelled other.kind
  position : token.position = other.position

structure Cursor.Respelled (cursor other : Cursor) : Prop where
  ahead : List.Forall₂ Token.Respelled cursor.ahead other.ahead
  final : cursor.final = other.final

structure Reference.Respelled (reference other : Reference) : Prop where
  name : Text.SameLetters reference.name other.name
  offset : reference.offset = other.offset
  width : reference.width = other.width
  addend : reference.addend = other.addend
  position : reference.position = other.position

/-- Two spellings of a statement are both accepted, with the same bytes, or both refused, for the same
cause at the same place. -/
inductive Statement.SameOutcome : Except Diagnostic Statement → Except Diagnostic Statement → Prop
  | accepted {statement other : Statement}
      (bytes : statement.encoding.bytes = other.encoding.bytes)
      (references : List.Forall₂ Reference.Respelled statement.encoding.references
        other.encoding.references) : SameOutcome (.ok statement) (.ok other)
  | refused {diagnostic other : Diagnostic} (cause : diagnostic.cause = other.cause)
      (position : diagnostic.position = other.position) :
      SameOutcome (.error diagnostic) (.error other)

/-! ### One spelling for both -/

theorem Token.Kind.respelled_iff {kind other : Token.Kind} :
    kind.Respelled other ↔ kind.retold small = other.retold small := by
  constructor
  · rintro (_ | letters)
    · rfl
    · exact congrArg Token.Kind.text letters
  · intro same
    cases kind with
    | text name =>
      cases other with
      | text other => exact .word (Token.Kind.text.inj same)
      | _ => exact absurd same (by simp [Token.Kind.retold])
    | _ =>
      obtain rfl := (Token.Kind.retold_eq_iff (by simp [Token.Kind.retold])).mp same.symm
      exact .same _

theorem Token.respelled_iff {token other : Token} :
    token.Respelled other ↔ token.retold small = other.retold small := by
  rw [Token.retold, Token.retold, Token.mk.injEq, ← Token.Kind.respelled_iff]
  exact ⟨fun same => ⟨same.kind, same.position⟩, fun both => ⟨both.1, both.2⟩⟩

theorem map_eq_map_iff_forall₂ {α β : Type} {change : α → β} {values others : List α} :
    values.map change = others.map change ↔
      List.Forall₂ (fun value other => change value = change other) values others := by
  rw [← List.forall₂_eq_eq_eq, List.forall₂_map_left_iff, List.forall₂_map_right_iff]

theorem Cursor.respelled_iff {cursor other : Cursor} :
    cursor.Respelled other ↔ cursor.retold small = other.retold small := by
  rw [Cursor.retold, Cursor.retold, Cursor.mk.injEq, map_eq_map_iff_forall₂]
  simp only [← Token.respelled_iff]
  exact ⟨fun same => ⟨same.ahead, same.final⟩, fun both => ⟨both.1, both.2⟩⟩

theorem Reference.respelled_of_retold {reference other : Reference}
    (same : reference.retold small = other.retold small) : reference.Respelled other := by
  obtain ⟨name, offset, width, addend, position⟩ := Reference.mk.inj same
  exact ⟨name, offset, width, addend, position⟩

namespace Statement

/-- Statements that are told alike have the same bytes, and wait for labels with the same letters. -/
theorem same_outcome_of_retold {result other : Except Diagnostic Statement}
    (same : small.result (Statement.retold small) result =
      small.result (Statement.retold small) other) : SameOutcome result other := by
  rcases result with diagnostic | statement <;> rcases other with diagnostic' | statement'
  · obtain ⟨position, cause, -⟩ := Diagnostic.mk.inj (Except.error.inj same)
    exact .refused cause position
  · cases same
  · cases same
  · have encodings := congrArg Statement.encoding (Except.ok.inj same)
    rw [encoding_retold, encoding_retold, Encoding.mk.injEq, map_eq_map_iff_forall₂] at encodings
    exact .accepted encodings.1 (encodings.2.imp fun _ _ => Reference.respelled_of_retold)

/-- A statement may be spelled in any case of letters, its first word included: it is accepted or
refused as before, and the readers stop at the same token. -/
theorem parse_respelled (symbols : Symbols) {head head' : Token} {cursor cursor' : Cursor}
    (heads : head.Respelled head') (cursors : cursor.Respelled cursor') :
    SameOutcome (parse symbols head cursor).1 (parse symbols head' cursor').1 ∧
      (parse symbols head cursor).2.Respelled (parse symbols head' cursor').2 ∧
      (parse symbols head cursor).2.ahead.length = (parse symbols head' cursor').2.ahead.length := by
  have read := @retells_parse small symbols head cursor
  have read' := @retells_parse small symbols head' cursor'
  rw [Token.respelled_iff.mp heads, Cursor.respelled_iff.mp cursors, read', Prod.mk.injEq] at read
  have behind := Cursor.respelled_iff.mpr read.2.symm
  exact ⟨same_outcome_of_retold read.1.symm, behind, behind.ahead.length_eq⟩

/-- `JP NZ, Loop` and `jp nz, LOOP`: the bytes are the same, and each keeps its spelling of the
label. -/
theorem parse_respelled_jump :
    let spelled (jump condition label : String) :=
      (parse .empty ⟨.text jump, ⟨0, 0⟩⟩ ⟨[⟨.text condition, ⟨0, 3⟩⟩, ⟨.comma, ⟨0, 5⟩⟩,
        ⟨.text label, ⟨0, 7⟩⟩, ⟨.newLine, ⟨0, 11⟩⟩], ⟨0, 11⟩⟩).1
    SameOutcome (spelled "JP" "NZ" "Loop") (spelled "jp" "nz" "LOOP") ∧
      (spelled "JP" "NZ" "Loop").toOption.map encoding =
        some ⟨[0xC2, 0, 0], [⟨"Loop", 1, .absolute, 0, ⟨0, 7⟩⟩]⟩ ∧
      (spelled "jp" "nz" "LOOP").toOption.map encoding =
        some ⟨[0xC2, 0, 0], [⟨"LOOP", 1, .absolute, 0, ⟨0, 7⟩⟩]⟩ := by
  intro spelled
  have heads : Token.Respelled ⟨.text "JP", ⟨0, 0⟩⟩ ⟨.text "jp", ⟨0, 0⟩⟩ := ⟨.word (by decide), rfl⟩
  have operands : Cursor.Respelled
      ⟨[⟨.text "NZ", ⟨0, 3⟩⟩, ⟨.comma, ⟨0, 5⟩⟩, ⟨.text "Loop", ⟨0, 7⟩⟩, ⟨.newLine, ⟨0, 11⟩⟩], ⟨0, 11⟩⟩
      ⟨[⟨.text "nz", ⟨0, 3⟩⟩, ⟨.comma, ⟨0, 5⟩⟩, ⟨.text "LOOP", ⟨0, 7⟩⟩, ⟨.newLine, ⟨0, 11⟩⟩],
        ⟨0, 11⟩⟩ :=
    ⟨.cons ⟨.word (by decide), rfl⟩ (.cons ⟨.same _, rfl⟩ (.cons ⟨.word (by decide), rfl⟩
      (.cons ⟨.same _, rfl⟩ .nil))), rfl⟩
  exact ⟨(parse_respelled .empty heads operands).1, by decide +kernel, by decide +kernel⟩

end Statement

end Z80Toolchain
