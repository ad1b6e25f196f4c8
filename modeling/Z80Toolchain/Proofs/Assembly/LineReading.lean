import Z80Toolchain.Proofs.Assembly.ArgumentReading
import Z80Toolchain.Proofs.Assembly.Rewording

/-!
Readers stay on their line. Whatever a reader of a statement does, it leaves the cursor on the line
where it stood, takes no bad token, and complains about tokens of that line only; and it cannot tell
what lies behind the line end. Which results it gives is left open.
-/
namespace Z80Toolchain

def Token.IsBad (token : Token) : Prop :=
  ∃ text, token.kind = .bad text

/-! ### Cursors on a line -/

namespace Cursor

def before (stop : Cursor) (body : List Token) : Cursor :=
  ⟨body ++ stop.ahead, stop.final⟩

def blamed (cursor : Cursor) : Token :=
  if cursor.peek.kind = .endOfInput then ⟨.endOfInput, cursor.final⟩ else cursor.peek

theorem complain_eq (cursor : Cursor) (cause : Cause) :
    cursor.complain cause = .atToken cursor.blamed cause := by
  unfold complain blamed
  split <;> rfl

/-- No reader can tell these cursors apart without taking a token. -/
structure LooksLike (cursor stop : Cursor) : Prop where
  peek : cursor.peek = stop.peek
  blamed : cursor.blamed = stop.blamed

theorem looks_like_refl (stop : Cursor) : stop.LooksLike stop := ⟨rfl, rfl⟩

@[simp] theorem before_nil (stop : Cursor) : stop.before [] = stop := rfl

@[simp] theorem peek_before (stop : Cursor) (token : Token) (rest : List Token) :
    (stop.before (token :: rest)).peek = token := rfl

@[simp] theorem skip_before (stop : Cursor) (token : Token) (rest : List Token) :
    (stop.before (token :: rest)).skip = stop.before rest := rfl

/-- Every cursor stands in front of the end of its line. -/
theorem before_line_ahead (cursor : Cursor) : cursor.skipLine.before cursor.lineAhead = cursor := by
  obtain ⟨ahead, final⟩ := cursor
  simp [before, skipLine, lineAhead]

theorem line_ahead_plain (cursor : Cursor) :
    ∀ token ∈ cursor.lineAhead, token.kind.endsLine = false := by
  have passed : cursor.lineAhead.all (fun token => !token.kind.endsLine) = true := List.all_takeWhile
  simpa using passed

theorem skip_line_ends (cursor : Cursor) : cursor.skipLine.peek.kind.endsLine = true := by
  obtain ⟨ahead, final⟩ := cursor
  induction ahead with
  | nil => rfl
  | cons token rest induction =>
    by_cases ends : token.kind.endsLine = true
    · simp [skipLine, peek, ends]
    · simpa [skipLine, peek, List.dropWhile_cons, ends] using induction

section

variable {stop : Cursor} (ends : stop.peek.kind.endsLine = true) {body : List Token}
  (plain : ∀ token ∈ body, token.kind.endsLine = false)

include ends plain

theorem line_ahead_before : (stop.before body).lineAhead = body := by
  have passed : ∀ token ∈ body, (!token.kind.endsLine) = true := by
    simpa using plain
  have nothing : stop.ahead.takeWhile (fun token => !token.kind.endsLine) = [] := by
    obtain ⟨_ | ⟨token, rest⟩, final⟩ := stop
    · rfl
    · exact List.takeWhile_cons_of_neg (by simpa using ends)
  rw [before, lineAhead, List.takeWhile_append_of_pos passed, nothing, List.append_nil]

theorem skip_line_before : (stop.before body).skipLine = stop := by
  have whole := (stop.before body).before_line_ahead
  rw [line_ahead_before ends plain, before, before, mk.injEq] at whole
  have same : (stop.before body).skipLine.ahead = stop.ahead := List.append_cancel_left whole.1
  rw [mk.injEq]
  exact ⟨same, rfl⟩

end

end Cursor

/-- The end of a line, where complaints may name the token found there. -/
structure LineEnd (scope : List Token) (stop : Cursor) : Prop where
  ends : stop.peek.kind.endsLine = true
  blamed : stop.blamed ∈ scope

def InLine (scope body : List Token) : Prop :=
  ∀ token ∈ body, token ∈ scope ∧ token.kind.endsLine = false

theorem InLine.tail {scope : List Token} {token : Token} {rest : List Token}
    (inside : InLine scope (token :: rest)) : InLine scope rest :=
  fun other member => inside other (by simp [member])

theorem InLine.suffix {scope body left : List Token} (inside : InLine scope body)
    (suffix : left <:+ body) : InLine scope left :=
  fun token member => inside token (suffix.subset member)

theorem Cursor.complain_before {scope : List Token} {stop : Cursor} (line : LineEnd scope stop)
    {body : List Token} (inside : InLine scope body) :
    ∃ token ∈ scope, ∀ cursor : Cursor, cursor.LooksLike stop →
      ∀ cause, (cursor.before body).complain cause = .atToken token cause := by
  cases body with
  | nil =>
    refine ⟨stop.blamed, line.blamed, ?_⟩
    intro cursor alike cause
    rw [before_nil, complain_eq, alike.blamed]
  | cons token rest =>
    obtain ⟨member, plain⟩ := inside token (by simp)
    refine ⟨token, member, ?_⟩
    intro cursor alike cause
    have other : token.kind ≠ .endOfInput := by
      intro final
      simp [final, Token.Kind.endsLine] at plain
    simp [complain, other]

/-! ### What a reader does with a line -/

structure Reading {α : Type} (scope : List Token) (good : α → Prop) (body : List Token)
    (result : Except Diagnostic α) (left : List Token) : Prop where
  taken : ∃ taken, body = taken ++ left ∧ ∀ token ∈ taken, ¬ token.IsBad
  blames : Blames scope result
  good : ∀ value, result = .ok value → good value

/-- The reader has one outcome for these tokens, whatever lies behind the line end. -/
def Parse.StaysIn {α : Type} (scope : List Token) (stop : Cursor) (good : α → Prop)
    (reader : Parse α) (body : List Token) : Prop :=
  ∃ result left, Reading scope good body result left ∧
    ∀ cursor : Cursor, cursor.LooksLike stop →
      reader (cursor.before body) = (result, cursor.before left)

theorem Reading.suffix {α : Type} {scope body left : List Token} {good : α → Prop}
    {result : Except Diagnostic α} (outcome : Reading scope good body result left) :
    left <:+ body := by
  obtain ⟨taken, covered, -⟩ := outcome.taken
  exact ⟨taken, covered.symm⟩

/-- An outcome for what another one left. -/
theorem Reading.trans {α β : Type} {scope body middle left : List Token} {fair : α → Prop}
    {good : β → Prop} {first : Except Diagnostic α} {second : Except Diagnostic β}
    (before : Reading scope fair body first middle) (after : Reading scope good middle second left) :
    Reading scope good body second left := by
  obtain ⟨taken, rfl, sound⟩ := before.taken
  obtain ⟨more, rfl, soundMore⟩ := after.taken
  refine ⟨⟨taken ++ more, by simp, ?_⟩, after.blames, after.good⟩
  intro token member
  rcases List.mem_append.mp member with early | late
  · exact sound token early
  · exact soundMore token late

theorem reading_keep {α : Type} {scope : List Token} {good : α → Prop} (body : List Token)
    {result : Except Diagnostic α} (blames : Blames scope result)
    (valid : ∀ value, result = .ok value → good value) : Reading scope good body result body :=
  ⟨⟨[], rfl, by simp⟩, blames, valid⟩

theorem reading_take {α : Type} {scope : List Token} {good : α → Prop} {token : Token}
    {rest : List Token} (sound : ¬ token.IsBad) {result : Except Diagnostic α}
    (blames : Blames scope result) (valid : ∀ value, result = .ok value → good value) :
    Reading scope good (token :: rest) result rest :=
  ⟨⟨[token], rfl, by simpa using sound⟩, blames, valid⟩

namespace Parse

section

variable {α β : Type} {scope : List Token} {stop : Cursor} {good : α → Prop} {fine : β → Prop}
  {body : List Token}

theorem stays_in_of_except {result : Except Diagnostic α} (blames : Blames scope result)
    (valid : ∀ value, result = .ok value → good value) :
    StaysIn scope stop good (ofExcept result) body := by
  refine ⟨result, body, reading_keep body blames valid, ?_⟩
  intro cursor alike
  cases result <;> rfl

theorem stays_in_pure {value : α} (valid : good value) :
    StaysIn scope stop good (pure value) body := by
  apply stays_in_of_except (blames_ok value)
  rintro other ⟨⟩
  exact valid

theorem stays_in_fail {diagnostic : Diagnostic} (blames : diagnostic.Blames scope) :
    StaysIn scope stop good (fail diagnostic) body :=
  stays_in_of_except (blames_error blames) (by simp)

theorem stays_in_bind {reader : Parse α} {next : α → Parse β}
    (first : StaysIn scope stop good reader body)
    (second : ∀ value left, left <:+ body → good value → StaysIn scope stop fine (next value) left) :
    StaysIn scope stop fine (reader >>= next) body := by
  obtain ⟨result, middle, outcome, read⟩ := first
  cases result with
  | error diagnostic =>
    refine ⟨.error diagnostic, middle, ⟨outcome.taken, ?_, by simp⟩, ?_⟩
    · exact blames_error (outcome.blames diagnostic rfl)
    · intro cursor alike
      rw [bind_apply, read cursor alike]
  | ok value =>
    obtain ⟨final, left, later, readLater⟩ :=
      second value middle outcome.suffix (outcome.good value rfl)
    refine ⟨final, left, outcome.trans later, ?_⟩
    intro cursor alike
    rw [bind_of_ok (read cursor alike), readLater cursor alike]

/-- Looking at the next token: it is one of the line, or the line is at its end. -/
theorem stays_in_peek {next : Token → Parse β}
    (inside : ∀ token rest, body = token :: rest → StaysIn scope stop fine (next token) body)
    (outside : body = [] → StaysIn scope stop fine (next stop.peek) body) :
    StaysIn scope stop fine (peek >>= next) body := by
  cases body with
  | nil =>
    obtain ⟨result, left, outcome, read⟩ := outside rfl
    refine ⟨result, left, outcome, ?_⟩
    intro cursor alike
    rw [bind_of_ok (by rfl), Cursor.before_nil, alike.peek]
    exact read cursor alike
  | cons token rest =>
    obtain ⟨result, left, outcome, read⟩ := inside token rest rfl
    refine ⟨result, left, outcome, ?_⟩
    intro cursor alike
    rw [bind_of_ok (by rfl)]
    exact read cursor alike

theorem stays_in_take {next : Token → Parse β} {token : Token} {rest : List Token}
    (sound : ¬ token.IsBad) (later : StaysIn scope stop fine (next token) rest) :
    StaysIn scope stop fine (take >>= next) (token :: rest) := by
  obtain ⟨result, left, outcome, read⟩ := later
  have first : Reading scope (fun _ : Token => True) (token :: rest) (.ok token) rest :=
    reading_take sound (blames_ok token) (by simp)
  refine ⟨result, left, first.trans outcome, ?_⟩
  intro cursor alike
  rw [bind_of_ok (by rfl)]
  exact read cursor alike

section

variable (line : LineEnd scope stop) (inside : InLine scope body)

include line inside

theorem stays_in_refuse {cause : Cause} (apart : cause.concernsSymbol = false) :
    StaysIn scope stop good (refuse cause) body := by
  obtain ⟨token, member, complains⟩ := Cursor.complain_before line inside
  refine ⟨.error (.atToken token cause), body, reading_keep body ?_ (by simp), ?_⟩
  · exact blames_error (Diagnostic.blames_at_token member apart)
  · intro cursor alike
    rw [refuse, complains cursor alike]

/-- A mark is taken where it stands, and missed elsewhere. -/
theorem stays_in_expect {kind : Token.Kind} (plain : kind.endsLine = false)
    (sound : ∀ text, kind ≠ .bad text) (what : String) :
    StaysIn scope stop (fun _ => True) (expect kind what) body := by
  obtain ⟨blamed, member, complains⟩ := Cursor.complain_before line inside
  have missed : Reading scope (fun _ : Unit => True) body
      (.error (.atToken blamed (.expected what))) body :=
    reading_keep body (blames_error (Diagnostic.blames_at_token member rfl)) (by simp)
  cases body with
  | nil =>
    refine ⟨_, _, missed, ?_⟩
    intro cursor alike
    have other : cursor.peek.kind ≠ kind := by
      rw [alike.peek]
      rintro rfl
      simp [line.ends] at plain
    rw [expect, Cursor.before_nil, if_neg other, ← complains cursor alike, Cursor.before_nil]
  | cons token rest =>
    by_cases same : token.kind = kind
    · refine ⟨.ok (), rest, reading_take ?_ (blames_ok ()) (by simp), ?_⟩
      · rintro ⟨text, bad⟩
        exact sound text (same.symm.trans bad)
      · intro cursor alike
        rw [expect_of_kind (by simpa using same)]
        rfl
    · refine ⟨_, _, missed, ?_⟩
      intro cursor alike
      rw [expect, Cursor.peek_before, if_neg same, ← complains cursor alike]

omit inside in
theorem stays_in_eat {kind : Token.Kind} (plain : kind.endsLine = false)
    (sound : ∀ text, kind ≠ .bad text) :
    StaysIn scope stop (fun _ => True) (eat kind) body := by
  have missed : Reading scope (fun _ : Bool => True) body (.ok false) body :=
    reading_keep body (blames_ok false) (by simp)
  cases body with
  | nil =>
    refine ⟨_, _, missed, ?_⟩
    intro cursor alike
    apply eat_eq_false
    rw [Cursor.before_nil, alike.peek]
    rintro rfl
    simp [line.ends] at plain
  | cons token rest =>
    by_cases same : token.kind = kind
    · refine ⟨.ok true, rest, reading_take ?_ (blames_ok true) (by simp), ?_⟩
      · rintro ⟨text, bad⟩
        exact sound text (same.symm.trans bad)
      · intro cursor alike
        rw [eat_eq_true (by simpa using same)]
        rfl
    · refine ⟨_, _, missed, ?_⟩
      intro cursor alike
      exact eat_eq_false (by simpa using same)

omit line inside in
theorem stays_in_at_line_end : StaysIn scope stop (fun _ => True) atLineEnd body := by
  cases body with
  | nil =>
    refine ⟨.ok stop.atLineEnd, [], reading_keep [] (blames_ok _) (by simp), ?_⟩
    intro cursor alike
    simp [atLineEnd, Cursor.atLineEnd, alike.peek]
  | cons token rest =>
    refine ⟨.ok token.kind.endsLine, token :: rest, reading_keep _ (blames_ok _) (by simp), ?_⟩
    intro cursor alike
    rfl

end

end

end Parse

open Parse

section

variable {scope : List Token} {stop : Cursor} (line : LineEnd scope stop) {body : List Token}
  (symbols : Symbols)

/-- At the end of a line nothing is seen but the line end. -/
theorem LineEnd.kind_eq (line : LineEnd scope stop) :
    stop.peek.kind = .newLine ∨ stop.peek.kind = .endOfInput := by
  simpa [Token.Kind.endsLine] using line.ends

/-! ### Expressions and operands -/

namespace Expression

include line

/-- A term that is accepted stands on the line. -/
theorem stays_in_term (inside : InLine scope body) :
    StaysIn scope stop (fun _ => body ≠ []) (term symbols) body := by
  obtain ⟨blamed, member, complains⟩ := Cursor.complain_before line inside
  have refused : Blames scope
      (.error (.atToken blamed .unsupportedExpression) : Except Diagnostic Int) :=
    blames_error (Diagnostic.blames_at_token member rfl)
  cases body with
  | nil =>
    refine ⟨_, [], reading_keep [] refused (by simp), ?_⟩
    intro cursor alike
    have same := complains cursor alike .unsupportedExpression
    rw [Cursor.before_nil] at same ⊢
    rcases line.kind_eq with feed | final
    · simp only [term, alike.peek, feed, same]
    · simp only [term, alike.peek, final, same]
  | cons token rest =>
    cases kind : token.kind with
    | integer number =>
      refine ⟨.ok number, rest, reading_take ?_ (blames_ok _) (by simp), ?_⟩
      · simp [Token.IsBad, kind]
      · intro cursor alike
        simp [term, kind]
    | minus =>
      have sound : ¬ token.IsBad := by simp [Token.IsBad, kind]
      obtain ⟨next, nextMember, nextComplains⟩ := Cursor.complain_before line inside.tail
      cases rest with
      | nil =>
        refine ⟨.error (.atToken next .unsupportedExpression), [], reading_take sound ?_ (by simp), ?_⟩
        · exact blames_error (Diagnostic.blames_at_token nextMember rfl)
        · intro cursor alike
          have same := nextComplains cursor alike .unsupportedExpression
          rw [Cursor.before_nil] at same
          rcases line.kind_eq with feed | final
          · simp [term, kind, alike.peek, feed, same]
          · simp [term, kind, alike.peek, final, same]
      | cons digits rest =>
        by_cases number : ∃ value, digits.kind = .integer value
        · obtain ⟨value, integer⟩ := number
          have more : ¬ digits.IsBad := by simp [Token.IsBad, integer]
          refine ⟨.ok (-value), rest, ⟨⟨[token, digits], rfl, ?_⟩, blames_ok _, by simp⟩, ?_⟩
          · simp [sound, more]
          · intro cursor alike
            simp [term, kind, integer]
        · refine ⟨.error (.atToken next .unsupportedExpression), digits :: rest,
            reading_take sound ?_ (by simp), ?_⟩
          · exact blames_error (Diagnostic.blames_at_token nextMember rfl)
          · intro cursor alike
            have same := nextComplains cursor alike .unsupportedExpression
            simp only [term, Cursor.peek_before, Cursor.skip_before, kind, same]
            split
            · next value integer => exact absurd ⟨value, integer⟩ number
            · rfl
    | atName name =>
      have sound : ¬ token.IsBad := by simp [Token.IsBad, kind]
      have here := (inside token (by simp)).1
      cases found : symbols.constant? name with
      | some number =>
        refine ⟨.ok number, rest, reading_take sound (blames_ok _) (by simp), ?_⟩
        intro cursor alike
        simp [term, kind, found]
      | none =>
        refine ⟨.error (.atToken token (.undefinedVariable name)), rest,
          reading_take sound ?_ (by simp), ?_⟩
        · exact blames_error (Diagnostic.blames_at_token here rfl)
        · intro cursor alike
          simp [term, kind, found]
    | _ =>
      refine ⟨_, token :: rest, reading_keep _ refused (by simp), ?_⟩
      intro cursor alike
      simp only [term, Cursor.peek_before, kind, complains cursor alike]

/-- By induction on the number of tokens: each sign takes at least itself. -/
theorem stays_in_chain (inside : InLine scope body) (sum : Int) :
    StaysIn scope stop (fun _ => True) (chain symbols sum : Parse Int) body := by
  generalize size : body.length = count
  induction count using Nat.strongRecOn generalizing body sum with
  | ind count induction =>
    have stopped (unsigned : ∀ cursor : Cursor, cursor.LooksLike stop →
        (cursor.before body).peek.kind.sign? = none) :
        StaysIn scope stop (fun _ => True) (chain symbols sum : Parse Int) body := by
      refine ⟨.ok sum, body, reading_keep body (blames_ok sum) (by simp), ?_⟩
      intro cursor alike
      exact chain_stop (unsigned cursor alike) sum
    cases body with
    | nil =>
      apply stopped
      intro cursor alike
      rw [Cursor.before_nil, alike.peek]
      rcases line.kind_eq with feed | final
      · simp [feed, Token.Kind.sign?]
      · simp [final, Token.Kind.sign?]
    | cons token rest =>
      cases signed : token.kind.sign? with
      | none =>
        apply stopped
        intro cursor alike
        exact signed
      | some sign =>
        have sound : ¬ token.IsBad := by
          rintro ⟨text, bad⟩
          simp [bad, Token.Kind.sign?] at signed
        have here := (inside token (by simp)).1
        have first : Reading scope (fun _ : Token => True) (token :: rest) (.ok token) rest :=
          reading_take sound (blames_ok token) (by simp)
        obtain ⟨result, left, outcome, read⟩ := stays_in_term line symbols inside.tail
        have unfolded (cursor : Cursor) :=
          chain_of_signed (show (cursor.before (token :: rest)).peek.kind.sign? = some sign from
            signed) symbols sum
        simp only [Cursor.skip_before, Cursor.peek_before] at unfolded
        cases result with
        | error diagnostic =>
          refine ⟨.error diagnostic, left, first.trans ⟨outcome.taken, ?_, by simp⟩, ?_⟩
          · exact blames_error (outcome.blames diagnostic rfl)
          · intro cursor alike
            rw [unfolded, read cursor alike]
        | ok number =>
          by_cases fits : (fitsInteger (number * sign) && fitsInteger (sum + number * sign)) = true
          · have shorter : left.length < count := by
              have length := outcome.suffix.length_le
              simp only [List.length_cons] at size
              omega
            obtain ⟨final, remaining, later, readLater⟩ := induction left.length shorter
              (inside.tail.suffix outcome.suffix) (sum + number * sign) rfl
            refine ⟨final, remaining, first.trans (outcome.trans later), ?_⟩
            intro cursor alike
            rw [unfolded, read cursor alike]
            exact (if_pos fits).trans (readLater cursor alike)
          · refine ⟨.error (.atToken token .unsupportedExpression), left,
              first.trans ⟨outcome.taken, ?_, by simp⟩, ?_⟩
            · exact blames_error (Diagnostic.blames_at_token here rfl)
            · intro cursor alike
              rw [unfolded, read cursor alike]
              exact if_neg fits

theorem stays_in_parse (labels : Bool) (inside : InLine scope body) :
    StaysIn scope stop (fun _ => body ≠ []) (parse symbols labels) body := by
  apply stays_in_peek
  · rintro token rest rfl
    have here := (inside token (by simp)).1
    split
    · next name _ named =>
      apply stays_in_take (by simp [Token.IsBad, named])
      apply stays_in_bind (stays_in_chain line symbols inside.tail 0)
      intro addend left _ _
      exact stays_in_pure (by simp)
    · apply stays_in_bind (stays_in_term line symbols inside)
      intro head left suffix _
      apply stays_in_bind (stays_in_chain line symbols (inside.suffix suffix) 0)
      intro addend _ _ _
      split
      · exact stays_in_pure (by simp)
      · exact stays_in_fail (Diagnostic.blames_at_token here rfl)
  · rintro rfl
    have noTerm : StaysIn scope stop (fun _ : Expression => ([] : List Token) ≠ [])
        (term symbols >>= fun head => (chain symbols 0 : Parse Int) >>= fun addend =>
          if fitsInteger (head + addend) then pure (.value (head + addend))
          else fail (.atToken stop.peek .unsupportedExpression)) [] := by
      apply stays_in_bind (stays_in_term line symbols inside)
      intro head left _ impossible
      exact absurd rfl impossible
    rcases line.kind_eq with feed | final
    · simpa only [feed] using noTerm
    · simpa only [final] using noTerm

end Expression

namespace Operand

include line

theorem stays_in_distance (inside : InLine scope body) :
    StaysIn scope stop (fun _ => True) (distance symbols) body := by
  apply stays_in_peek
  · rintro token rest rfl
    have here := (inside token (by simp)).1
    apply stays_in_bind (Expression.stays_in_parse line symbols false inside)
    intro expression left _ _
    cases expression with
    | value number => exact stays_in_pure trivial
    | symbol name addend => exact stays_in_fail (Diagnostic.blames_at_token here rfl)
  · rintro rfl
    apply stays_in_bind (Expression.stays_in_parse line symbols false inside)
    intro expression left _ impossible
    exact absurd rfl impossible

theorem stays_in_indexed_by (register : Index) (inside : InLine scope body) :
    StaysIn scope stop (fun _ => True) (indexedBy symbols register) body := by
  have signed {left : List Token} (within : InLine scope left) :
      StaysIn scope stop (fun _ => True)
        (do return indexed register (← distance symbols)) left := by
    apply stays_in_bind (stays_in_distance line symbols within)
    intro number _ _ _
    exact stays_in_pure trivial
  apply stays_in_peek
  · rintro token rest rfl
    split
    · next plus => exact stays_in_take (by simp [Token.IsBad, plus]) (signed inside.tail)
    · exact signed inside
    · exact stays_in_pure trivial
  · rintro rfl
    have alone : StaysIn scope stop (fun _ => True) (pure (atIndex register)) [] :=
      stays_in_pure trivial
    rcases line.kind_eq with feed | final
    · simpa only [feed] using alone
    · simpa only [final] using alone

theorem stays_in_enclosed (inside : InLine scope body) :
    StaysIn scope stop (fun _ => True) (enclosed symbols) body := by
  have address : StaysIn scope stop (fun _ => True)
      (do return memory (← Expression.parse symbols true)) body := by
    apply stays_in_bind (Expression.stays_in_parse line symbols true inside)
    intro expression _ _ _
    exact stays_in_pure trivial
  apply stays_in_peek
  · rintro token rest rfl
    split
    · next name named =>
      have sound : ¬ token.IsBad := by simp [Token.IsBad, named]
      split
      · exact stays_in_take sound (stays_in_pure trivial)
      · exact stays_in_take sound (stays_in_indexed_by line symbols _ inside.tail)
      · exact address
    · exact address
  · rintro rfl
    rcases line.kind_eq with feed | final
    · simpa only [feed] using address
    · simpa only [final] using address

/-- An operand that starts on the line. -/
theorem stays_in_starting_with {token : Token} {rest : List Token}
    (inside : InLine scope (token :: rest)) :
    StaysIn scope stop (fun _ => True) (startingWith symbols token.kind) (token :: rest) := by
  have value (labels : Bool) : StaysIn scope stop (fun _ => True)
      (do return immediate (← Expression.parse symbols labels)) (token :: rest) := by
    apply stays_in_bind (Expression.stays_in_parse line symbols labels inside)
    intro expression _ _ _
    exact stays_in_pure trivial
  unfold startingWith
  split
  · next name named =>
    split
    · exact stays_in_take (by simp [Token.IsBad, named]) (stays_in_pure trivial)
    · exact value true
  · next opening =>
    apply stays_in_take (by simp [Token.IsBad, opening])
    apply stays_in_bind (stays_in_enclosed line symbols inside.tail)
    intro operand left suffix _
    apply stays_in_bind (stays_in_expect line (inside.tail.suffix suffix) rfl (by simp) _)
    intro _ _ _ _
    exact stays_in_pure trivial
  · exact value false
  · exact value false
  · exact value false
  · exact stays_in_refuse line inside rfl

end Operand

include line

/-- An operand that is accepted starts at a token of the line. -/
theorem Argument.stays_in_parse (inside : InLine scope body) :
    StaysIn scope stop (fun argument => argument.token ∈ scope) (Argument.parse symbols) body := by
  apply stays_in_peek
  · rintro token rest rfl
    apply stays_in_bind (Operand.stays_in_starting_with line symbols inside)
    intro operand _ _ _
    exact stays_in_pure (inside token (by simp)).1
  · rintro rfl
    have refused : StaysIn scope stop (fun _ => False)
        (refuse (.expected "operand") : Parse Operand) [] :=
      stays_in_refuse line inside rfl
    have missing : StaysIn scope stop (fun _ => False)
        (Operand.startingWith symbols stop.peek.kind) [] := by
      rcases line.kind_eq with feed | final
      · rw [feed]
        exact refused
      · rw [final]
        exact refused
    apply stays_in_bind missing
    intro operand _ _ impossible
    exact impossible.elim

/-! ### Statements -/

namespace Selection

theorem stays_in_of_one {one : Argument → Except Diagnostic Selection}
    (each : ∀ argument, argument.token ∈ scope → Blames scope (one argument))
    (inside : InLine scope body) :
    StaysIn scope stop (fun _ => True) (ofOne symbols one) body := by
  apply stays_in_bind (Argument.stays_in_parse line symbols inside)
  intro argument _ _ here
  exact stays_in_of_except (each argument here) (by simp)

theorem stays_in_of_two {both : Argument → Argument → Except Diagnostic Selection}
    (each : ∀ first second, first.token ∈ scope → second.token ∈ scope →
      Blames scope (both first second)) (inside : InLine scope body) :
    StaysIn scope stop (fun _ => True) (ofTwo symbols both) body := by
  have pair : StaysIn scope stop (fun found : Argument × Argument =>
      found.1.token ∈ scope ∧ found.2.token ∈ scope) (two symbols) body := by
    apply stays_in_bind (Argument.stays_in_parse line symbols inside)
    intro first left suffix here
    have within := inside.suffix suffix
    apply stays_in_bind (stays_in_expect line within rfl (by simp) _)
    intro _ rest behind _
    apply stays_in_bind (Argument.stays_in_parse line symbols (within.suffix behind))
    intro second _ _ there
    exact stays_in_pure ⟨here, there⟩
  apply stays_in_bind pair
  intro found _ _ here
  exact stays_in_of_except (each found.1 found.2 here.1 here.2) (by simp)

theorem stays_in_of_one_or_two {one : Argument → Except Diagnostic Selection}
    {both : Argument → Argument → Except Diagnostic Selection}
    (eachOne : ∀ argument, argument.token ∈ scope → Blames scope (one argument))
    (each : ∀ first second, first.token ∈ scope → second.token ∈ scope →
      Blames scope (both first second)) (inside : InLine scope body) :
    StaysIn scope stop (fun _ => True) (ofOneOrTwo symbols one both) body := by
  have found : StaysIn scope stop (fun found : Argument × Option Argument =>
      found.1.token ∈ scope ∧ ∀ second ∈ found.2, second.token ∈ scope)
      (oneOrTwo symbols) body := by
    apply stays_in_bind (Argument.stays_in_parse line symbols inside)
    intro first left suffix here
    have within := inside.suffix suffix
    apply stays_in_bind (stays_in_eat line rfl (by simp))
    intro comma rest behind _
    split
    · apply stays_in_bind (Argument.stays_in_parse line symbols (within.suffix behind))
      intro second _ _ there
      exact stays_in_pure ⟨here, by simpa using there⟩
    · exact stays_in_pure ⟨here, by simp⟩
  apply stays_in_bind found
  rintro ⟨first, _ | second⟩ _ _ ⟨here, there⟩
  · exact stays_in_of_except (eachOne first here) (by simp)
  · exact stays_in_of_except (each first second here (there second rfl)) (by simp)

theorem stays_in_of_none_or_one (alone : Selection) {one : Argument → Except Diagnostic Selection}
    (each : ∀ argument, argument.token ∈ scope → Blames scope (one argument))
    (inside : InLine scope body) :
    StaysIn scope stop (fun _ => True) (ofNoneOrOne symbols alone one) body := by
  have found : StaysIn scope stop (fun found : Option Argument =>
      ∀ argument ∈ found, argument.token ∈ scope) (noneOrOne symbols) body := by
    apply stays_in_bind stays_in_at_line_end
    intro ends left suffix _
    split
    · exact stays_in_pure (by simp)
    · apply stays_in_bind (Argument.stays_in_parse line symbols (inside.suffix suffix))
      intro argument _ _ here
      exact stays_in_pure (by simpa using here)
  apply stays_in_bind found
  rintro (_ | argument) _ _ here
  · exact stays_in_pure trivial
  · exact stays_in_of_except (each argument (here argument rfl)) (by simp)

theorem stays_in_parse (mnemonic : Mnemonic) (inside : InLine scope body) :
    StaysIn scope stop (fun _ => True) (Selection.parse symbols mnemonic) body := by
  apply parse_cases (motive := fun reader => StaysIn scope stop (fun _ => True) reader body)
  · exact fun _ _ => stays_in_pure trivial
  · exact fun _ isChoice => stays_in_of_one line symbols isChoice.blames inside
  · exact fun _ isChoice => stays_in_of_two line symbols isChoice.blames inside
  · exact fun _ _ alone ofBoth => stays_in_of_one_or_two line symbols alone.blames ofBoth.blames inside
  · exact fun _ _ _ isChoice => stays_in_of_none_or_one line symbols _ isChoice.blames inside

end Selection

theorem stays_in_byte_number (inside : InLine scope body) :
    StaysIn scope stop (fun _ => True) (byteNumber symbols) body := by
  apply stays_in_bind (Argument.stays_in_parse line symbols inside)
  intro argument _ _ here
  split
  · apply stays_in_bind (stays_in_of_except (Selection.blames_byte here _) fun _ _ => trivial)
    intro _ _ _ _
    exact stays_in_pure trivial
  · exact stays_in_fail (Diagnostic.blames_at_token here rfl)

theorem stays_in_byte_item (inside : InLine scope body) :
    StaysIn scope stop (fun _ => True) (byteItem symbols) body := by
  have number := stays_in_byte_number line symbols inside
  apply stays_in_peek
  · rintro token rest rfl
    split
    · next text string =>
      apply stays_in_take (by simp [Token.IsBad, string])
      exact stays_in_of_except (blames_string_bytes (inside token (by simp)).1 _) (by simp)
    · exact number
  · rintro rfl
    rcases line.kind_eq with feed | final
    · simp only [feed]
      exact number
    · simp only [final]
      exact number

theorem stays_in_word_item (inside : InLine scope body) :
    StaysIn scope stop (fun _ => True) (wordItem symbols) body := by
  apply stays_in_bind (Argument.stays_in_parse line symbols inside)
  intro argument _ _ here
  split
  · apply stays_in_bind (stays_in_of_except (Selection.blames_word here _) fun _ _ => trivial)
    intro _ _ _ _
    exact stays_in_pure trivial
  · exact stays_in_pure trivial
  · exact stays_in_fail (Diagnostic.blames_at_token here rfl)

theorem stays_in_items_up_to {α : Type} {item : Parse α}
    (each : ∀ body, InLine scope body → StaysIn scope stop (fun _ => True) item body) (count : Nat)
    (inside : InLine scope body) :
    StaysIn scope stop (fun _ => True) (itemsUpTo item count) body := by
  induction count generalizing body with
  | zero => exact stays_in_pure trivial
  | succ count induction =>
    apply stays_in_bind (each body inside)
    intro first left suffix _
    apply stays_in_bind (stays_in_eat line rfl (by simp))
    intro comma rest behind _
    split
    · apply stays_in_bind (induction ((inside.suffix suffix).suffix behind))
      intro _ _ _ _
      exact stays_in_pure trivial
    · exact stays_in_pure trivial

theorem stays_in_items {α : Type} {item : Parse α}
    (each : ∀ body, InLine scope body → StaysIn scope stop (fun _ => True) item body)
    (inside : InLine scope body) : StaysIn scope stop (fun _ => True) (items item) body := by
  obtain ⟨result, left, outcome, read⟩ := stays_in_items_up_to line each (body.length + 1) inside
  refine ⟨result, left, outcome, ?_⟩
  intro cursor alike
  have ends : cursor.peek.kind.endsLine = true := by
    rw [alike.peek, line.ends]
  rw [items, Cursor.line_ahead_before ends fun token member => (inside token member).2]
  exact read cursor alike

/-- Reading a statement behind its first token, which has to be a word of the line. -/
theorem Statement.stays_in_parse {head : Token} (here : head ∈ scope) (inside : InLine scope body) :
    StaysIn scope stop (fun _ => True) (Statement.parse symbols head) body := by
  unfold Statement.parse
  split
  · unfold parseNamed
    split
    · apply stays_in_bind (stays_in_items line (fun _ => stays_in_byte_item line symbols) inside)
      intro _ _ _ _
      exact stays_in_pure trivial
    · apply stays_in_bind (stays_in_items line (fun _ => stays_in_word_item line symbols) inside)
      intro _ _ _ _
      exact stays_in_pure trivial
    · apply stays_in_bind (Selection.stays_in_parse line symbols _ inside)
      intro _ _ _ _
      exact stays_in_pure trivial
    · exact stays_in_fail (Diagnostic.blames_at_token here rfl)
  · exact stays_in_fail (Diagnostic.blames_at_token here rfl)

end

end Z80Toolchain
