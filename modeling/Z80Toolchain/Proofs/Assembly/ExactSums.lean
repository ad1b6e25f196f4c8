import Z80Toolchain.Proofs.Assembly.LineReading

/-!
Expressions as exact sums. An expression opens with a term, or with a label where one is allowed, and
goes on for as long as signs follow. Reading it gives the sum of its terms as whole numbers, or stops
at the first thing that is wrong: a term that is missing or unknown, or a sum that leaves 32 bits. Both
outcomes are described by the tokens alone, so reading is compared with a grammar, not with itself.
-/
namespace Z80Toolchain

theorem Cursor.before_append (stop : Cursor) (first second : List Token) :
    stop.before (first ++ second) = (stop.before second).before first := by
  simp [before]

/-- The next token can be put back in front of the others. -/
theorem Cursor.eq_before {cursor after : Cursor} {taken : List Token}
    (found : cursor.peek.kind ≠ .endOfInput) (skipped : cursor.skip = after.before taken) :
    cursor = after.before (cursor.peek :: taken) := by
  obtain ⟨ahead, final⟩ := cursor
  cases ahead with
  | nil => exact absurd rfl found
  | cons token rest =>
    rw [skip_cons] at skipped
    obtain ⟨rfl, rfl⟩ := Cursor.mk.inj skipped
    rfl

theorem Cursor.ne_end_of_input_of_sign {cursor : Cursor} {sign : Int}
    (signed : cursor.peek.kind.sign? = some sign) : cursor.peek.kind ≠ .endOfInput := by
  intro ended
  rw [ended] at signed
  cases signed

namespace Token.Kind

def inExpression : Token.Kind → Bool
  | integer _ | plus | minus | atName _ | text _ => true
  | _ => false

theorem in_expression_of_sign {kind : Token.Kind} {sign : Int} (signed : kind.sign? = some sign) :
    kind.inExpression = true := by
  cases kind <;> first | rfl | cases signed

end Token.Kind

namespace Expression

/-! ### Terms -/

/-- The tokens of a term and its value. -/
inductive IsTerm (symbols : Symbols) : List Token → Int → Prop
  | integer {token : Token} {number : Int} (digits : token.kind = .integer number) :
      IsTerm symbols [token] number
  | negated {sign token : Token} {number : Int} (minus : sign.kind = .minus)
      (digits : token.kind = .integer number) : IsTerm symbols [sign, token] (-number)
  | constant {token : Token} {name : String} {number : Int} (named : token.kind = .atName name)
      (known : symbols.constant? name = some number) : IsTerm symbols [token] number

/-- What is wrong where a term should stand, and the tokens that are taken before it is noticed. -/
inductive NoTerm (symbols : Symbols) : List Token → Cursor → Diagnostic → Prop
  | unknown {token : Token} {after : Cursor} {name : String} (named : token.kind = .atName name)
      (missing : symbols.constant? name = none) :
      NoTerm symbols [token] after (.atToken token (.undefinedVariable name))
  | loneMinus {sign : Token} {after : Cursor} (minus : sign.kind = .minus)
      (other : ∀ number, after.peek.kind ≠ .integer number) :
      NoTerm symbols [sign] after (after.complain .unsupportedExpression)
  | nothing {after : Cursor} (noInteger : ∀ number, after.peek.kind ≠ .integer number)
      (noMinus : after.peek.kind ≠ .minus) (noName : ∀ name, after.peek.kind ≠ .atName name) :
      NoTerm symbols [] after (after.complain .unsupportedExpression)

variable {symbols : Symbols}

theorem IsTerm.read {tokens : List Token} {number : Int} (term : IsTerm symbols tokens number)
    (after : Cursor) : Expression.term symbols (after.before tokens) = (.ok number, after) := by
  cases term with
  | integer digits => simp [Expression.term, digits]
  | negated minus digits => simp [Expression.term, minus, digits]
  | constant named known => simp [Expression.term, named, known]

theorem NoTerm.read {taken : List Token} {after : Cursor} {diagnostic : Diagnostic}
    (stuck : NoTerm symbols taken after diagnostic) :
    Expression.term symbols (after.before taken) = (.error diagnostic, after) := by
  cases stuck with
  | unknown named missing => simp [Expression.term, named, missing]
  | loneMinus minus other =>
    simp only [Expression.term, Cursor.peek_before, minus, Cursor.skip_before, Cursor.before_nil]
  | nothing noInteger noMinus noName => simp only [Expression.term, Cursor.before_nil]

/-- A term stands next, or something is wrong there. -/
theorem is_term_or_no_term (symbols : Symbols) (cursor : Cursor) :
    ∃ taken after, cursor = Cursor.before after taken ∧
      ((∃ number, IsTerm symbols taken number) ∨
        ∃ diagnostic, NoTerm symbols taken after diagnostic) := by
  cases kind : cursor.peek.kind with
  | integer number =>
    exact ⟨_, cursor.skip, Cursor.eq_before (by simp [kind]) rfl, .inl ⟨number, .integer kind⟩⟩
  | minus =>
    by_cases digits : ∃ number, cursor.skip.peek.kind = .integer number
    · obtain ⟨number, digits⟩ := digits
      have second := Cursor.eq_before (by simp [digits]) (Cursor.before_nil cursor.skip.skip).symm
      exact ⟨_, cursor.skip.skip, Cursor.eq_before (by simp [kind]) second,
        .inl ⟨-number, .negated kind digits⟩⟩
    · exact ⟨_, cursor.skip, Cursor.eq_before (by simp [kind]) rfl,
        .inr ⟨_, .loneMinus kind fun number found => digits ⟨number, found⟩⟩⟩
  | atName name =>
    refine ⟨[cursor.peek], cursor.skip, Cursor.eq_before (by simp [kind]) rfl, ?_⟩
    cases known : symbols.constant? name with
    | some number => exact .inl ⟨number, .constant kind known⟩
    | none => exact .inr ⟨_, .unknown kind known⟩
  | _ =>
    exact ⟨[], cursor, rfl, .inr ⟨_, .nothing (by simp [kind]) (by simp [kind]) (by simp [kind])⟩⟩

theorem is_term_of_read {cursor after : Cursor} {number : Int}
    (read : term symbols cursor = (.ok number, after)) :
    ∃ tokens, cursor = after.before tokens ∧ IsTerm symbols tokens number := by
  obtain ⟨tokens, behind, rfl, ⟨other, isTerm⟩ | ⟨diagnostic, stuck⟩⟩ := is_term_or_no_term symbols cursor
  · rw [isTerm.read] at read
    cases read
    exact ⟨tokens, rfl, isTerm⟩
  · rw [stuck.read] at read
    cases read

theorem no_term_of_read {cursor after : Cursor} {diagnostic : Diagnostic}
    (read : term symbols cursor = (.error diagnostic, after)) :
    ∃ taken, cursor = after.before taken ∧ NoTerm symbols taken after diagnostic := by
  obtain ⟨taken, behind, rfl, ⟨number, isTerm⟩ | ⟨other, stuck⟩⟩ := is_term_or_no_term symbols cursor
  · rw [isTerm.read] at read
    cases read
  · rw [stuck.read] at read
    cases read
    exact ⟨taken, rfl, stuck⟩

theorem IsTerm.inside {tokens : List Token} {number : Int} (term : IsTerm symbols tokens number) :
    ∀ token ∈ tokens, token.kind.inExpression = true := by
  cases term with
  | integer digits => simp [digits, Token.Kind.inExpression]
  | negated minus digits => simp [minus, digits, Token.Kind.inExpression]
  | constant named known => simp [named, Token.Kind.inExpression]

theorem NoTerm.inside {taken : List Token} {after : Cursor} {diagnostic : Diagnostic}
    (stuck : NoTerm symbols taken after diagnostic) :
    ∀ token ∈ taken, token.kind.inExpression = true := by
  cases stuck with
  | unknown named missing => simp [named, Token.Kind.inExpression]
  | loneMinus minus other => simp [minus, Token.Kind.inExpression]
  | nothing noInteger noMinus noName => simp

/-! ### Terms with signs -/

/-- The tokens of terms with signs in front of them, and the values that these stand for. -/
inductive Summands (symbols : Symbols) : List Token → List Int → Prop
  | nil : Summands symbols [] []
  | cons {sign : Token} {factor number : Int} {tokens rest : List Token} {values : List Int}
      (signed : sign.kind.sign? = some factor) (term : IsTerm symbols tokens number)
      (others : Summands symbols rest values) :
      Summands symbols (sign :: (tokens ++ rest)) (number * factor :: values)

def total (values : List Int) : Int :=
  values.foldr (· + ·) 0

/-- Every value stays within 32 bits, and so does every sum on the way from `sum` on. -/
def InRange : Int → List Int → Prop
  | _, [] => True
  | sum, number :: rest =>
    (fitsInteger number ∧ fitsInteger (sum + number)) ∧ InRange (sum + number) rest

/-- What stops a chain of summands whose sum so far is `sum`. -/
inductive Breaks (symbols : Symbols) (sum : Int) : List Token → Cursor → Diagnostic → Prop
  | term {sign : Token} {factor : Int} {taken : List Token} {after : Cursor} {diagnostic : Diagnostic}
      (signed : sign.kind.sign? = some factor) (stuck : NoTerm symbols taken after diagnostic) :
      Breaks symbols sum (sign :: taken) after diagnostic
  | range {sign : Token} {factor number : Int} {tokens : List Token} {after : Cursor}
      (signed : sign.kind.sign? = some factor) (term : IsTerm symbols tokens number)
      (beyond : ¬ (fitsInteger (number * factor) ∧ fitsInteger (sum + number * factor))) :
      Breaks symbols sum (sign :: tokens) after (.atToken sign .unsupportedExpression)

theorem Summands.chain_eq {tokens : List Token} {values : List Int}
    (summands : Summands symbols tokens values) {sum : Int} (inRange : InRange sum values)
    (after : Cursor) :
    chain symbols sum (after.before tokens) = chain symbols (sum + total values) after := by
  induction summands generalizing sum with
  | nil => simp [total]
  | @cons sign factor number tokens rest values signed term others induction =>
    obtain ⟨fits, later⟩ := inRange
    have opened : (after.before (sign :: (tokens ++ rest))).peek.kind.sign? = some factor := signed
    rw [chain_of_signed opened, Cursor.skip_before, Cursor.before_append, term.read]
    simp only [fits, Bool.and_self, if_true]
    rw [induction later, Int.add_assoc]
    rfl

theorem Breaks.chain_eq {sum : Int} {taken : List Token} {after : Cursor} {diagnostic : Diagnostic}
    (breaks : Breaks symbols sum taken after diagnostic) :
    chain symbols sum (after.before taken) = (.error diagnostic, after) := by
  cases breaks with
  | @term sign factor taken _ _ signed stuck =>
    have opened : (after.before (sign :: taken)).peek.kind.sign? = some factor := signed
    rw [chain_of_signed opened, Cursor.skip_before, stuck.read]
  | @range sign factor number tokens _ signed term beyond =>
    have opened : (after.before (sign :: tokens)).peek.kind.sign? = some factor := signed
    rw [chain_of_signed opened, Cursor.skip_before, term.read]
    simp only [Bool.and_eq_true, beyond, if_false, Cursor.peek_before]

/-- A chain goes on as far as its terms are right and their sum in range. -/
theorem chain_cases (symbols : Symbols) (sum : Int) (cursor : Cursor) :
    ∃ tokens values middle, cursor = Cursor.before middle tokens ∧
      Summands symbols tokens values ∧ InRange sum values ∧
      (middle.peek.kind.sign? = none ∨
        ∃ taken after diagnostic, middle = Cursor.before after taken ∧
          Breaks symbols (sum + total values) taken after diagnostic) := by
  fun_induction chain symbols sum cursor with
  | case1 sum cursor unsigned => exact ⟨[], [], cursor, rfl, .nil, trivial, .inl unsigned⟩
  | case2 sum cursor sign signed diagnostic after read =>
    obtain ⟨taken, skipped, stuck⟩ := no_term_of_read read
    have whole := Cursor.eq_before (Cursor.ne_end_of_input_of_sign signed) skipped
    refine ⟨[], [], cursor, rfl, .nil, trivial, .inr ⟨_, after, diagnostic, whole, ?_⟩⟩
    exact .term signed stuck
  | case3 sum cursor sign signed number behind read fits induction =>
    obtain ⟨tokens, skipped, isTerm⟩ := is_term_of_read read
    obtain ⟨rest, values, middle, rfl, summands, inRange, stops⟩ := induction
    rw [← Cursor.before_append] at skipped
    have whole := Cursor.eq_before (Cursor.ne_end_of_input_of_sign signed) skipped
    rw [Bool.and_eq_true] at fits
    refine ⟨_, _, middle, whole, .cons signed isTerm summands, ⟨fits, inRange⟩, ?_⟩
    rwa [total, List.foldr_cons, ← Int.add_assoc]
  | case4 sum cursor sign signed number after read beyond =>
    obtain ⟨tokens, skipped, isTerm⟩ := is_term_of_read read
    have whole := Cursor.eq_before (Cursor.ne_end_of_input_of_sign signed) skipped
    rw [Bool.and_eq_true] at beyond
    have breaks : Breaks symbols (sum + total []) (cursor.peek :: tokens) after
        (.atToken cursor.peek .unsupportedExpression) := by
      rw [total, List.foldr_nil, Int.add_zero]
      exact .range signed isTerm beyond
    exact ⟨[], [], cursor, rfl, .nil, trivial, .inr ⟨_, after, _, whole, breaks⟩⟩

theorem Summands.inside {tokens : List Token} {values : List Int}
    (summands : Summands symbols tokens values) :
    ∀ token ∈ tokens, token.kind.inExpression = true := by
  induction summands with
  | nil => simp
  | cons signed term others induction =>
    exact List.forall_mem_cons.mpr
      ⟨Token.Kind.in_expression_of_sign signed, List.forall_mem_append.mpr ⟨term.inside, induction⟩⟩

theorem Breaks.inside {sum : Int} {taken : List Token} {after : Cursor} {diagnostic : Diagnostic}
    (breaks : Breaks symbols sum taken after diagnostic) :
    ∀ token ∈ taken, token.kind.inExpression = true := by
  cases breaks with
  | term signed stuck =>
    exact List.forall_mem_cons.mpr ⟨Token.Kind.in_expression_of_sign signed, stuck.inside⟩
  | range signed term beyond =>
    exact List.forall_mem_cons.mpr ⟨Token.Kind.in_expression_of_sign signed, term.inside⟩

/-! ### Expressions -/

inductive Opens (symbols : Symbols) (labels : Bool) : List Token → Expression → Prop
  | term {tokens : List Token} {number : Int} (isTerm : IsTerm symbols tokens number) :
      Opens symbols labels tokens (.value number)
  | label {token : Token} {name : String} (allowed : labels = true)
      (named : token.kind = .text name) : Opens symbols labels [token] (.symbol name 0)

def plus (sum : Int) : Expression → Expression
  | value number => value (number + sum)
  | symbol name addend => symbol name (addend + sum)

def fits : Expression → Bool
  | value number => fitsInteger number
  | symbol _ _ => true

/-- The tokens of an expression and the exact sum that they stand for. -/
inductive Sums (symbols : Symbols) (labels : Bool) : List Token → Expression → Prop
  | sum {opening tail : List Token} {head : Expression} {values : List Int}
      (opens : Opens symbols labels opening head) (summands : Summands symbols tail values)
      (inRange : InRange 0 values) (fits : (head.plus (total values)).fits = true) :
      Sums symbols labels (opening ++ tail) (head.plus (total values))

/-- The first thing that is wrong with an expression, and the tokens taken before it is noticed. -/
inductive Stumbles (symbols : Symbols) (labels : Bool) : List Token → Cursor → Diagnostic → Prop
  | opening {taken : List Token} {after : Cursor} {diagnostic : Diagnostic}
      (noLabel : ∀ name, (after.before taken).peek.kind = .text name → labels = false)
      (stuck : NoTerm symbols taken after diagnostic) :
      Stumbles symbols labels taken after diagnostic
  | chain {opening tail taken : List Token} {head : Expression} {values : List Int} {after : Cursor}
      {diagnostic : Diagnostic} (opens : Opens symbols labels opening head)
      (summands : Summands symbols tail values) (inRange : InRange 0 values)
      (breaks : Breaks symbols (total values) taken after diagnostic) :
      Stumbles symbols labels (opening ++ (tail ++ taken)) after diagnostic
  -- noticed last, although the first token is blamed
  | whole {opening tail : List Token} {head : Expression} {values : List Int} {after : Cursor}
      (opens : Opens symbols labels opening head) (summands : Summands symbols tail values)
      (inRange : InRange 0 values) (stops : after.peek.kind.sign? = none)
      (beyond : (head.plus (total values)).fits = false) :
      Stumbles symbols labels (opening ++ tail) after
        (.atToken (after.before (opening ++ tail)).peek .unsupportedExpression)

theorem IsTerm.no_label {tokens : List Token} {number : Int} (isTerm : IsTerm symbols tokens number)
    (after : Cursor) (name : String) : (after.before tokens).peek.kind ≠ .text name := by
  cases isTerm with
  | integer digits => simp [digits]
  | negated minus digits => simp [minus]
  | constant named known => simp [named]

/-- Behind its opening an expression is its chain. -/
theorem parse_of_opens {labels : Bool} {opening : List Token} {head : Expression}
    (opens : Opens symbols labels opening head) (middle : Cursor) :
    parse symbols labels (middle.before opening) =
      match Expression.chain symbols 0 middle with
      | (.error diagnostic, after) => (.error diagnostic, after)
      | (.ok sum, after) =>
        if (head.plus sum).fits then (.ok (head.plus sum), after)
        else (.error (.atToken (middle.before opening).peek .unsupportedExpression), after) := by
  cases opens with
  | @term _ number isTerm =>
    rw [parse_of_no_label symbols fun name named => absurd named (isTerm.no_label middle name),
      Parse.bind_of_ok (isTerm.read middle)]
    refine (Parse.bind_apply (Expression.chain symbols 0 : Parse Int) _ middle).trans ?_
    rcases Expression.chain symbols 0 middle with ⟨_ | sum, after⟩
    · rfl
    · by_cases inside : fitsInteger (number + sum) = true
      · simp only [plus, fits, inside, if_true]
        rfl
      · simp only [plus, fits, inside]
        rfl
  | @label token name allowed named =>
    subst allowed
    rw [parse_of_label symbols (by exact named), Cursor.skip_before, Cursor.before_nil]
    refine (Parse.bind_apply (Expression.chain symbols 0 : Parse Int) _ middle).trans ?_
    rcases Expression.chain symbols 0 middle with ⟨_ | sum, after⟩
    · rfl
    · simp [plus, fits]

theorem Sums.read {labels : Bool} {tokens : List Token} {expression : Expression}
    (sums : Sums symbols labels tokens expression) {after : Cursor}
    (stops : after.peek.kind.sign? = none) :
    parse symbols labels (after.before tokens) = (.ok expression, after) := by
  cases sums with
  | sum opens summands inRange fits =>
    rw [Cursor.before_append, parse_of_opens opens, summands.chain_eq inRange, chain_stop stops,
      Int.zero_add]
    simp only [fits, if_true]

theorem Stumbles.read {labels : Bool} {taken : List Token} {after : Cursor} {diagnostic : Diagnostic}
    (stumbles : Stumbles symbols labels taken after diagnostic) :
    parse symbols labels (after.before taken) = (.error diagnostic, after) := by
  cases stumbles with
  | opening noLabel stuck =>
    rw [parse_of_no_label symbols noLabel, Parse.bind_apply, stuck.read]
  | chain opens summands inRange breaks =>
    rw [Cursor.before_append, parse_of_opens opens, Cursor.before_append,
      summands.chain_eq inRange, Int.zero_add, breaks.chain_eq]
  | whole opens summands inRange stops beyond =>
    rw [Cursor.before_append, parse_of_opens opens, summands.chain_eq inRange, chain_stop stops,
      Int.zero_add]
    simp [beyond]

/-- An expression opens, or no label stands next and no term. -/
theorem opens_or_no_term (symbols : Symbols) (labels : Bool) (cursor : Cursor) :
    ∃ taken after, cursor = Cursor.before after taken ∧
      ((∃ head, Opens symbols labels taken head) ∨
        (∀ name, cursor.peek.kind = .text name → labels = false) ∧
          ∃ diagnostic, NoTerm symbols taken after diagnostic) := by
  by_cases label : ∃ name, cursor.peek.kind = .text name ∧ labels = true
  · obtain ⟨name, named, allowed⟩ := label
    exact ⟨[cursor.peek], cursor.skip, Cursor.eq_before (by simp [named]) rfl,
      .inl ⟨_, .label allowed named⟩⟩
  · have noLabel : ∀ name, cursor.peek.kind = .text name → labels = false := fun name named =>
      eq_false_of_ne_true fun allowed => label ⟨name, named, allowed⟩
    obtain ⟨taken, after, whole, ⟨number, isTerm⟩ | stuck⟩ := is_term_or_no_term symbols cursor
    · exact ⟨taken, after, whole, .inl ⟨_, .term isTerm⟩⟩
    · exact ⟨taken, after, whole, .inr ⟨noLabel, stuck⟩⟩

/-- Every reading ends in a sum or at the first thing that is wrong. -/
theorem sums_or_stumbles (symbols : Symbols) (labels : Bool) (cursor : Cursor) :
    ∃ taken after, cursor = Cursor.before after taken ∧
      ((∃ expression, Sums symbols labels taken expression ∧ after.peek.kind.sign? = none) ∨
        ∃ diagnostic, Stumbles symbols labels taken after diagnostic) := by
  obtain ⟨opening, behind, rfl, ⟨head, opens⟩ | ⟨noLabel, diagnostic, stuck⟩⟩ :=
    opens_or_no_term symbols labels cursor
  · obtain ⟨tail, values, middle, rfl, summands, inRange, stops⟩ := chain_cases symbols 0 behind
    rcases stops with stops | ⟨taken, after, diagnostic, rfl, breaks⟩
    · refine ⟨opening ++ tail, middle, (Cursor.before_append _ _ _).symm, ?_⟩
      cases fits : (head.plus (total values)).fits with
      | true => exact .inl ⟨_, .sum opens summands inRange fits, stops⟩
      | false => exact .inr ⟨_, .whole opens summands inRange stops fits⟩
    · rw [Int.zero_add] at breaks
      refine ⟨opening ++ (tail ++ taken), after, ?_,
        .inr ⟨diagnostic, .chain opens summands inRange breaks⟩⟩
      rw [Cursor.before_append, Cursor.before_append]
  · exact ⟨opening, behind, rfl, .inr ⟨diagnostic, .opening noLabel stuck⟩⟩

theorem Opens.inside {labels : Bool} {tokens : List Token} {head : Expression}
    (opens : Opens symbols labels tokens head) :
    ∀ token ∈ tokens, token.kind.inExpression = true := by
  cases opens with
  | term isTerm => exact isTerm.inside
  | label allowed named => simp [named, Token.Kind.inExpression]

theorem Sums.inside {labels : Bool} {tokens : List Token} {expression : Expression}
    (sums : Sums symbols labels tokens expression) :
    ∀ token ∈ tokens, token.kind.inExpression = true := by
  cases sums with
  | sum opens summands inRange fits =>
    exact List.forall_mem_append.mpr ⟨opens.inside, summands.inside⟩

theorem Sums.no_new_line {labels : Bool} {tokens : List Token} {expression : Expression}
    (sums : Sums symbols labels tokens expression) : ∀ token ∈ tokens, token.kind ≠ .newLine := by
  intro token member ended
  simpa [ended, Token.Kind.inExpression] using sums.inside token member

theorem Stumbles.no_new_line {labels : Bool} {taken : List Token} {after : Cursor}
    {diagnostic : Diagnostic} (stumbles : Stumbles symbols labels taken after diagnostic) :
    ∀ token ∈ taken, token.kind ≠ .newLine := by
  have inside : ∀ token ∈ taken, token.kind.inExpression = true := by
    cases stumbles with
    | opening noLabel stuck => exact stuck.inside
    | chain opens summands inRange breaks =>
      exact List.forall_mem_append.mpr ⟨opens.inside,
        List.forall_mem_append.mpr ⟨summands.inside, breaks.inside⟩⟩
    | whole opens summands inRange stops beyond =>
      exact List.forall_mem_append.mpr ⟨opens.inside, summands.inside⟩
  intro token member ended
  simpa [ended, Token.Kind.inExpression] using inside token member

theorem sums_of_read {labels : Bool} {cursor after : Cursor} {expression : Expression}
    (read : parse symbols labels cursor = (.ok expression, after)) :
    ∃ tokens, cursor = after.before tokens ∧ Sums symbols labels tokens expression ∧
      after.peek.kind.sign? = none := by
  obtain ⟨tokens, stop, rfl, ⟨sum, sums, stops⟩ | ⟨diagnostic, stumbles⟩⟩ :=
    sums_or_stumbles symbols labels cursor
  · rw [sums.read stops] at read
    cases read
    exact ⟨tokens, rfl, sums, stops⟩
  · rw [stumbles.read] at read
    cases read

theorem stumbles_of_read {labels : Bool} {cursor after : Cursor} {diagnostic : Diagnostic}
    (read : parse symbols labels cursor = (.error diagnostic, after)) :
    ∃ taken, cursor = after.before taken ∧ Stumbles symbols labels taken after diagnostic := by
  obtain ⟨taken, stop, rfl, ⟨sum, sums, stops⟩ | ⟨other, stumbles⟩⟩ :=
    sums_or_stumbles symbols labels cursor
  · rw [sums.read stops] at read
    cases read
  · rw [stumbles.read] at read
    cases read
    exact ⟨taken, rfl, stumbles⟩

/-- Reading gives the exact sum of the terms that stand next, as far as signs go on, and nothing else;
what it refuses it refuses at the first thing that is wrong. It takes no token of another line. -/
theorem parse_exact (symbols : Symbols) (labels : Bool) (cursor : Cursor) :
    (∀ expression after, parse symbols labels cursor = (.ok expression, after) ↔
      ∃ tokens, cursor = Cursor.before after tokens ∧ Sums symbols labels tokens expression ∧
        after.peek.kind.sign? = none) ∧
    (∀ diagnostic after, parse symbols labels cursor = (.error diagnostic, after) ↔
      ∃ taken, cursor = Cursor.before after taken ∧ Stumbles symbols labels taken after diagnostic) ∧
    (∃ taken, cursor = (parse symbols labels cursor).2.before taken ∧
      ∀ token ∈ taken, token.kind ≠ .newLine) := by
  refine ⟨fun expression after => ⟨sums_of_read, ?_⟩, fun diagnostic after => ⟨stumbles_of_read, ?_⟩, ?_⟩
  · rintro ⟨tokens, rfl, sums, stops⟩
    exact sums.read stops
  · rintro ⟨taken, rfl, stumbles⟩
    exact stumbles.read
  · rcases read : parse symbols labels cursor with ⟨diagnostic | expression, after⟩
    · obtain ⟨taken, whole, stumbles⟩ := stumbles_of_read read
      exact ⟨taken, whole, stumbles.no_new_line⟩
    · obtain ⟨tokens, whole, sums, -⟩ := sums_of_read read
      exact ⟨tokens, whole, sums.no_new_line⟩

end Expression

end Z80Toolchain
