import Mathlib.Data.List.TakeWhile
import Z80Toolchain.Proofs.Source.TokenLanguage

/-!
Tokens and the text they come from. Nothing of a text is lost between its tokens but blanks, comments
and empty lines: the text is cut into gaps and pieces, one piece for each token, and a token stands
where its piece starts. A piece taken out of the text is read as the same token, bad ones included.
-/
namespace Z80Toolchain

/-! ### Lexemes by themselves -/

namespace Lexeme

theorem piece_before_feed {piece rest : List Char} (cut : Piece piece ('\n' :: rest)) :
    piece = [] := by
  cases piece with
  | nil => rfl
  | cons c piece =>
    obtain ⟨rfl, -⟩ := List.cons_prefix_cons.mp cut.1
    exact absurd List.mem_cons_self cut.2

/-- A broken literal is skipped up to a first quote that closes it, or as far as it goes. -/
theorem exists_skipped (mark : Char) (rest : List Char) :
    ∃ skipped : List Char, (∀ c ∈ skipped, (c != mark && c != '\n') = true) ∧
      (recovery mark rest = skipped ∨ recovery mark rest = skipped ++ [mark]) ∧
      (skipped = [] → recovery mark rest = [mark] → rest.head? = some mark) := by
  refine ⟨rest.takeWhile fun c => c != mark && c != '\n', fun c => mem_take_while, ?_, ?_⟩
  · unfold recovery
    dsimp only
    split
    · split
      · exact .inr rfl
      · exact .inl rfl
    · exact .inl rfl
  · intro none closed
    unfold recovery at closed
    rw [none] at closed
    cases rest with
    | nil => cases closed
    | cons c rest =>
      simp only [List.length_nil, List.drop_zero, List.nil_append] at closed
      split at closed
      · next same => rw [same]; rfl
      · cases closed

theorem recovery_alone (mark : Char) (rest : List Char) :
    recovery mark (recovery mark rest) = recovery mark rest := by
  obtain ⟨skipped, inside, found | found, -⟩ := exists_skipped mark rest
  · rw [found]
    have whole := take_while_of_stops inside (show Stops _ [] by simp [Stops])
    rw [List.append_nil] at whole
    simp [recovery, whole]
  · rw [found]
    have front := take_while_of_stops inside (show Stops _ [mark] by simp [Stops])
    simp [recovery, front]

theorem head?_recovery {mark : Char} {rest : List Char}
    (closed : (recovery mark rest).head? = some mark) : rest.head? = some mark := by
  obtain ⟨skipped, inside, found, first⟩ := exists_skipped mark rest
  cases skipped with
  | nil =>
    rcases found with found | found
    · simp [found] at closed
    · exact first rfl found
  | cons c skipped =>
    have other : c ≠ mark := by
      have plain := inside c (by simp)
      simp only [Bool.and_eq_true, bne_iff_ne] at plain
      exact plain.1
    rcases found with found | found
    · exact absurd (by simpa [found] using closed) other
    · exact absurd (by simpa [found] using closed) other

/-- What stands behind a quoted character on its line does not change how it is read. -/
theorem quoted_char_alone {rest more : List Char} (cut : Piece ((quotedChar rest).2 ++ more) rest) :
    quotedChar ((quotedChar rest).2 ++ more) = quotedChar rest := by
  fun_cases quotedChar rest with
  | case1 =>
    obtain rfl := List.prefix_nil.mp cut.1
    rfl
  | case2 rest =>
    obtain rfl := piece_before_feed cut
    rfl
  | case3 =>
    obtain rfl := List.prefix_nil.mp (List.cons_prefix_cons.mp cut.1).2
    rfl
  | case4 rest =>
    have behind : Piece more ('\n' :: rest) :=
      ⟨(List.cons_prefix_cons.mp cut.1).2, fun feed => cut.2 (List.mem_cons_of_mem _ feed)⟩
    obtain rfl := piece_before_feed behind
    rfl
  | case5 letter rest flat =>
    simp only [List.cons_append, List.nil_append]
    rw [quotedChar]
    exact flat
  | case6 c rest flat noEnd _ noLetter =>
    exact quoted_char_append (.plain (ne_backslash noEnd noLetter) flat) more

/-- A string literal is read up to its closing quote, and no further. -/
theorem string_body_alone (rest : List Char) : stringBody (stringBody rest).2 = stringBody rest := by
  fun_induction stringBody rest with
  | case1 => rfl
  | case2 => rfl
  | case3 => rfl
  | case4 => rfl
  | case5 => rfl
  | case6 letter rest flat c known induction =>
    simp only [before, List.cons_append, List.nil_append]
    rw [stringBody, known]
    · simp only [induction]
      rfl
    · exact flat
  | case7 letter rest flat unknown =>
    dsimp only
    rw [stringBody, unknown]
    · dsimp only
      rw [recovery_alone]
    · exact flat
  | case8 c rest noQuote flat noEnd _ noLetter induction =>
    have noEscape := ne_backslash noEnd noLetter
    simp only [before, List.cons_append, List.nil_append]
    rw [stringBody, induction]
    · rfl
    all_goals simp_all

theorem text_at_name (name : List Char) : (atName name).text = '@' :: name := by
  unfold atName
  split_ifs with empty
  · rw [empty]
    rfl
  · rfl
  · rfl

theorem text_string (rest : List Char) : (string rest).text = '"' :: (stringBody rest).2 := by
  unfold string
  split
  · next read => rw [read]; rfl
  · next read =>
    rw [read]
    split_ifs <;> rfl

theorem name_alone {c : Char} {rest taken : List Char}
    (text : (name (c :: rest.takeWhile isNameChar) (rest.dropWhile isNameChar)).text = c :: taken) :
    name (c :: taken.takeWhile isNameChar) (taken.dropWhile isNameChar) =
      name (c :: rest.takeWhile isNameChar) (rest.dropWhile isNameChar) := by
  have inside : ∀ d ∈ rest.takeWhile isNameChar, isNameChar d = true := fun d => mem_take_while
  have whole := @List.takeWhile_idem _ isNameChar rest
  have nothing := List.dropWhile_eq_nil_iff.mpr inside
  unfold name at text
  split_ifs at text with long colon
  · obtain rfl := List.tail_eq_of_cons_eq text
    rw [whole, nothing, name, name, if_pos long, if_pos long]
  · obtain rfl : rest.takeWhile isNameChar ++ [':'] = taken := List.tail_eq_of_cons_eq text
    have stops : Stops isNameChar [':'] := by decide
    rw [take_while_of_stops inside stops, drop_while_of_stops inside stops, name, name, if_neg long,
      if_neg long, if_pos colon]
    rfl
  · obtain rfl := List.tail_eq_of_cons_eq text
    rw [whole, nothing, name, name, if_neg long, if_neg long, if_neg colon, if_neg (by simp)]

theorem character_alone {rest taken : List Char} (text : (character rest).text = '\'' :: taken) :
    character taken = character rest := by
  have cut := piece_quoted_char rest
  have alone := @quoted_char_alone rest
  cases read : quotedChar rest with
  | mk value source =>
    rw [read] at cut alone
    simp only [character, read] at text ⊢
    split at text
    · next c behind found =>
      obtain rfl : source ++ ['\''] = taken := List.tail_eq_of_cons_eq text
      have closing : Piece ['\''] (rest.drop source.length) := by
        rw [found]
        exact (piece_nil behind).cons (by decide)
      rw [alone (cut.append closing)]
      simp
    · next unclosed =>
      obtain rfl : source ++ recovery '\'' (rest.drop source.length) = taken :=
        List.tail_eq_of_cons_eq text
      rw [alone (cut.append (piece_recovery (by decide) _))]
      dsimp only
      rw [List.drop_left]
      split
      · next c behind closed =>
        -- The skipped text starts with a quote only if the quote was there before.
        have first := head?_recovery (congrArg List.head? closed)
        obtain ⟨behind, found⟩ := List.head?_eq_some_iff.mp first
        exact absurd found (unclosed c behind rfl)
      · rw [recovery_alone]

/-- A lexeme that is taken out of its text is the same lexeme. -/
theorem first_alone {c : Char} {rest taken : List Char} (text : (first c rest).text = c :: taken) :
    first c taken = first c rest := by
  unfold first at text ⊢
  split at text
  case h_3 =>
    obtain rfl := List.tail_eq_of_cons_eq text
    rw [List.takeWhile_idem]
  case h_10 =>
    rw [text_at_name] at text
    obtain rfl := List.tail_eq_of_cons_eq text
    rw [List.takeWhile_idem]
  case h_11 => exact character_alone text
  case h_12 =>
    rw [text_string] at text
    obtain rfl := List.tail_eq_of_cons_eq text
    simp only [string, string_body_alone]
  case h_13 =>
    split_ifs at text with digit start
    · rw [text_number] at text
      obtain rfl := List.tail_eq_of_cons_eq text
      simp only [digit, if_true, List.takeWhile_idem]
    · simp only [digit, start, if_true]
      exact name_alone text
    · simp [digit, start]
  all_goals rfl

end Lexeme

/-! ### Places -/

namespace Position

/-- The place behind a text that starts at the first line: the number of its line feeds, and of the
characters behind the last one. -/
def behind (before : List Char) : Position :=
  ⟨before.count '\n', (before.reverse.takeWhile (· != '\n')).length⟩

def Precedes (left right : Position) : Prop :=
  left.line < right.line ∨ left.line = right.line ∧ left.column < right.column

theorem next_behind (before : List Char) (c : Char) :
    (behind before).next c = behind (before ++ [c]) := by
  by_cases feed : c = '\n'
  · simp [behind, next, feed]
  · simp [behind, next, feed]

theorem advance_behind (before text : List Char) :
    (behind before).advance text = behind (before ++ text) := by
  induction text generalizing before with
  | nil => simp [advance]
  | cons c text induction =>
    have step := induction (before ++ [c])
    rw [← next_behind, List.append_assoc] at step
    exact step

theorem Precedes.trans {first second third : Position} (left : first.Precedes second)
    (right : second.Precedes third) : first.Precedes third := by
  unfold Precedes at left right ⊢
  omega

theorem precedes_next (position : Position) (c : Char) : position.Precedes (position.next c) := by
  unfold next
  split
  · exact .inl (Nat.lt_succ_self _)
  · exact .inr ⟨rfl, Nat.lt_succ_self _⟩

theorem precedes_advance {text : List Char} (some : text ≠ []) (position : Position) :
    position.Precedes (position.advance text) := by
  induction text generalizing position with
  | nil => exact absurd rfl some
  | cons c text induction =>
    have step := precedes_next position c
    cases text with
    | nil => exact step
    | cons d text => exact step.trans (induction (List.cons_ne_nil _ _) _)

end Position

namespace Lexeme

theorem text_ne_nil (text : List Char) : ∀ lexeme ∈ lexemes text, lexeme.text ≠ [] := by
  fun_induction lexemes text with
  | case1 => simp
  | case2 c rest induction =>
    obtain ⟨taken, text, -⟩ := cut_from_first c rest
    exact List.forall_mem_cons.mpr ⟨by simp [text], induction⟩

/-- A lexeme leaves at most one token, at the place where it starts. -/
theorem tokens_from_cons (position : Position) (closed : Bool) (lexeme : Lexeme)
    (rest : List Lexeme) :
    ∃ ended, tokensFrom position closed (lexeme :: rest) =
        tokensFrom (position.advance lexeme.text) ended rest ∨
      ∃ kind, tokensFrom position closed (lexeme :: rest) =
        ⟨kind, position⟩ :: tokensFrom (position.advance lexeme.text) ended rest := by
  rw [tokensFrom]
  split
  · exact ⟨closed, .inl rfl⟩
  · split
    · exact ⟨true, .inl rfl⟩
    · exact ⟨true, .inr ⟨_, rfl⟩⟩
  · exact ⟨false, .inr ⟨_, rfl⟩⟩
  · exact ⟨false, .inr ⟨_, rfl⟩⟩

/-- No token stands in front of the place where its lexemes start. -/
theorem position_tokens_from {pieces : List Lexeme} (some : ∀ lexeme ∈ pieces, lexeme.text ≠ [])
    (position : Position) (closed : Bool) :
    ∀ token ∈ tokensFrom position closed pieces,
      position = token.position ∨ position.Precedes token.position := by
  induction pieces generalizing position closed with
  | nil => cases closed <;> simp [tokensFrom]
  | cons lexeme rest induction =>
    obtain ⟨here, later⟩ := List.forall_mem_cons.mp some
    have step := Position.precedes_advance here position
    have behind : ∀ closed, ∀ token ∈ tokensFrom (position.advance lexeme.text) closed rest,
        position = token.position ∨ position.Precedes token.position := by
      intro closed token member
      rcases induction later _ closed token member with same | further
      · exact .inr (same ▸ step)
      · exact .inr (step.trans further)
    obtain ⟨ended, skipped | ⟨kind, found⟩⟩ := tokens_from_cons position closed lexeme rest
    · rw [skipped]
      exact behind ended
    · rw [found]
      exact List.forall_mem_cons.mpr ⟨.inl rfl, behind ended⟩

theorem pairwise_tokens_from {pieces : List Lexeme} (some : ∀ lexeme ∈ pieces, lexeme.text ≠ [])
    (position : Position) (closed : Bool) :
    (tokensFrom position closed pieces).Pairwise fun left right =>
      left.position.Precedes right.position := by
  induction pieces generalizing position closed with
  | nil => cases closed <;> simp [tokensFrom]
  | cons lexeme rest induction =>
    obtain ⟨here, later⟩ := List.forall_mem_cons.mp some
    have step := Position.precedes_advance here position
    have behind := induction later (position.advance lexeme.text)
    have further : ∀ closed, ∀ token ∈ tokensFrom (position.advance lexeme.text) closed rest,
        position.Precedes token.position := by
      intro closed token member
      rcases position_tokens_from later _ closed token member with same | further
      · exact same ▸ step
      · exact step.trans further
    obtain ⟨ended, skipped | ⟨kind, found⟩⟩ := tokens_from_cons position closed lexeme rest
    · rw [skipped]
      exact behind ended
    · rw [found]
      exact .cons (further ended) (behind ended)

end Lexeme

/-! ### Bad tokens -/

def Token.isBad (token : Token) : Bool :=
  match token.kind with
  | .bad _ => true
  | _ => false

/-- The diagnostics of lexemes are those of their bad tokens, in order. -/
theorem Lexeme.faults_from_eq {pieces : List Lexeme} (sound : ∀ lexeme ∈ pieces, lexeme.Sound)
    (position : Position) (closed : Bool) :
    (faultsFrom position pieces).map (fun fault => (fault.position, fault.token)) =
      ((tokensFrom position closed pieces).filter Token.isBad).map fun token =>
        (token.position, some token.kind) := by
  induction pieces generalizing position closed with
  | nil => cases closed <;> rfl
  | cons lexeme rest induction =>
    obtain ⟨here, later⟩ := List.forall_mem_cons.mp sound
    have behind := induction later (position.advance lexeme.text)
    unfold faultsFrom tokensFrom
    dsimp only
    cases content : lexeme.content with
    | gap => exact behind closed
    | lineEnd =>
      dsimp only
      split
      · exact behind true
      · exact behind true
    | token kind =>
      have plain : Token.isBad ⟨kind, position⟩ = false := by
        unfold Token.isBad
        split
        · next text bad => exact absurd bad ((here.is_written content).2.2 text)
        · rfl
      dsimp only
      rw [List.filter_cons_of_neg (by simp [plain])]
      exact behind false
    | fault cause =>
      dsimp only
      rw [List.filter_cons_of_pos rfl, List.map_cons, List.map_cons, behind false]

/-! ### Gaps and pieces -/

/-- Text without tokens in front of other text: spaces, tabs, and comments up to the end of their
line. Empty lines are in it only behind a line end. -/
inductive Gap (closed : Bool) (rest : List Char) : List Char → Prop
  | nil : Gap closed rest []
  | blank {c : Char} {gap : List Char} (space : c = ' ' ∨ c = '\t') (more : Gap closed rest gap) :
      Gap closed rest (c :: gap)
  | comment {text gap : List Char} (flat : '\n' ∉ text)
      (toLineEnd : ∀ c ∈ (gap ++ rest).head?, c = '\n') (more : Gap closed rest gap) :
      Gap closed rest (';' :: (text ++ gap))
  | feed {gap : List Char} (allowed : closed = true) (more : Gap closed rest gap) :
      Gap closed rest ('\n' :: gap)

/-- The tokens of a text behind other text, of which `closed` tells whether its last token is a line
end. Each token has a piece of its own, at its place, which is read as the token; between the pieces
are gaps. Only the line end that closes a text may lack a piece. -/
inductive Splits : List Char → Bool → List Char → List Token → Prop
  | done {before text : List Char} {closed : Bool} (between : Gap closed [] text) :
      Splits before closed text []
  | token {before text gap piece rest : List Char} {closed : Bool} {token : Token}
      {tokens : List Token} (whole : text = gap ++ (piece ++ rest))
      (between : Gap closed (piece ++ rest) gap)
      (placed : token.position = .behind (before ++ gap))
      (alone : (tokenize piece).head?.map Token.kind = some token.kind)
      (added : piece = [] → token.kind = .newLine ∧ tokens = [] ∧ rest = [])
      (others : Splits (before ++ (gap ++ piece)) (token.kind == .newLine) rest tokens) :
      Splits before closed text (token :: tokens)

/-- A gap can be made longer at its front. -/
theorem Splits.widen {before front text : List Char} {closed : Bool} {tokens : List Token}
    (splits : Splits (before ++ front) closed text tokens)
    (extend : ∀ gap rest, text = gap ++ rest → Gap closed rest gap → Gap closed rest (front ++ gap)) :
    Splits before closed (front ++ text) tokens := by
  cases splits with
  | done between => exact .done (extend text [] (by simp) between)
  | @token _ _ gap piece rest _ token tokens whole between placed alone added others =>
    have wider := extend gap (piece ++ rest) whole between
    rw [List.append_assoc] at placed others
    rw [← List.append_assoc] at others
    refine .token ?_ wider placed alone added ?_
    · rw [whole, List.append_assoc]
    · simpa using others

/-- A token without a gap in front of it. -/
theorem Splits.piece {before piece rest : List Char} {closed : Bool} {kind : Token.Kind}
    {tokens : List Token} (some : piece ≠ [])
    (alone : (tokenize piece).head?.map Token.kind = .some kind)
    (others : Splits (before ++ piece) (kind == .newLine) rest tokens) :
    Splits before closed (piece ++ rest) (⟨kind, .behind before⟩ :: tokens) :=
  @Splits.token before _ [] piece rest closed ⟨kind, .behind before⟩ tokens rfl .nil (by simp) alone
    (fun none => absurd none some) others

namespace Lexeme

/-- The lexemes that leave no token behind. -/
theorem gap_first {c : Char} {rest : List Char} (content : (first c rest).content = .gap) :
    (c = ' ' ∨ c = '\t') ∧ (first c rest).text = [c] ∨
      c = ';' ∧ (first c rest).text = ';' :: rest.takeWhile (· != '\n') := by
  unfold first at content
  split at content
  case h_1 => exact .inl ⟨.inl rfl, rfl⟩
  case h_2 => exact .inl ⟨.inr rfl, rfl⟩
  case h_3 => exact .inr ⟨rfl, rfl⟩
  case h_10 =>
    unfold atName at content
    split_ifs at content <;> cases content
  case h_11 =>
    unfold character at content
    dsimp only at content
    split at content <;> cases content
  case h_12 =>
    unfold string at content
    split at content
    · cases content
    · split_ifs at content <;> cases content
  case h_13 =>
    split_ifs at content
    · unfold number numberOf at content
      split_ifs at content <;> cases content
    · unfold name at content
      split_ifs at content <;> cases content
  all_goals cases content

theorem line_end_first {c : Char} {rest : List Char} (content : (first c rest).content = .lineEnd) :
    c = '\n' := by
  by_contra other
  exact (proper_first other rest).inLine content

theorem ne_new_line_first {c : Char} {rest : List Char} {kind : Token.Kind}
    (content : (first c rest).content = .token kind) : kind ≠ .newLine := by
  have flat : c ≠ '\n' := by
    rintro rfl
    cases content
  exact ((proper_first flat rest).written kind content).1

/-- What is left of a line behind its text is its end. -/
theorem feed_of_take_while {taken more : List Char} (flat : '\n' ∉ taken)
    (line : taken = (taken ++ more).takeWhile (· != '\n')) : ∀ c ∈ more.head?, c = '\n' := by
  have inLine : ∀ c ∈ taken, (c != '\n') = true :=
    fun c member => bne_iff_ne.mpr fun feed => flat (feed ▸ member)
  rw [List.takeWhile_append_of_pos inLine, List.self_eq_append_right] at line
  intro c first
  obtain ⟨rest, rfl⟩ := List.head?_eq_some_iff.mp first
  by_contra other
  simp [other] at line

end Lexeme

/-- The text of a lexeme is read as that lexeme first. -/
theorem tokenize_alone {c : Char} {rest taken : List Char}
    (text : (Lexeme.first c rest).text = c :: taken) (noReturn : '\r' ∉ c :: taken) :
    ∃ others, tokenize (c :: taken) =
      Lexeme.tokensFrom .start false (Lexeme.first c rest :: others) := by
  have normal := Text.normalize_of_no_return fun d member feed => noReturn (feed ▸ member)
  rw [tokenize, normal, lexemes_cons, Lexeme.first_alone text]
  exact ⟨_, rfl⟩

/-- By induction on the lexemes, behind any text. -/
theorem splits_tokens_from {text : List Char} (noReturn : '\r' ∉ text) (before : List Char)
    (closed : Bool) :
    Splits before closed text (Lexeme.tokensFrom (.behind before) closed (lexemes text)) := by
  fun_induction lexemes text generalizing before closed with
  | case1 =>
    cases closed with
    | true => exact .done .nil
    | false =>
      have alone : (tokenize []).head?.map Token.kind = some .newLine := by
        rw [tokenize, Text.normalize, lexemes_nil]
        rfl
      have ended : Splits (before ++ ([] ++ [])) true [] [] := .done .nil
      exact @Splits.token before [] [] [] [] false ⟨.newLine, .behind before⟩ [] rfl .nil (by simp)
        alone (fun _ => ⟨rfl, rfl, rfl⟩) ended
  | case2 c rest induction =>
    obtain ⟨taken, text, ⟨more, rfl⟩, flat⟩ := Lexeme.cut_from_first c rest
    have left : (taken ++ more).drop ((Lexeme.first c (taken ++ more)).text.length - 1) = more := by
      simp [text]
    rw [left] at induction ⊢
    rw [← List.cons_append, List.mem_append, not_or] at noReturn
    obtain ⟨others, alone⟩ := tokenize_alone text noReturn.1
    have later := induction noReturn.2 (before ++ c :: taken)
    unfold Lexeme.tokensFrom at alone ⊢
    dsimp only at alone ⊢
    rw [← List.cons_append, text, Position.advance_behind]
    cases content : (Lexeme.first c (taken ++ more)).content with
    | gap =>
      apply (later closed).widen
      intro gap rest cut between
      rcases Lexeme.gap_first content with ⟨space, alone⟩ | ⟨rfl, alone⟩
      · obtain rfl : taken = [] := by
          rw [text] at alone
          exact List.tail_eq_of_cons_eq alone
        exact .blank space between
      · refine .comment flat ?_ between
        rw [text] at alone
        rw [← cut]
        exact Lexeme.feed_of_take_while flat (List.tail_eq_of_cons_eq alone)
    | lineEnd =>
      obtain rfl := Lexeme.line_end_first content
      obtain rfl : [] = taken := List.tail_eq_of_cons_eq text
      cases closed with
      | true =>
        apply (later true).widen
        intro gap rest cut between
        exact .feed rfl between
      | false =>
        rw [content] at alone
        exact .piece (List.cons_ne_nil _ _) (by rw [alone]; rfl) (later true)
    | token kind =>
      have plain : (kind == .newLine) = false :=
        beq_eq_false_iff_ne.mpr (Lexeme.ne_new_line_first content)
      rw [content] at alone
      apply Splits.piece (List.cons_ne_nil _ _)
      · rw [alone]
        rfl
      · rw [plain]
        exact later false
    | fault cause =>
      rw [content, text] at alone
      apply Splits.piece (List.cons_ne_nil _ _)
      · rw [alone]
        rfl
      · exact later false

/-- Reading loses nothing of a text, and places what it finds: the text is cut into gaps and one piece
for each token, tokens follow one another, each line ends once, and the bad tokens are those that are
reported. -/
theorem tokenize_lossless (source : List Char) :
    Splits [] false (Text.normalize source) (tokenize source) ∧
      (tokenize source).Pairwise (fun left right => left.position.Precedes right.position) ∧
      Token.Lined ((tokenize source).map Token.kind) ∧
      (lexicalFaults source).map (fun fault => (fault.position, fault.token)) =
        ((tokenize source).filter Token.isBad).map fun token => (token.position, some token.kind) :=
  ⟨splits_tokens_from (Text.no_return_normalize source) [] false,
    Lexeme.pairwise_tokens_from (Lexeme.text_ne_nil _) .start false, lined_tokenize source,
    Lexeme.faults_from_eq (Lexeme.sound_lexemes _) .start false⟩

end Z80Toolchain
