import Z80Toolchain.Proofs.Assembly.LineByLine
import Z80Toolchain.Proofs.Source.LinesApart
import Z80Toolchain.Proofs.Source.SourceColumns

/-!
The leading tokens of a line are its labels and the token behind them. Symbols stand at leading tokens
only. Up to there the tokenizer and the scanner that replaces names are in step, whatever follows: each
leading token starts where a fragment starts.
-/
namespace Z80Toolchain

/-! ### Leading tokens -/

namespace Token

def leading (line : List Token) : List Token :=
  labels line ++ (statement line).head?.toList

theorem leading_label {token : Token} (label : token.isLabel = true) (rest : List Token) :
    leading (token :: rest) = token :: leading rest := by
  simp [leading, labels, statement, label]

theorem leading_plain {token : Token} (other : token.isLabel = false)
    (plain : token.kind.endsLine = false) (rest : List Token) :
    leading (token :: rest) = [token] := by
  simp [leading, labels, statement, other, plain]

theorem leading_end {token : Token} (ends : token.kind = .newLine) (rest : List Token) :
    leading (token :: rest) = [] := by
  simp [leading, labels, statement, isLabel, ends, Kind.endsLine]

theorem leading_map {change : Token → Token} (same : ∀ token, (change token).kind = token.kind)
    (line : List Token) : leading (line.map change) = (leading line).map change := by
  have kinds : isLabel ∘ change = isLabel := by
    funext token
    simp [isLabel, same]
  have ends : ((fun token => !token.kind.endsLine) ∘ change) = fun token => !token.kind.endsLine := by
    funext token
    simp [same]
  rw [leading, leading, labels, labels, statement, statement, List.takeWhile_map,
    List.dropWhile_map, List.takeWhile_map, kinds, ends, List.head?_map, List.map_append]
  cases (List.takeWhile _ (List.dropWhile isLabel line)).head? <;> rfl

theorem of_mem_leading {token : Token} {line : List Token} (member : token ∈ leading line) :
    token ∈ line ∧ token.kind.endsLine = false := by
  rcases List.mem_append.mp member with label | first
  · obtain ⟨name, kind⟩ := is_label_eq_true (is_label_of_mem_labels token label)
    refine ⟨List.takeWhile_subset _ label, ?_⟩
    rw [kind]
    rfl
  · have found : token ∈ statement line := List.mem_of_mem_head? (Option.mem_toList.mp first)
    refine ⟨?_, by simpa using List.mem_takeWhile_imp found⟩
    exact List.dropWhile_subset _ (List.takeWhile_subset _ found)

end Token

/-! ### Places of symbols -/

namespace Draft

theorem Labels.symbols_subset {draft labelled : Draft} {tokens : List Token}
    (defined : draft.Labels tokens labelled) :
    ∀ symbol ∈ labelled.symbols.entries, symbol ∈ draft.symbols.entries ∨
      ∃ token ∈ tokens, token.position = symbol.position := by
  induction defined with
  | nil draft => exact fun symbol member => .inl member
  | @define draft after token name rest kind fresh later induction =>
    intro symbol member
    rcases induction symbol member with early | ⟨other, found, placed⟩
    · rcases List.mem_append.mp early with old | new
      · exact .inl old
      · rw [List.mem_singleton.mp new]
        exact .inr ⟨token, List.mem_cons_self, rfl⟩
    · exact .inr ⟨other, List.mem_cons_of_mem _ found, placed⟩
  | report kind taken later induction =>
    intro symbol member
    rcases induction symbol member with early | ⟨other, found, placed⟩
    · exact .inl early
    · exact .inr ⟨other, List.mem_cons_of_mem _ found, placed⟩

theorem symbols_line {draft : Draft} {line : List Token} (isLine : Token.IsLine line) :
    ∀ symbol ∈ (draft.line line).symbols.entries, symbol ∈ draft.symbols.entries ∨
      ∃ token ∈ Token.leading line, token.position = symbol.position := by
  obtain ⟨labelled, defined⟩ := draft.exists_labels (@Token.is_label_of_mem_labels line)
  have labels : ∀ symbol ∈ labelled.symbols.entries, symbol ∈ draft.symbols.entries ∨
      ∃ token ∈ Token.leading line, token.position = symbol.position := by
    intro symbol member
    rcases defined.symbols_subset symbol member with early | ⟨token, found, placed⟩
    · exact .inl early
    · exact .inr ⟨token, List.mem_append_left _ found, placed⟩
  have effect := line_effect isLine defined
  generalize draft.line line = after at effect ⊢
  cases effect with
  | taken takes sound =>
    have head := takes.head?_statement
    cases takes with
    | constant kind read ends fresh =>
      intro symbol member
      rcases List.mem_append.mp member with early | new
      · exact labels symbol early
      · rw [List.mem_singleton.mp new]
        refine .inr ⟨_, List.mem_append_right _ ?_, rfl⟩
        rw [head]
        exact List.mem_singleton_self _
    | code read ends fits appends =>
      rw [appends.symbols]
      exact labels
  | passed => exact labels
  | reported => exact labels

theorem symbols_foldl {lines : List (List Token)} (areLines : ∀ line ∈ lines, Token.IsLine line)
    (draft : Draft) :
    ∀ symbol ∈ (lines.foldl line draft).symbols.entries, symbol ∈ draft.symbols.entries ∨
      ∃ line ∈ lines, ∃ token ∈ Token.leading line, token.position = symbol.position := by
  induction lines generalizing draft with
  | nil => exact fun symbol member => .inl member
  | cons line lines induction =>
    obtain ⟨here, later⟩ := List.forall_mem_cons.mp areLines
    intro symbol member
    rcases induction later (draft.line line) symbol member with early | ⟨other, found, placed⟩
    · rcases symbols_line here symbol early with old | placed
      · exact .inl old
      · exact .inr ⟨line, List.mem_cons_self, placed⟩
    · exact .inr ⟨other, List.mem_cons_of_mem _ found, placed⟩

/-- Symbols stand at leading tokens of lines. -/
theorem exists_leading_of_symbol {tokens : List Token}
    (inside : ∀ token ∈ tokens, token.kind ≠ .endOfInput) (origin : UInt16) {symbol : Symbol}
    (member : symbol ∈ ((start origin).run tokens).symbols.entries) :
    ∃ line ∈ Token.lines tokens, ∃ token ∈ Token.leading line,
      token.position = symbol.position := by
  have areLines : ∀ line ∈ Token.lines tokens, Token.IsLine line := by
    intro line found
    obtain ⟨earlier, later, cut⟩ := List.append_of_mem found
    have all := Token.are_lines_lines inside
    rw [cut] at all
    exact Token.are_lines_is_line all
  rw [run_eq_foldl inside] at member
  rcases symbols_foldl areLines (start origin) symbol member with none | placed
  · cases none
  · exact placed

end Draft

/-! ### Scanners in step -/

theorem fragments_blank {c : Char} (space : c = ' ' ∨ c = '\t') (rest : List Char) :
    fragments (c :: rest) = .copied [c] :: fragments rest := by
  rcases space with rfl | rfl <;> exact @fragments_append _ [] rest _ rfl rfl

theorem fragments_label {text : List Char} (word : isWord text = true) (rest : List Char) :
    fragments (text ++ ':' :: rest) = .word text :: .copied [':'] :: fragments rest := by
  cases text with
  | nil => cases word
  | cons c text =>
    obtain ⟨start, inside, -⟩ := is_word_cons.mp word
    have found : Fragment.first c (text ++ ':' :: rest) = .word (c :: text) := by
      rw [Fragment.first_word start, take_while_of_stops inside (by simp [Stops]; decide)]
    rw [List.cons_append, fragments_append found rfl]
    exact congrArg _ (@fragments_append ':' [] rest _ rfl rfl)

theorem exists_stands_of_cut {defines : Defines} {line rest : List Char} {c : Char}
    {before : List Fragment} (cut : fragments line = before ++ fragments (c :: rest)) :
    ∃ fragment offset, defines.Stands line fragment (before.flatMap Fragment.text).length offset :=
  ⟨_, _, before, _, by rw [cut, fragments], rfl, rfl⟩

/-- A leading token starts where a fragment starts. -/
theorem exists_stands_of_leading {defines : Defines} {line rest : List Char}
    {before : List Fragment} (cut : fragments line = before ++ fragments rest)
    (flat : '\n' ∉ rest) (number : Nat) {ending : List Token} (ends : Token.leading ending = []) :
    ∀ token ∈ Token.leading (Lexeme.alongLine Lexeme.token? number
        (before.flatMap Fragment.text).length (lexemes rest) ++ ending),
      ∃ fragment offset, defines.Stands line fragment token.position.column offset := by
  induction rest using lexemes.induct generalizing before with
  | case1 =>
    rw [lexemes_nil, Lexeme.alongLine, List.nil_append, ends]
    intro token member
    cases member
  | case2 c rest induction =>
    let place : Position := ⟨number, (before.flatMap Fragment.text).length⟩
    have here : ∃ fragment offset, defines.Stands line fragment place.column offset :=
      exists_stands_of_cut cut
    have single {kind : Token.Kind} (other : Token.isLabel ⟨kind, place⟩ = false)
        (plain : kind.endsLine = false) (more : List Token) :
        ∀ token ∈ Token.leading (⟨kind, place⟩ :: more),
          ∃ fragment offset, defines.Stands line fragment token.position.column offset := by
      rw [Token.leading_plain other plain]
      intro token member
      rw [List.mem_singleton.mp member]
      exact here
    by_cases fault : (Lexeme.first c rest).IsFault
    · obtain ⟨cause, content⟩ := fault
      rw [lexemes_cons, Lexeme.alongLine, Lexeme.token?, content]
      exact single rfl rfl _
    · obtain ⟨grows, more, written, whole, stops⟩ := Lexeme.leads_first flat fault
      obtain ⟨taken, text, -⟩ := Lexeme.cut_from_first c rest
      obtain rfl : rest = taken ++ more := by
        rw [text, List.cons_append] at whole
        exact List.tail_eq_of_cons_eq whole
      rw [text] at induction
      simp only [List.length_cons, Nat.add_sub_cancel, List.drop_left] at induction
      have flatMore : '\n' ∉ more := fun feed => flat (by simp [feed])
      rw [lexemes_append rfl text, Lexeme.alongLine]
      generalize Lexeme.first c (taken ++ more) = lexeme at *
      cases written with
      | @blank d space =>
        obtain ⟨rfl, rfl⟩ : d = c ∧ taken = [] := by simpa [eq_comm] using text
        rw [List.nil_append, fragments_blank space, List.append_cons] at cut
        have later := induction cut flatMore
        simpa [Lexeme.token?, Fragment.text] using later
      | comment =>
        obtain rfl : more = [] := by
          cases more with
          | nil => rfl
          | cons d more => cases stops d rfl
        rw [lexemes_nil, Lexeme.alongLine, Lexeme.token?, List.append_nil]
        intro token member
        have nothing : token ∈ Token.leading ending := member
        rw [ends] at nothing
        cases nothing
      | @label word isWord =>
        have behind : c :: (taken ++ more) = word ++ ':' :: more := by
          simpa [Lexeme.ofToken] using whole
        rw [behind, fragments_label isWord, List.append_cons, List.append_cons] at cut
        have later := induction cut flatMore
        have column : ((before ++ [Fragment.word word] ++ [Fragment.copied [':']]).flatMap
            Fragment.text).length =
            (before.flatMap Fragment.text).length + (word ++ [':']).length := by
          simp [Fragment.text]
        rw [column] at later
        intro token member
        replace member : token ∈ Token.leading (⟨.label (String.ofList word), place⟩ :: _) := member
        rw [Token.leading_label rfl] at member
        rcases List.mem_cons.mp member with rfl | behind
        · exact here
        · exact later token behind
      | mark mark => cases mark <;> exact single rfl rfl _
      | _ => exact single rfl rfl _

end Z80Toolchain
