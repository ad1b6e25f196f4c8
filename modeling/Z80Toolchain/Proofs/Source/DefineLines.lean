import Z80Toolchain.Proofs.Source.ExpandedLines
import Z80Toolchain.Proofs.Source.LinesApart

/-!
What a definition keeps of its replacement text. A directive ends at its first semicolon, wherever
that stands, while the tokenizer and the search for defined names know that a semicolon inside a
literal starts no comment. So a replacement text without semicolons is kept whole, and any other one
is cut inside the literal that holds its first semicolon; what is left is never a text that can be
read. Sources with further directives are left out.
-/
namespace Z80Toolchain

def defineLine (name body : List Char) : List Char :=
  '%' :: ("define ".toList ++ (name ++ ' ' :: body))

/-- What a definition keeps of its replacement text. -/
def keptBody (body : List Char) : List Char :=
  Text.trimEnd (body.takeWhile (· != ';'))

/-- A name that a directive can define. -/
structure IsDefinable (name : List Char) : Prop where
  some : name ≠ []
  solid : ∀ c ∈ name, Text.isBlank c = false ∧ c ≠ ';'

/-- A replacement text with nothing around it that can be read and has no comment. -/
structure IsReplacement (body : List Char) : Prop where
  flat : IsFlat body
  starts : Stops Text.isBlank body
  ends : ∀ c ∈ body.getLast?, Text.isBlank c = false
  clean : lexicalFaults body = []
  noComment : ∀ lexeme ∈ lexemes body, lexeme.text.head? ≠ some ';'

/-- A word that is replaced where it is defined. -/
structure IsIdentifier (name : List Char) : Prop where
  starts : ∃ c ∈ name.head?, isNameStart c = true ∨ c = '_'
  inside : ∀ c ∈ name, isNameChar c = true

/-! ### Trimming -/

namespace Text

theorem trim_end_append {c : Char} (solid : isBlank c = false) (front part : List Char) :
    trimEnd (front ++ c :: part) = front ++ c :: trimEnd part := by
  have stops : Stops isBlank (c :: front.reverse) := by simp [Stops, solid]
  have turned : (front ++ c :: part).reverse = part.reverse ++ c :: front.reverse := by simp
  rw [trimEnd, turned, drop_while_append_stops stops, trimEnd]
  simp

theorem trim_end_prefix (text : List Char) : trimEnd text <+: text := by
  have suffix := List.dropWhile_suffix isBlank (l := text.reverse)
  rw [← List.reverse_prefix, List.reverse_reverse] at suffix
  exact suffix

theorem trim_end_of_ends {text : List Char} (ends : ∀ c ∈ text.getLast?, isBlank c = false) :
    trimEnd text = text := by
  have stops : Stops isBlank text.reverse := by
    intro c last
    rw [List.head?_reverse] at last
    exact ends c last
  have kept := drop_while_append_stops stops []
  rw [List.nil_append, List.dropWhile_nil, List.nil_append] at kept
  rw [trimEnd, kept, List.reverse_reverse]

theorem trim_start_space {text : List Char} (starts : Stops isBlank text) :
    trimStart (' ' :: text) = text := by
  have kept := drop_while_append_stops starts []
  rw [List.nil_append, List.dropWhile_nil, List.nil_append] at kept
  rw [trimStart, List.dropWhile_cons_of_pos (by decide), kept]

theorem split_word_space {word : List Char} (solid : ∀ c ∈ word, isBlank c = false)
    (rest : List Char) : splitWord (word ++ ' ' :: rest) = (word, ' ' :: rest) := by
  have inside : ∀ c ∈ word, (!isBlank c) = true := fun c member => by simp [solid c member]
  have stops : Stops (fun c => !isBlank c) (' ' :: rest) := by simp [Stops]; decide
  rw [splitWord, take_while_of_stops inside stops, drop_while_of_stops inside stops]

end Text

/-! ### The directive -/

theorem stops_take_while {p q : Char → Bool} {text : List Char} (starts : Stops p text) :
    Stops p (text.takeWhile q) := by
  intro c first
  apply starts c
  cases text with
  | nil => cases first
  | cons d text =>
    rw [List.takeWhile_cons] at first
    split at first
    · exact first
    · cases first

section
variable {name body : List Char} (definable : IsDefinable name)
include definable

theorem Directive.parse_define (starts : Stops Text.isBlank body) :
    parse ("define ".toList ++ (name ++ ' ' :: body)) = .ok (.define name (keptBody body)) := by
  have solid : ∀ c ∈ name, Text.isBlank c = false := fun c member => (definable.solid c member).1
  have uncut : ∀ c ∈ name, (c != ';') = true := fun c member =>
    bne_iff_ne.mpr (definable.solid c member).2
  have word : ∀ c ∈ "define".toList, Text.isBlank c = false := by simp [Text.isBlank]
  have command : ∀ c ∈ "define ".toList, (c != ';') = true := by simp
  have nameStarts : Stops Text.isBlank (name ++ ' ' :: body.takeWhile (· != ';')) := by
    intro c first
    rw [List.head?_append_of_ne_nil name definable.some] at first
    exact solid c (List.mem_of_mem_head? first)
  have cut : ("define ".toList ++ (name ++ ' ' :: body)).takeWhile (· != ';') =
      "define".toList ++ ' ' :: (name ++ ' ' :: body.takeWhile (· != ';')) := by
    rw [List.takeWhile_append_of_pos command, List.takeWhile_append_of_pos uncut,
      List.takeWhile_cons_of_pos (by decide)]
    rfl
  simp only [parse, cut, Text.split_word_space word,
    Text.trim_start_space nameStarts, Text.split_word_space solid, ofWords, if_neg definable.some,
    Text.trim, Text.trim_start_space (stops_take_while starts)]
  rfl

theorem Expansion.direct_define (starts : Stops Text.isBlank body) (defines : Defines) :
    direct defines ("define ".toList ++ (name ++ ' ' :: body)) =
      .ok (defines.insert name (keptBody body)) := by
  rw [direct, Directive.parse_define definable starts]
  rfl

end

theorem trim_start_define_line (name body : List Char) :
    Text.trimStart (defineLine name body) = '%' :: ("define ".toList ++ (name ++ ' ' :: body)) :=
  List.dropWhile_cons_of_neg (by decide)

/-! ### Cut bodies -/

namespace Lexeme

/-- A string literal is closed by its last character only. -/
theorem string_body_of_prefix {text value part : List Char} (quoted : QuotesAll text value)
    (short : part <+: text) (proper : part ≠ text) : (stringBody part).1 = none := by
  induction quoted generalizing part with
  | close =>
    cases part with
    | nil => rfl
    | cons c part =>
      obtain ⟨rfl, nothing⟩ := List.cons_prefix_cons.mp short
      exact absurd (by rw [List.prefix_nil.mp nothing]) proper
  | @cons source text value c quoted goesOn others induction =>
    cases quoted with
    | plain noEscape flat =>
      cases part with
      | nil => rfl
      | cons d part =>
        obtain ⟨rfl, inner⟩ := List.cons_prefix_cons.mp short
        have noQuote : d ≠ '"' := by simpa using goesOn
        have later := induction inner fun same => proper (by rw [same]; rfl)
        rw [stringBody]
        · simp [before, later]
        all_goals simp_all
    | @escape letter _ known =>
      cases part with
      | nil => rfl
      | cons d part =>
        obtain ⟨rfl, inner⟩ := List.cons_prefix_cons.mp short
        cases part with
        | nil => rfl
        | cons e part =>
          obtain ⟨rfl, innermost⟩ := List.cons_prefix_cons.mp inner
          have flat : e ≠ '\n' := by
            rintro rfl
            cases known
          have later := induction innermost fun same => proper (by rw [same]; rfl)
          rw [stringBody, known]
          · simp [before, later]
          · simpa using flat

theorem is_fault_string {part : List Char} (unclosed : (stringBody part).1 = none) :
    (string part).IsFault := by
  unfold string
  split
  · exact ⟨_, rfl⟩
  · next value text read =>
    rw [read] at unclosed
    cases unclosed

/-- Only literals and comments hold semicolons. -/
theorem Written.exists_cut {lexeme : Lexeme} {grows : Char → Bool} (written : lexeme.Written grows)
    (noComment : lexeme.text.head? ≠ some ';') (semicolon : ';' ∈ lexeme.text) (rest : List Char) :
    ∃ mark part, (lexeme.text ++ rest).takeWhile (· != ';') = mark :: part ∧
      Text.isBlank mark = false ∧
      ∀ shorter, shorter <+: part → (first mark shorter).IsFault := by
  have outside {p : Char → Bool} (apart : p ';' = false) {text : List Char}
      (inside : ∀ c ∈ text, p c = true) : ';' ∉ text := by
    intro member
    rw [inside _ member] at apart
    cases apart
  cases written with
  | blank space => rcases space with rfl | rfl <;> simp at semicolon
  | comment => exact absurd rfl noComment
  | mark mark => cases mark <;> simp [ofToken] at semicolon
  | word word => exact absurd semicolon (outside rfl (is_name_char_of_is_word word))
  | @label text word =>
    have member : ';' ∈ text := by simpa [ofToken] using semicolon
    exact absurd member (outside rfl (is_name_char_of_is_word word))
  | @atName name some inside short =>
    have member : ';' ∈ name := by simpa [ofToken] using semicolon
    exact absurd member (outside rfl inside)
  | @number c text value digit inside read =>
    rcases List.mem_cons.mp semicolon with rfl | member
    · cases digit
    · exact absurd member (outside rfl inside)
  | @character source c quoted =>
    cases quoted with
    | plain noEscape flat =>
      obtain rfl : c = ';' := by simpa [ofToken, eq_comm] using semicolon
      refine ⟨'\'', [], rfl, by decide, ?_⟩
      intro shorter short
      rw [List.prefix_nil.mp short]
      exact ⟨_, rfl⟩
    | @escape letter _ known =>
      obtain rfl : letter = ';' := by simpa [ofToken, eq_comm] using semicolon
      cases known
  | @string text value quoted short =>
    have member : ';' ∈ text := by simpa [ofToken] using semicolon
    obtain ⟨part, behind, rfl, fresh⟩ := List.eq_append_cons_of_mem member
    refine ⟨'"', part, ?_, by decide, ?_⟩
    · have uncut : ∀ c ∈ part, (c != ';') = true := fun c inside =>
        bne_iff_ne.mpr fun same => fresh (same ▸ inside)
      have stops : Stops (fun c => c != ';') (';' :: (behind ++ rest)) := by simp [Stops]
      simp only [ofToken, List.cons_append, List.append_assoc]
      rw [List.takeWhile_cons_of_pos (by decide), take_while_of_stops uncut stops]
    · intro shorter short
      apply is_fault_string
      apply string_body_of_prefix quoted
      · exact short.trans (List.prefix_append _ _)
      · rintro rfl
        exact fresh (short.subset (by simp))

end Lexeme

/-- A text without comments is cut at its first semicolon inside a literal, and that literal stays
broken however much of its end is taken away. By induction on the lexemes in front of it. -/
theorem Lexed.exists_cut {body : List Char} {found : List Lexeme} (lexed : Lexed body found)
    (noComment : ∀ lexeme ∈ found, lexeme.text.head? ≠ some ';') (semicolon : ';' ∈ body) :
    ∃ front mark part, body.takeWhile (· != ';') = front ++ mark :: part ∧
      Text.isBlank mark = false ∧
      ∀ shorter, shorter <+: part →
        ∃ lexeme ∈ lexemes (front ++ mark :: shorter), lexeme.IsFault := by
  induction lexed with
  | nil => cases semicolon
  | @cons lexeme grows rest found written stops others induction =>
    rw [List.forall_mem_cons] at noComment
    by_cases here : ';' ∈ lexeme.text
    · obtain ⟨mark, part, cut, solid, broken⟩ := written.exists_cut noComment.1 here rest
      refine ⟨[], mark, part, cut, solid, fun shorter short => ?_⟩
      rw [List.nil_append, lexemes_cons]
      exact ⟨_, List.mem_cons_self, broken shorter short⟩
    · have later : ';' ∈ rest := (List.mem_append.mp semicolon).resolve_left here
      obtain ⟨front, mark, part, cut, solid, broken⟩ := induction noComment.2 later
      have uncut : ∀ c ∈ lexeme.text, (c != ';') = true := fun c member =>
        bne_iff_ne.mpr fun same => here (same ▸ member)
      refine ⟨lexeme.text ++ front, mark, part, ?_, solid, ?_⟩
      · rw [List.takeWhile_append_of_pos uncut, cut, List.append_assoc]
      · intro shorter short
        have apart : Stops grows (front ++ mark :: shorter) := by
          have behind := stops_take_while stops (q := (· != ';'))
          rw [cut] at behind
          intro c first
          apply behind c
          cases front with
          | nil => exact first
          | cons d front => exact first
        obtain ⟨fault, member, isFault⟩ := broken shorter short
        rw [List.append_assoc, written.lexemes_append apart]
        exact ⟨fault, List.mem_cons_of_mem _ member, isFault⟩

namespace IsReplacement
variable {body : List Char} (replacement : IsReplacement body)
include replacement

theorem kept_body_eq_iff : keptBody body = body ↔ ';' ∉ body := by
  constructor
  · intro whole member
    rw [← whole] at member
    have kept := mem_take_while ((Text.trim_end_prefix _).subset member)
    exact absurd rfl (bne_iff_ne.mp kept)
  · intro fresh
    have uncut : body.takeWhile (· != ';') = body :=
      List.takeWhile_eq_self_iff.mpr fun c member =>
        bne_iff_ne.mpr fun same => fresh (same ▸ member)
    rw [keptBody, uncut, Text.trim_end_of_ends replacement.ends]

theorem is_flat_kept_body : IsFlat (keptBody body) := fun c member =>
  replacement.flat c ((List.takeWhile_prefix _).subset ((Text.trim_end_prefix _).subset member))

theorem lexical_faults_kept_body (semicolon : ';' ∈ body) : lexicalFaults (keptBody body) ≠ [] := by
  have lexed := lexed_of_clean replacement.flat replacement.clean
  obtain ⟨front, mark, part, cut, solid, broken⟩ := lexed.exists_cut replacement.noComment semicolon
  obtain ⟨lexeme, member, fault⟩ := broken (Text.trimEnd part) (Text.trim_end_prefix part)
  intro clean
  rw [lexicalFaults, replacement.is_flat_kept_body.normalize, keptBody, cut,
    Text.trim_end_append solid] at clean
  exact Lexeme.not_is_fault_of_faults_from clean lexeme member fault

end IsReplacement

/-! ### Replaced words -/

theorem Fragment.first_identifier {c : Char} (start : isNameStart c = true ∨ c = '_')
    (rest : List Char) : first c rest = word (c :: rest.takeWhile isNameChar) := by
  rcases start with start | rfl
  · exact first_word start rest
  · rfl

theorem Defines.expand_identifier {defines : Defines} {name body : List Char}
    (word : IsIdentifier name) (found : defines.find? name = some body) :
    defines.expand name = body := by
  obtain ⟨c, first, start⟩ := word.starts
  obtain ⟨rest, rfl⟩ := List.head?_eq_some_iff.mp first
  have inside : ∀ d ∈ rest, isNameChar d = true :=
    fun d member => word.inside d (List.mem_cons_of_mem c member)
  have cut : Fragment.first c (rest ++ []) = .word (c :: rest) := by
    rw [Fragment.first_identifier start, take_while_of_stops inside (by simp [Stops])]
  have whole := defines.expand_append cut rfl
  rw [List.append_nil, defines.expand_nil, List.append_nil, expandFragment, found] at whole
  exact whole

theorem Defines.expand_db {defines : Defines} {name body : List Char} (word : IsIdentifier name)
    (kept : defines.find? "db".toList = none) (found : defines.find? name = some body) :
    defines.expand ("db ".toList ++ name) = "db ".toList ++ body := by
  have stops : Stops isNameChar (' ' :: ([] ++ name)) := by simp [Stops]; decide
  have front := defines.expand_word (by decide : isNameStart 'd' = true)
    (by simp; decide : ∀ c ∈ ['b'], isNameChar c = true) stops
  have space : defines.expand (' ' :: ([] ++ name)) = [' '] ++ defines.expand name :=
    defines.expand_copied rfl
  rw [space, defines.expand_identifier word found] at front
  have same : defines.find? ['d', 'b'] = none := by simpa using kept
  simpa [same] using front

/-! ### Sources with one definition -/

def definingSource (before after : List (List Char)) (name body : List Char) : List Char :=
  Text.joinLines (before ++ defineLine name body :: after)

/-- What a single definition does to a source. -/
structure DefinesOnce (expansion : Expansion) (before after : List (List Char))
    (name body : List Char) : Prop where
  defines : expansion.defines = ⟨[(name, keptBody body)]⟩
  accepted : expansion.diagnostics = []
  whole : keptBody body = body ↔ ';' ∉ body
  -- a cut goes through a literal, so nothing can be made of what is left
  broken : ';' ∈ body → lexicalFaults (keptBody body) ≠ []
  expanded : ∀ number, after[number]? = some ("db ".toList ++ name) → IsIdentifier name →
    name ≠ "db".toList →
      (expansion.lines[before.length + 1 + number]?).map ExpandedLine.text =
        some ("db ".toList ++ keptBody body)

namespace Defines

theorem after_lines_code {lines : List (List Char)} (code : ∀ line ∈ lines, IsCode line)
    (defines : Defines) : defines.afterLines lines = defines := by
  induction lines with
  | nil => rfl
  | cons line lines induction =>
    rw [List.forall_mem_cons] at code
    rw [afterLines, List.foldl_cons, defines.after_line_of_is_code code.1]
    exact induction code.2

theorem complaints_from_code {lines : List (List Char)} (code : ∀ line ∈ lines, IsCode line)
    (defines : Defines) (number : Nat) : defines.complaintsFrom number lines = [] := by
  induction lines generalizing number with
  | nil => rfl
  | cons line lines induction =>
    rw [List.forall_mem_cons] at code
    rw [complaintsFrom, defines.complaints_of_is_code code.1, defines.after_line_of_is_code code.1]
    exact induction code.2 _

theorem complaints_from_append (defines : Defines) (number : Nat)
    (lines others : List (List Char)) :
    defines.complaintsFrom number (lines ++ others) = defines.complaintsFrom number lines ++
      (defines.afterLines lines).complaintsFrom (number + lines.length) others := by
  induction lines generalizing defines number with
  | nil => rfl
  | cons line lines induction =>
    rw [List.cons_append, complaintsFrom, complaintsFrom, induction, List.append_assoc,
      List.length_cons, Nat.add_right_comm, Nat.add_assoc number]
    rfl

theorem find?_single (name body : List Char) : find? ⟨[(name, body)]⟩ name = some body := by
  simp [find?]

end Defines

section
variable {before after : List (List Char)} {name body : List Char}
  (definable : IsDefinable name) (starts : Stops Text.isBlank body)
  (codeBefore : ∀ line ∈ before, IsCode line)
include definable starts codeBefore

/-- The table in force on the lines behind the definition. -/
theorem after_lines_defining {others : List (List Char)} (code : ∀ line ∈ others, IsCode line) :
    Defines.empty.afterLines (before ++ defineLine name body :: others) =
      ⟨[(name, keptBody body)]⟩ := by
  have direct := Expansion.direct_define definable starts .empty
  have defined : Defines.empty.afterLine (defineLine name body) = ⟨[(name, keptBody body)]⟩ := by
    simp only [Defines.afterLine, trim_start_define_line, direct]
    rfl
  rw [Defines.afterLines, List.foldl_append, List.foldl_cons]
  change Defines.afterLines ((Defines.empty.afterLines before).afterLine _) others = _
  rw [Defines.after_lines_code codeBefore, defined, Defines.after_lines_code code]

theorem complaints_defining (code : ∀ line ∈ after, IsCode line) :
    Defines.empty.complaintsFrom 0 (before ++ defineLine name body :: after) = [] := by
  have direct := Expansion.direct_define definable starts .empty
  have accepted (number : Nat) : Defines.empty.complaints number (defineLine name body) = [] := by
    simp only [Defines.complaints, trim_start_define_line, direct]
  rw [Defines.complaints_from_append, Defines.complaints_from_code codeBefore,
    Defines.after_lines_code codeBefore, Defines.complaintsFrom, accepted,
    Defines.complaints_from_code code]
  rfl

end

theorem is_flat_define_line {name body : List Char} (definable : IsDefinable name)
    (flat : IsFlat body) : IsFlat (defineLine name body) := by
  have solid : ∀ c ∈ name, c ≠ '\n' ∧ c ≠ '\r' := by
    intro c member
    have apart := (definable.solid c member).1
    constructor <;> rintro rfl <;> cases apart
  have command : ∀ c ∈ '%' :: "define ".toList, c ≠ '\n' ∧ c ≠ '\r' := by simp
  have line : defineLine name body = '%' :: "define ".toList ++ (name ++ ' ' :: body) := rfl
  rw [line]
  exact List.forall_mem_append.mpr ⟨command, List.forall_mem_append.mpr
    ⟨solid, List.forall_mem_cons.mpr ⟨by decide, flat⟩⟩⟩

/-- A definition keeps its replacement text whole exactly if there is no semicolon in it; otherwise it
keeps the start of a broken literal. -/
theorem defines_once_of_source {before after : List (List Char)} {name body : List Char}
    (definable : IsDefinable name) (replacement : IsReplacement body)
    (codeBefore : ∀ line ∈ before, IsFlat line ∧ IsCode line)
    (codeAfter : ∀ line ∈ after, IsFlat line ∧ IsCode line) :
    DefinesOnce (.ofText (Text.normalize (definingSource before after name body))) before after
      name body := by
  have flatLines : ∀ line ∈ before ++ defineLine name body :: after, IsFlat line :=
    List.forall_mem_append.mpr ⟨fun line member => (codeBefore line member).1,
      List.forall_mem_cons.mpr ⟨is_flat_define_line definable replacement.flat,
        fun line member => (codeAfter line member).1⟩⟩
  have codeFront : ∀ line ∈ before, IsCode line := fun line member => (codeBefore line member).2
  have codeBack : ∀ line ∈ after, IsCode line := fun line member => (codeAfter line member).2
  have lines : Text.splitLines (Text.normalize (definingSource before after name body)) =
      before ++ defineLine name body :: after :=
    Text.split_lines_normalize_join_lines (by simp) flatLines
  refine ⟨?_, ?_, replacement.kept_body_eq_iff, replacement.lexical_faults_kept_body, ?_⟩
  · rw [Expansion.of_text_eq, lines]
    exact after_lines_defining definable replacement.starts codeFront codeBack
  · rw [Expansion.of_text_eq, lines]
    exact complaints_defining definable replacement.starts codeFront codeBack
  · intro number here word other
    have above : ∀ line ∈ after.take number, IsCode line := fun line member =>
      codeBack line (List.mem_of_mem_take member)
    have table := after_lines_defining definable replacement.starts codeFront above
    have place : (before ++ defineLine name body :: after)[before.length + 1 + number]? =
        some ("db ".toList ++ name) := by
      rw [List.getElem?_append_right (by omega), ← here]
      have index : before.length + 1 + number - before.length = number + 1 := by omega
      rw [index, List.getElem?_cons_succ]
    have taken : (before ++ defineLine name body :: after).take (before.length + 1 + number) =
        before ++ defineLine name body :: after.take number := by
      rw [Nat.add_assoc, List.take_length_add_append, Nat.add_comm 1, List.take_succ_cons]
    have code := codeBack _ (List.mem_of_getElem? here)
    have unnamed : Defines.find? ⟨[(name, keptBody body)]⟩ "db".toList = none := by
      simp only [Defines.find?, Option.map_eq_none_iff]
      simpa using other
    rw [Expansion.get_elem?_lines_of_text, lines, place, Defines.inForce, taken, table,
      Option.map_some, Option.map_some, Defines.text_expand_line _ code,
      Defines.expand_db word unnamed (Defines.find?_single name _)]

theorem defines_once_of_source_string :
    let name := "_s'".toList
    let body := "'a', \"x ;y\"".toList
    IsDefinable name ∧ IsIdentifier name ∧ IsReplacement body ∧
      DefinesOnce (.ofText (Text.normalize "nop\n%define _s' 'a', \"x ;y\"\n\ndb _s'".toList))
        ["nop".toList] [[], "db _s'".toList] name body ∧
      keptBody body = "'a', \"x".toList := by
  intro name body
  have definable : IsDefinable name := ⟨by decide, by simp [name, Text.isBlank]⟩
  have identifier : IsIdentifier name := ⟨⟨'_', rfl, .inr rfl⟩, by simp [name]; decide⟩
  have replacement : IsReplacement body := by
    refine ⟨by decide +kernel, by decide +kernel, ?_, by decide +kernel, by decide +kernel⟩
    simp [body, Text.isBlank]
  have codeBefore : ∀ line ∈ ["nop".toList], IsFlat line ∧ IsCode line := by decide +kernel
  have codeAfter : ∀ line ∈ [[], "db _s'".toList], IsFlat line ∧ IsCode line := by decide +kernel
  have defined := defines_once_of_source definable replacement codeBefore codeAfter
  exact ⟨definable, identifier, replacement, defined, by decide +kernel⟩

/-- A quoted semicolon is a replacement text, but only its opening apostrophe is kept. -/
theorem defines_once_quoted_semicolon :
    let expansion := Expansion.ofText (Text.normalize "%define SEMI ';'\ndb SEMI".toList)
    IsReplacement "';'".toList ∧ expansion.defines = ⟨[("SEMI".toList, "'".toList)]⟩ ∧
      expansion.text = "\ndb '".toList := by
  intro expansion
  refine ⟨⟨by decide +kernel, by decide +kernel, ?_, by decide +kernel, by decide +kernel⟩,
    by decide +kernel, by decide +kernel⟩
  simp [Text.isBlank]

end Z80Toolchain
