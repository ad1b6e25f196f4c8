import Z80Toolchain.Proofs.Source.PlainExpansion

/-!
Expansion line by line. Each line is expanded by the definitions that the lines above it have left,
adds what it defines itself, and may add a complaint. So the expansion of a source is three lists that
follow from its lines, and what lies above a line matters for the definitions and the line number only.
-/
namespace Z80Toolchain

theorem exists_directive_of_not_is_code {line : List Char} (other : ¬ IsCode line) :
    ∃ directive, Text.trimStart line = '%' :: directive :=
  List.head?_eq_some_iff.mp (Decidable.not_not.mp other)

namespace Defines

/-! ### One line -/

/-- A line as it is expanded; a directive leaves an empty line. -/
def expandLine (defines : Defines) (line : List Char) : ExpandedLine :=
  match Text.trimStart line with
  | '%' :: _ => .unchanged []
  | _ => .ofSubstitution line (defines.substitute line)

def afterLine (defines : Defines) (line : List Char) : Defines :=
  match Text.trimStart line with
  | '%' :: directive =>
    match Expansion.direct defines directive with
    | .ok next => next
    | .error _ => defines
  | _ => defines

def complaints (defines : Defines) (number : Nat) (line : List Char) : List Diagnostic :=
  match Text.trimStart line with
  | '%' :: directive =>
    match Expansion.direct defines directive with
    | .ok _ => []
    | .error cause => [⟨⟨number, (String.ofList (line.takeWhile Text.isBlank)).utf8ByteSize⟩, cause, none⟩]
  | _ => []

variable (defines : Defines)

theorem expand_line_of_is_code {line : List Char} (code : IsCode line) :
    defines.expandLine line = .ofSubstitution line (defines.substitute line) := by
  unfold expandLine
  split
  · next directive percent => exact absurd (by rw [percent]; rfl) code
  · rfl

theorem expand_line_of_not_is_code {line : List Char} (other : ¬ IsCode line) :
    defines.expandLine line = .unchanged [] := by
  obtain ⟨directive, percent⟩ := exists_directive_of_not_is_code other
  simp only [expandLine, percent]

theorem after_line_of_is_code {line : List Char} (code : IsCode line) :
    defines.afterLine line = defines := by
  unfold afterLine
  split
  · next directive percent => exact absurd (by rw [percent]; rfl) code
  · rfl

theorem complaints_of_is_code {line : List Char} (code : IsCode line) (number : Nat) :
    defines.complaints number line = [] := by
  unfold complaints
  split
  · next directive percent => exact absurd (by rw [percent]; rfl) code
  · rfl

/-! ### Lines -/

def expandLines (defines : Defines) : List (List Char) → List ExpandedLine
  | [] => []
  | line :: rest => defines.expandLine line :: (defines.afterLine line).expandLines rest

def afterLines (defines : Defines) (lines : List (List Char)) : Defines :=
  lines.foldl afterLine defines

def complaintsFrom (defines : Defines) (number : Nat) : List (List Char) → List Diagnostic
  | [] => []
  | line :: rest =>
    defines.complaints number line ++ (defines.afterLine line).complaintsFrom (number + 1) rest

theorem length_expand_lines (lines : List (List Char)) :
    (defines.expandLines lines).length = lines.length := by
  induction lines generalizing defines with
  | nil => rfl
  | cons line lines induction => exact congrArg Nat.succ (induction _)

/-- The definitions in force on the line of this number. -/
def inForce (lines : List (List Char)) (number : Nat) : Defines :=
  empty.afterLines (lines.take number)

theorem get_elem?_expand_lines (lines : List (List Char)) (number : Nat) :
    (defines.expandLines lines)[number]? =
      lines[number]?.map (defines.afterLines (lines.take number)).expandLine := by
  induction lines generalizing defines number with
  | nil => rfl
  | cons line lines induction =>
    cases number with
    | zero => rfl
    | succ number => exact induction (defines.afterLine line) number

end Defines

/-! ### Sources -/

namespace Expansion

theorem add_line_eq (expansion : Expansion) (line : List Char) :
    expansion.addLine line =
      ⟨expansion.lines.push (expansion.defines.expandLine line), expansion.defines.afterLine line,
        expansion.diagnostics ++ expansion.defines.complaints expansion.lines.size line⟩ := by
  by_cases code : IsCode line
  · rw [Defines.expand_line_of_is_code _ code, Defines.after_line_of_is_code _ code,
      Defines.complaints_of_is_code _ code, List.append_nil, addLine]
    split
    · next directive percent => exact absurd (by rw [percent]; rfl) code
    · rfl
  · obtain ⟨directive, percent⟩ := exists_directive_of_not_is_code code
    simp only [addLine, Defines.expandLine, Defines.afterLine, Defines.complaints, percent]
    cases direct expansion.defines directive <;> simp

theorem foldl_add_line_eq (expansion : Expansion) (lines : List (List Char)) :
    lines.foldl addLine expansion =
      ⟨expansion.lines ++ expansion.defines.expandLines lines, expansion.defines.afterLines lines,
        expansion.diagnostics ++
          expansion.defines.complaintsFrom expansion.lines.size lines⟩ := by
  induction lines generalizing expansion with
  | nil => simp [Defines.expandLines, Defines.afterLines, Defines.complaintsFrom]
  | cons line lines induction =>
    rw [List.foldl_cons, induction, add_line_eq]
    simp [Defines.expandLines, Defines.afterLines, Defines.complaintsFrom]

/-- The expansion of a text, from its lines. -/
theorem of_text_eq (text : List Char) :
    ofText text =
      ⟨(Defines.empty.expandLines (Text.splitLines text)).toArray,
        Defines.empty.afterLines (Text.splitLines text),
        Defines.empty.complaintsFrom 0 (Text.splitLines text)⟩ := by
  rw [ofText, foldl_add_line_eq]
  simp [start]

theorem size_lines_of_text (text : List Char) :
    (ofText text).lines.size = (Text.splitLines text).length := by
  rw [of_text_eq, List.size_toArray, Defines.length_expand_lines]

theorem get_elem?_lines_of_text (text : List Char) (number : Nat) :
    (ofText text).lines[number]? =
      (Text.splitLines text)[number]?.map (Defines.inForce (Text.splitLines text) number).expandLine := by
  rw [of_text_eq, List.getElem?_toArray]
  exact Defines.get_elem?_expand_lines .empty (Text.splitLines text) number

end Expansion

end Z80Toolchain
