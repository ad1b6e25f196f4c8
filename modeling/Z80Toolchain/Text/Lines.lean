/-!
Lines of a text. The assembler works on text in which every line end is one line feed; listings
show the lines as the file has them, cut at line feeds only.
-/
namespace Z80Toolchain.Text

/-- Each carriage return with line feed, and each carriage return alone, becomes a line feed. -/
def normalize : List Char → List Char
  | [] => []
  | '\r' :: '\n' :: rest => '\n' :: normalize rest
  | '\r' :: rest => '\n' :: normalize rest
  | c :: rest => c :: normalize rest

def splitLines : List Char → List (List Char)
  | [] => [[]]
  | c :: rest =>
    if c = '\n' then [] :: splitLines rest
    else match splitLines rest with
      | [] => [[c]]
      | line :: lines => (c :: line) :: lines

def joinLines : List (List Char) → List Char
  | [] => []
  | [line] => line
  | line :: next :: lines => line ++ '\n' :: joinLines (next :: lines)

theorem split_lines_ne_nil (text : List Char) : splitLines text ≠ [] := by
  cases text with
  | nil => simp [splitLines]
  | cons c rest =>
    simp only [splitLines]
    split
    · simp
    · split <;> simp

theorem join_lines_split_lines (text : List Char) : joinLines (splitLines text) = text := by
  induction text with
  | nil => rfl
  | cons c rest ih =>
    simp only [splitLines]
    split
    · rename_i feed
      cases lines : splitLines rest with
      | nil => exact absurd lines (split_lines_ne_nil rest)
      | cons line more => rw [lines] at ih; simp [joinLines, ih, feed]
    · cases lines : splitLines rest with
      | nil => exact absurd lines (split_lines_ne_nil rest)
      | cons line more =>
        rw [lines] at ih
        cases more with
        | nil => simpa [joinLines] using ih
        | cons next more => simpa [joinLines] using ih

/-- One carriage return at the end of a line is part of its line end. -/
def dropReturn (line : List Char) : List Char :=
  match line.getLast? with
  | some '\r' => line.dropLast
  | _ => line

/-- The lines a listing shows: a line end closes its line, so no empty line follows the last one. -/
def listedLines (text : List Char) : List (List Char) :=
  let pieces := splitLines text
  let closed := pieces.dropLast.map dropReturn
  match pieces.getLast? with
  | none | some [] => closed
  | some last => closed ++ [last]

end Z80Toolchain.Text
