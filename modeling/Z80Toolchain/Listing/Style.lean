/-!
Colours and weights of printed text. How they are shown is left open but for what readers of the
output rely on. A terminal is switched to each style in front of a text and back behind it, several
in the same order both times.
-/
namespace Z80Toolchain

inductive Style
  | red
  | yellow
  | blue
  | bold
  | underline
deriving DecidableEq, Repr

/-- What is printed in front of and behind a text in some styles. Printed text is read by lines and up
to its bar, and an address opens with a bracket, so styles print none of these. -/
structure Painting where
  on : List Style → String
  off : List Style → String
  plain_on : ∀ styles, ∀ c ∈ (on styles).toList, c ≠ '|' ∧ c ≠ '\n'
  plain_off : ∀ styles, ∀ c ∈ (off styles).toList, c ≠ '|' ∧ c ≠ '\n'
  head_on : ∀ styles, (on styles).toList.head? ≠ some '['

namespace Painting

def paint (painting : Painting) (styles : List Style) (text : String) : String :=
  painting.on styles ++ text ++ painting.off styles

end Painting

namespace Style

def on : Style → String
  | red => "\x1b[31m"
  | yellow => "\x1b[33m"
  | blue => "\x1b[34m"
  | bold => "\x1b[1m"
  | underline => "\x1b[4m"

def off : Style → String
  | red | yellow | blue => "\x1b[39m"
  | bold => "\x1b[22m"
  | underline => "\x1b[24m"

theorem plain_join {code : Style → String}
    (plain : ∀ style, ∀ c ∈ (code style).toList, c ≠ '|' ∧ c ≠ '\n') (styles : List Style) :
    ∀ c ∈ (String.join (styles.map code)).toList, c ≠ '|' ∧ c ≠ '\n' := by
  intro c member
  rw [String.toList_join, List.mem_flatMap] at member
  obtain ⟨text, found, inside⟩ := member
  obtain ⟨style, -, rfl⟩ := List.mem_map.mp found
  exact plain style c inside

end Style

def Painting.terminal : Painting where
  on styles := String.join (styles.map Style.on)
  off styles := String.join (styles.map Style.off)
  plain_on := Style.plain_join fun style => by cases style <;> simp [Style.on]
  plain_off := Style.plain_join fun style => by cases style <;> simp [Style.off]
  head_on := by
    intro styles
    cases styles with
    | nil => simp
    | cons style styles => cases style <;> simp [Style.on]

end Z80Toolchain
