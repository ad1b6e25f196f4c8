/-!
White space in directive lines and build files: the characters of the Unicode property
`White_Space`. Between tokens the assembler knows only the space and the tab.
-/
namespace Z80Toolchain.Text

/-- A character of the Unicode property `White_Space`. -/
def isBlank (c : Char) : Bool :=
  let code := c.toNat
  (0x09 ≤ code && code ≤ 0x0D) || code == 0x20 || code == 0x85 || code == 0xA0 ||
    code == 0x1680 || (0x2000 ≤ code && code ≤ 0x200A) || code == 0x2028 || code == 0x2029 ||
    code == 0x202F || code == 0x205F || code == 0x3000

def trimStart (text : List Char) : List Char :=
  text.dropWhile isBlank

def trimEnd (text : List Char) : List Char :=
  (text.reverse.dropWhile isBlank).reverse

def trim (text : List Char) : List Char :=
  trimEnd (trimStart text)

/-- The characters before the first blank, and the rest from that blank on. -/
def splitWord (text : List Char) : List Char × List Char :=
  (text.takeWhile (!isBlank ·), text.dropWhile (!isBlank ·))

theorem split_word_append (text : List Char) : (splitWord text).1 ++ (splitWord text).2 = text :=
  List.takeWhile_append_dropWhile

/-- The maximal runs of characters that are not blank, in order. -/
def words : List Char → List (List Char)
  | [] => []
  | c :: rest =>
    if isBlank c then words rest
    else if rest.head?.all isBlank then [c] :: words rest
    else match words rest with
      | [] => [[c]]
      | word :: more => (c :: word) :: more

end Z80Toolchain.Text
