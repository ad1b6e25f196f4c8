import Z80Toolchain.Listing.Style
import Z80Toolchain.Source.Diagnostic
import Z80Toolchain.Text.Lines

/-!
A diagnostic as people read it: the message, the place, the source line, and a mark below the
character it is about.
-/
namespace Z80Toolchain

def Diagnostic.report (diagnostic : Diagnostic) (path : String) (source : List Char) : String :=
  let paint := Painting.terminal.paint
  let position := diagnostic.position
  let bar := paint [.blue] "|"
  let line := ((Text.listedLines source)[position.line]?).getD []
  let number := Numeral.padStart 4 (Numeral.decimal (position.line + 1))
  let column := String.ofList (List.replicate position.column ' ')
  paint [.red, .bold] "error" ++ ": " ++ diagnostic.message ++ "\n"
    ++ "     " ++ paint [.blue] "-->" ++ " "
    ++ paint [.underline] (path ++ ":" ++ position.text) ++ "\n"
    ++ "      " ++ bar ++ "\n"
    ++ " " ++ paint [.blue] (number ++ " |") ++ " " ++ String.ofList line ++ "\n"
    ++ "      " ++ bar ++ " " ++ column ++ paint [.red, .bold] "^" ++ "\n"

end Z80Toolchain
