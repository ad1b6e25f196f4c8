/-!
Paths as text. A path is never simplified when it is shown, so what follows works on its text.
-/
namespace Z80Toolchain.Path

/-- The path of `name` seen from `base`. An absolute name stays, and a slash at the end of the base
is not doubled. -/
def join (base name : String) : String :=
  if base.isEmpty || name.toList.head? == some '/' then name
  else if base.toList.getLast? == some '/' then base ++ name
  else base ++ "/" ++ name

def split : List Char → List (List Char)
  | [] => [[]]
  | c :: rest =>
    if c = '/' then [] :: split rest
    else match split rest with
      | [] => [[c]]
      | part :: parts => (c :: part) :: parts

/-- The parts of a path; an empty part is where two slashes meet or the path starts or ends with
one. -/
def parts (path : String) : List String :=
  (split path.toList).map String.ofList

end Z80Toolchain.Path
