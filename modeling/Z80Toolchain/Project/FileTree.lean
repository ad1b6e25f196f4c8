import Z80Toolchain.Project.Host
import Z80Toolchain.Project.Path

/-!
A tree of files as a finite map, and the host that works on it. A location lists the names on the
way down from the current directory. A directory is there if it is listed or if something lies in
it. The directories above the current one are there as well, but nothing else in them is.
-/
namespace Z80Toolchain

abbrev Location := List String

/-- What lies at a location; a directory has to be listed only if it is empty. -/
inductive FileNode
  | file (contents : ByteArray)
  | directory

instance : DecidableEq FileNode
  | .file left, .file right =>
    match ByteArray.instDecidableEq left right with
    | isTrue same => isTrue (congrArg _ same)
    | isFalse other => isFalse fun same => other (FileNode.file.inj same)
  | .directory, .directory => isTrue rfl
  | .file _, .directory => isFalse nofun
  | .directory, .file _ => isFalse nofun

namespace Location

def root : Location := ["/"]

/-- The current directory, one above it, or the root. -/
def isAlwaysThere (location : Location) : Bool :=
  location.all (· == "..") || location == root

def above (location : Location) : Location :=
  if location == root then root
  else if location.all (· == "..") then location ++ [".."]
  else location.dropLast

def isInside (location : Location) : Bool :=
  location.head? != some ".." && location.head? != some "/"

end Location

structure FileTree where
  nodes : List (Location × FileNode)
deriving DecidableEq

namespace FileTree

def empty : FileTree := ⟨[]⟩

def file? (tree : FileTree) (location : Location) : Option ByteArray :=
  tree.nodes.findSome? fun
    | (found, .file contents) => if found = location then some contents else none
    | (_, .directory) => none

/-- A directory that is always there, a listed one, or the place of something deeper. -/
def isDirectoryAt (tree : FileTree) (location : Location) : Bool :=
  Location.isAlwaysThere location || tree.nodes.any fun
    | (found, .directory) => location.isPrefixOf found
    | (found, .file _) => location.isPrefixOf found && found != location

def dead (tree : FileTree) (location : Location) : FileError :=
  if (tree.file? location).isSome then .notADirectory else .notFound

def nameLimit : Nat := 255

def pathLimit : Nat := 4095

/-- Follows the parts of a path. Nothing has to be there at its end, but everything on the way has
to be a directory. -/
def follow (tree : FileTree) (location : Location) : List String → Except FileError Location
  | [] => .ok location
  | part :: rest =>
    if !tree.isDirectoryAt location then .error (tree.dead location)
    else if part = "" ∨ part = "." then tree.follow location rest
    else if part = ".." then tree.follow (Location.above location) rest
    else if nameLimit < part.utf8ByteSize then .error .nameTooLong
    else tree.follow (location ++ [part]) rest

def locate (tree : FileTree) (path : String) : Except FileError Location :=
  if pathLimit < path.utf8ByteSize then .error .nameTooLong
  else if path.isEmpty then .error .notFound
  else tree.follow (if path.toList.head? == some '/' then Location.root else []) (Path.parts path)

def read (tree : FileTree) (path : String) : Except FileError ByteArray := do
  let location ← tree.locate path
  match tree.file? location with
  | some contents => .ok contents
  | none => .error (if tree.isDirectoryAt location then .isADirectory else .notFound)

def insert (tree : FileTree) (location : Location) (contents : ByteArray) : FileTree :=
  ⟨tree.nodes.filter (fun node => node.1 != location) ++ [(location, .file contents)]⟩

def write (tree : FileTree) (path : String) (contents : ByteArray) : Except FileError FileTree := do
  let location ← tree.locate path
  if tree.isDirectoryAt location then .error .isADirectory
  else .ok (tree.insert location contents)

def isDirectory (tree : FileTree) (path : String) : Bool :=
  match tree.locate path with
  | .ok location => tree.isDirectoryAt location
  | .error _ => false

def isFile (tree : FileTree) (path : String) : Bool :=
  match tree.locate path with
  | .ok location => (tree.file? location).isSome
  | .error _ => false

def namesIn (tree : FileTree) (location : Location) : List String :=
  tree.nodes.filterMap fun
    | (found, .file _) => if found.dropLast = location then found.getLast? else none
    | (_, .directory) => none

/-- The names that lead on to a file: behind a path that is almost too long a name leads nowhere. -/
def fileNames (tree : FileTree) (path : String) : Except FileError (List String) := do
  let location ← tree.locate path
  if tree.isDirectoryAt location then
    .ok ((tree.namesIn location).filter fun name => tree.isFile (Path.join path name))
  else .error (tree.dead location)

def files (tree : FileTree) : List (Location × ByteArray) :=
  tree.nodes.filterMap fun
    | (location, .file contents) => some (location, contents)
    | (_, .directory) => none

/-- The files below the current directory that are not the same in another tree. -/
def changedFrom (tree earlier : FileTree) : List (Location × ByteArray) :=
  tree.files.filter fun (location, contents) =>
    Location.isInside location && earlier.file? location != some contents

def host : Host (StateM FileTree) where
  read path := do return (← get).read path
  write path contents := do
    match (← get).write path contents with
    | .ok tree => set tree; return .ok ()
    | .error reason => return .error reason
  isDirectory path := do return (← get).isDirectory path
  fileNames path := do return (← get).fileNames path

end FileTree

end Z80Toolchain
