import Z80Toolchain.Assembly.SymbolFile
import Z80Toolchain.Listing.Dump
import Z80Toolchain.Listing.Report
import Z80Toolchain.Listing.Tokens
import Z80Toolchain.Project.Image

/-!
Assembling sources one after another. Each starts at its own address, or where the one before it
ends. Errors in a source are reported and counted; a source that cannot be read, or has no room to
start in, ends the build.
-/
namespace Z80Toolchain

structure SourceFile where
  path : String
  address : Option UInt16
  text : Option String
deriving DecidableEq, Repr

structure ListingChoice where
  tokens : Bool
  dump : Bool
deriving DecidableEq, Repr

structure Build where
  output : String
  segments : List Segment
  symbols : SymbolFile
  faults : Nat
  /-- Where a source without an address starts. -/
  next : Nat
deriving DecidableEq, Repr

namespace Build

def start (output : String) (origin : UInt16) : Build :=
  ⟨output, [], .empty, 0, origin.toNat⟩

def say (build : Build) (text : String) : Build :=
  { build with output := build.output ++ text }

/-- The address where a source is assembled, if there is room. -/
def originOf? (build : Build) (source : SourceFile) : Option UInt16 :=
  match source.address with
  | some address => some address
  | none => if build.next < Address.space then some (UInt16.ofNat build.next) else none

def listing (choice : ListingChoice) (path : String) (text : List Char) (assembly : Assembly) :
    String :=
  (if choice.tokens then tokenListing path text else "")
    ++ String.join (assembly.diagnostics.map fun diagnostic => diagnostic.report path text)
    ++ (if choice.dump then assembly.dump path text else "")

def record (build : Build) (path : String) (origin : UInt16) (assembly : Assembly) : Build :=
  { build with
    segments := build.segments ++ [⟨path, some origin, assembly.code.toList⟩]
    symbols := build.symbols.insert path assembly.symbols
    faults := build.faults + assembly.diagnostics.length
    -- addresses behind a source are counted in 32 bits
    next := (origin.toNat + assembly.code.size) % 4294967296 }

def addSource (choice : ListingChoice) (build : Build) (source : SourceFile) :
    Build × Option Failure :=
  let announced := build.say ("  < " ++ source.path ++ "\n")
  match source.text with
  | none => (announced, some (.unreadableFile source.path))
  | some text =>
    match build.originOf? source with
    | none => (announced, some (.imageOverflow source.path build.next))
    | some origin =>
      let assembly := assemble origin text.toList
      let shown := announced.say (listing choice source.path text.toList assembly)
      (shown.record source.path origin assembly, none)

/-- Assembles sources in order. Errors in them are a failure only after the last one. -/
def addSources (choice : ListingChoice) (build : Build) : List SourceFile → Build × Option Failure
  | [] => (build, if build.faults = 0 then none else some (.faultySources build.faults))
  | source :: rest =>
    match addSource choice build source with
    | (stopped, some failure) => (stopped, some failure)
    | (next, none) => addSources choice next rest

end Build

end Z80Toolchain
