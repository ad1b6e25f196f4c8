import Z80Toolchain.Assembly.Draft
import Z80Toolchain.Source.Expansion
import Z80Toolchain.Source.Tokenize

/-!
Assembling a source text: definitions are expanded, tokens are read and put back to their places in
the source, the encode pass drafts the code, and patches complete it. Diagnostics come in the order
of their places, those of an earlier stage first.
-/
namespace Z80Toolchain

/-- Everything that assembling a source gave. The code is there even if there are diagnostics. -/
structure Assembly where
  code : Array UInt8
  diagnostics : List Diagnostic
  symbols : Symbols
  resolved : Nat
  lines : List Line
deriving Repr

namespace Assembly

/-- No label is missing in the code. -/
def isComplete (assembly : Assembly) : Bool :=
  !assembly.diagnostics.any Diagnostic.isUnresolved

def succeeded (assembly : Assembly) : Bool :=
  assembly.diagnostics.isEmpty

end Assembly

namespace Expansion

def tokens (expansion : Expansion) : List Token :=
  (tokenize expansion.text).map fun token =>
    { token with position := expansion.sourcePosition token.position }

def lexicalFaults (expansion : Expansion) : List Diagnostic :=
  (Z80Toolchain.lexicalFaults expansion.text).map fun diagnostic =>
    { diagnostic with position := expansion.sourcePosition diagnostic.position }

def draft (expansion : Expansion) (origin : UInt16) : Draft :=
  (Draft.start origin).run expansion.tokens

def finish (expansion : Expansion) (draft : Draft) : Assembly :=
  let (code, unresolved) := Patch.resolve draft.symbols draft.code draft.patches.toList
  let diagnostics :=
    expansion.diagnostics ++ expansion.lexicalFaults ++ draft.diagnostics.toList ++ unresolved
  { code
    diagnostics := diagnostics.mergeSort fun left right => left.position.le right.position
    symbols := draft.symbols
    resolved := draft.patches.size - unresolved.length
    lines := draft.lines.toList }

end Expansion

def assemble (origin : UInt16) (source : List Char) : Assembly :=
  let expansion := Expansion.ofText (Text.normalize source)
  expansion.finish (expansion.draft origin)

end Z80Toolchain
