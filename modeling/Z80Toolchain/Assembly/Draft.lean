import Z80Toolchain.Assembly.Patch

/-!
The encode pass: one cursor goes through all tokens and stops at every label and statement. A
statement has its whole effect or none, with at most one diagnostic, and the pass resumes at the end
of its line. What a single line does is stated beside the pass.
-/
namespace Z80Toolchain

/-- The bytes that one statement put into the code, from `start` to before `stop`. -/
structure Line where
  line : Nat
  address : UInt16
  start : Nat
  stop : Nat
deriving DecidableEq, Repr

/-- Code in the making. -/
structure Draft where
  origin : UInt16
  code : Array UInt8
  patches : Array Patch
  symbols : Symbols
  lines : Array Line
  diagnostics : Array Diagnostic
deriving Repr

namespace Draft

def start (origin : UInt16) : Draft :=
  ⟨origin, #[], #[], .empty, #[], #[]⟩

def address (draft : Draft) : Int :=
  Address.ofOffset draft.origin draft.code.size

def limit (draft : Draft) (encoding : Encoding) : Int :=
  Address.ofOffset draft.origin (draft.code.size + encoding.bytes.length)

def report (draft : Draft) (diagnostic : Diagnostic) : Draft :=
  { draft with diagnostics := draft.diagnostics.push diagnostic }

/-- A label stands for the last byte before it. -/
def label (draft : Draft) (token : Token) (name : String) : Draft :=
  match draft.symbols.define
    ⟨name, .label, Address.wrapped (draft.address - 1), token.position⟩ with
  | .ok symbols => { draft with symbols }
  | .error cause => draft.report (.atToken token cause)

def placed (encoding : Encoding) (patches : List Patch) (start : Nat) : List UInt8 :=
  patches.foldl
    (fun bytes patch =>
      match patch.width with
      | .absolute => bytes
      | .relative => bytes.set (patch.offset - start) (UInt8.ofInt patch.addend))
    encoding.bytes

/-- Appends the bytes of the statement that starts at `head`. -/
def emit (draft : Draft) (head : Token) (encoding : Encoding) : Draft :=
  let start := draft.code.size
  let patches := encoding.references.map (Patch.ofReference draft.origin start)
  { draft with
    code := draft.code ++ placed encoding patches start
    patches := draft.patches ++ patches
    lines := draft.lines.push
      ⟨head.position.line, UInt16.ofNat (draft.origin.toNat + start), start,
        start + encoding.bytes.length⟩ }

def endOfLine (cursor : Cursor) : Except Diagnostic Unit :=
  if cursor.atLineEnd then .ok () else .error (cursor.complain .expectedEndOfLine)

def constant (draft : Draft) (head : Token) (name : String) (cursor : Cursor) :
    Except Diagnostic Draft :=
  match Expression.parse draft.symbols false cursor with
  | (.error diagnostic, _) => .error diagnostic
  | (.ok (.symbol _ _), after) => .error (after.complain .unsupportedExpression)
  | (.ok (.value number), after) => do
    endOfLine after
    match draft.symbols.define ⟨name, .constant, number, head.position⟩ with
    | .ok symbols => return { draft with symbols }
    | .error cause => .error (.atToken head cause)

/-- Emits what ends below the end of memory. -/
def append (draft : Draft) (head : Token) (encoding : Encoding) : Except Diagnostic Draft :=
  let limit := draft.limit encoding
  if limit ≤ Address.space then .ok (draft.emit head encoding)
  else .error (.atToken head (.addressOverflow limit.toNat))

theorem append_of_fits {draft : Draft} {encoding : Encoding}
    (fits : draft.limit encoding ≤ Address.space) (head : Token) :
    draft.append head encoding = .ok (draft.emit head encoding) := by
  rw [append, if_pos fits]

theorem append_of_exceeds {draft : Draft} {encoding : Encoding}
    (exceeds : ¬ draft.limit encoding ≤ Address.space) (head : Token) :
    draft.append head encoding =
      .error (.atToken head (.addressOverflow (draft.limit encoding).toNat)) := by
  rw [append, if_neg exceeds]

def instruction (draft : Draft) (head : Token) (cursor : Cursor) : Except Diagnostic Draft :=
  match Statement.parse draft.symbols head cursor with
  | (.error diagnostic, _) => .error diagnostic
  | (.ok statement, after) => do
    endOfLine after
    draft.append head statement.encoding

theorem instruction_of_read {draft : Draft} {head : Token} {cursor after : Cursor}
    {statement : Statement}
    (read : Statement.parse draft.symbols head cursor = (.ok statement, after)) :
    draft.instruction head cursor =
      if after.atLineEnd then draft.append head statement.encoding
      else .error (after.complain .expectedEndOfLine) := by
  simp only [instruction, read, endOfLine]
  split
  · exact pure_bind () _
  · rfl

def statement (draft : Draft) (head : Token) (cursor : Cursor) : Except Diagnostic Draft :=
  match head.kind with
  | .atName name => draft.constant head name cursor
  | .text _ => draft.instruction head cursor
  | .bad _ => .ok draft
  | _ => .error (.atToken head (.expected "instruction"))

/-- A statement that fails has no effect but a diagnostic; none follows that of a bad token. -/
def tryStatement (draft : Draft) (head : Token) (cursor : Cursor) : Draft :=
  match draft.statement head cursor with
  | .ok after => after
  | .error diagnostic => if diagnostic.isFollowUp then draft else draft.report diagnostic

/-- Where the readers of a statement leave the cursor, whether they accept the statement or not. -/
def behind (draft : Draft) (head : Token) (cursor : Cursor) : Cursor :=
  match head.kind with
  | .atName _ => (Expression.parse draft.symbols false cursor).2
  | .text _ => (Statement.parse draft.symbols head cursor).2
  | _ => cursor

/-- The encode pass with one cursor for all lines. Behind a statement it goes on at the next line
end, from wherever the readers left the cursor. Every step takes a token, so there are no more steps
than tokens. -/
def runUpTo : Nat → Draft → Cursor → Draft
  | 0, draft, _ => draft
  | count + 1, draft, cursor =>
    match cursor.ahead with
    | [] => draft
    | token :: _ =>
      match token.kind with
      | .newLine => runUpTo count draft cursor.skip
      | .label name => runUpTo count (draft.label token name) cursor.skip
      | _ =>
        runUpTo count (draft.tryStatement token cursor.skip)
          (draft.behind token cursor.skip).skipLine

def run (draft : Draft) (tokens : List Token) : Draft :=
  runUpTo tokens.length draft (.ofTokens tokens)

/-! ### One line -/

def lineFrom (final : Position) (draft : Draft) : List Token → Draft
  | [] => draft
  | token :: rest =>
    match token.kind with
    | .newLine => draft
    | .label name => lineFrom final (draft.label token name) rest
    | _ => draft.tryStatement token ⟨rest, final⟩

def line (draft : Draft) (tokens : List Token) : Draft :=
  lineFrom (Cursor.ofTokens tokens).final draft tokens

end Draft

def Token.lines : List Token → List (List Token)
  | [] => []
  | token :: rest =>
    if token.kind = .newLine then [token] :: lines rest
    else match lines rest with
      | [] => [[token]]
      | line :: more => (token :: line) :: more

end Z80Toolchain
