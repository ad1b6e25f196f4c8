/-!
Command lines: options with a long name and perhaps a letter, with or without a value, each given
at most once, and operands between or behind them. Two dashes alone end the options.
-/
namespace Z80Toolchain

structure OptionRule where
  name : String
  letter : Option Char
  takesValue : Bool
deriving DecidableEq, Repr

/-- A command line that has been read: the options given, with a value where one belongs, and the
operands. -/
structure Arguments where
  options : List (String × String)
  operands : List String
deriving DecidableEq, Repr

namespace Arguments

def empty : Arguments := ⟨[], []⟩

def value? (arguments : Arguments) (name : String) : Option String :=
  arguments.options.lookup name

def has (arguments : Arguments) (name : String) : Bool :=
  (arguments.value? name).isSome

def addOption (arguments : Arguments) (name value : String) : Option Arguments :=
  if arguments.has name then none
  else some { arguments with options := arguments.options ++ [(name, value)] }

def addOperands (arguments : Arguments) (more : List String) : Arguments :=
  { arguments with operands := arguments.operands ++ more }

def cutAtEquals (text : List Char) : String × Option String :=
  let name := String.ofList (text.takeWhile (· != '='))
  match text.dropWhile (· != '=') with
  | [] => (name, none)
  | _ :: value => (name, some (String.ofList value))

abbrev Given := OptionRule × Option String

def longOption? (rules : List OptionRule) (text : List Char) : Option Given := do
  let (name, value) := cutAtEquals text
  let rule ← rules.find? fun rule => rule.name == name
  return (rule, value)

/-- The options of the letters behind one dash. The rest of the word behind an option with a value
is its value. -/
def shortOptions? (rules : List OptionRule) : List Char → Option (List Given)
  | [] => some []
  | letter :: rest => do
    let rule ← rules.find? fun rule => rule.letter == some letter
    if rule.takesValue then
      match rest with
      | [] => return [(rule, none)]
      | '=' :: value => return [(rule, some (String.ofList value))]
      | value => return [(rule, some (String.ofList value))]
    else return (rule, none) :: (← shortOptions? rules rest)

inductive Word
  | options (given : List Given)
  | operand (text : String)
  | endOfOptions
deriving DecidableEq, Repr

def Word.read? (rules : List OptionRule) (text : String) : Option Word :=
  match text.toList with
  | ['-', '-'] => some .endOfOptions
  | '-' :: '-' :: rest => (longOption? rules rest).map fun given => .options [given]
  | ['-'] => some (.operand text)
  | '-' :: rest => (shortOptions? rules rest).map .options
  | _ => some (.operand text)

/-- Adds the options of one word. The last one may still wait for its value. -/
def addGiven (arguments : Arguments) : List Given → Option (Arguments × Option OptionRule)
  | [] => some (arguments, none)
  | (rule, value) :: rest => do
    match rule.takesValue, value with
    | true, some text => addGiven (← arguments.addOption rule.name text) rest
    | true, none => if rest.isEmpty then return (arguments, some rule) else none
    | false, none => addGiven (← arguments.addOption rule.name "") rest
    | false, some _ => none

/-- Reads words behind arguments that were read before. `waiting` is the option whose value the next
word is. -/
def readFrom (rules : List OptionRule) (arguments : Arguments) (waiting : Option OptionRule) :
    List String → Option Arguments
  | [] => if waiting.isSome then none else some arguments
  | word :: rest => do
    match waiting with
    | some rule =>
      if word.toList.head? == some '-' && word != "-" then none
      else readFrom rules (← arguments.addOption rule.name word) none rest
    | none =>
      match ← Word.read? rules word with
      | .endOfOptions => return arguments.addOperands rest
      | .operand text => readFrom rules (arguments.addOperands [text]) none rest
      | .options given =>
        let (next, waiting) ← arguments.addGiven given
        readFrom rules next waiting rest

def read? (rules : List OptionRule) (words : List String) : Option Arguments :=
  readFrom rules .empty none words

end Arguments

end Z80Toolchain
