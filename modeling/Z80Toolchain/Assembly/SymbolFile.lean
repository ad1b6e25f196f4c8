import Z80Toolchain.Assembly.Symbols
import Z80Toolchain.Yaml.Mapping

/-!
Symbol tables as files: a mapping from each name to the kind and the value of its symbol, and for
several sources a mapping from their names to such tables.
-/
namespace Z80Toolchain

def Symbol.yamlLines (symbol : Symbol) : List Yaml.Line :=
  Yaml.entryLines symbol.name (.mapping
    (Yaml.entryLines "kind" (.inline symbol.kind.word)
      ++ Yaml.entryLines "value" (.inline (Numeral.signed symbol.value))))

def Symbols.yamlLines (symbols : Symbols) : List Yaml.Line :=
  symbols.entries.flatMap Symbol.yamlLines

def Symbols.yaml (symbols : Symbols) : String :=
  Yaml.document symbols.yamlLines

structure SymbolFile where
  tables : List (String × Symbols)
deriving DecidableEq, Repr

namespace SymbolFile

def empty : SymbolFile := ⟨[]⟩

/-- Adds a table; another table of the same name gives way to it, in its place. -/
def insert (file : SymbolFile) (name : String) (symbols : Symbols) : SymbolFile :=
  if file.tables.any fun table => table.1 == name then
    ⟨file.tables.map fun table => if table.1 == name then (name, symbols) else table⟩
  else ⟨file.tables ++ [(name, symbols)]⟩

def yaml (file : SymbolFile) : String :=
  Yaml.document (file.tables.flatMap fun (name, symbols) =>
    Yaml.entryLines name (.mapping symbols.yamlLines))

end SymbolFile

end Z80Toolchain
