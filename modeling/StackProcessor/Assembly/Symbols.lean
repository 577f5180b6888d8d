import StackProcessor.Word

/-!
# StackProcessor — symbol tables

A `SymbolTable` lists names with their addresses in the order of definition. Variables and labels
have separate tables in `Symbols`, so that a variable and a label may share a name:
`Symbols.resolve` takes the variable if there is one, and otherwise the label.
-/

namespace StackProcessor.Assembly

/-- Names with their addresses, in the order of definition. -/
abbrev SymbolTable := List (String × Word)

namespace SymbolTable

/-- The names defined in a table. -/
def names (t : SymbolTable) : List String := t.map Prod.fst

/-- Defines a name. -/
def define (t : SymbolTable) (name : String) (address : Word) : SymbolTable :=
  t ++ [(name, address)]

/-- Whether a name is defined. -/
def defines (t : SymbolTable) (name : String) : Bool := (t.lookup name).isSome

end SymbolTable

/-- The names of a program. -/
structure Symbols where
  variableTable : SymbolTable
  labelTable : SymbolTable
  deriving DecidableEq, Repr, Inhabited

/-- The address that a name stands for. -/
def Symbols.resolve (s : Symbols) (name : String) : Option Word :=
  s.variableTable.lookup name <|> s.labelTable.lookup name

end StackProcessor.Assembly
