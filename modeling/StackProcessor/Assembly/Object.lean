import StackProcessor.Assembly.Layout

/-!
# StackProcessor — assembling

`assemble` reads a source text (`readSource`), lays the program out (`Layout.placeAll`) and, once
all addresses are known, numbers the records and gives each its operand (`resolveAll`). The result
is an `Object` — the `Image`, the `Symbols` and the number of lines — or the first `AssemblyError`.
That no statement is refused is known before the first operand is resolved, so an operand that names
nothing is reported only in a program whose statements are all allowed.

The trace is what a verbose assembler tells, up to the error if there is one. It is dropped if
`verbose` is false, and `result` does not depend on it.
-/

namespace StackProcessor.Assembly

/-- What a source text assembles to. -/
structure Object where
  image : Image
  symbols : Symbols
  /-- Number of lines of the source. -/
  lines : Nat
  deriving DecidableEq, Repr, Inhabited

/-- The operand of a record. -/
def Placeholder.resolve (symbols : Symbols) (p : Placeholder) :
    Except AssemblyError (Option Word) :=
  match p.argument with
  | none => .ok none
  | some (.word w) => .ok (some w)
  | some (.symbol name) =>
    match symbols.resolve name with
    | some w => .ok (some w)
    | none => .error (.undefinedSymbol p.line name)

/-- The records of the code, numbered from `index`, up to the first that names nothing. -/
def resolveAll (symbols : Symbols) (index : Nat) :
    List Placeholder → List Instruction × Option AssemblyError
  | [] => ([], none)
  | p :: rest =>
    match p.resolve symbols with
    | .error e => ([], some e)
    | .ok arg =>
      let (code, error?) := resolveAll symbols (index + 1) rest
      (⟨index, p.opcode, arg⟩ :: code, error?)

/-- What became of a source text. -/
structure Assembled where
  result : Except AssemblyError Object
  /-- What a verbose assembler tells, up to the first error. -/
  trace : List TraceEvent

/-- Number of lines of a text, where only line feeds end one. -/
def countLines (source : List Char) : Nat := source.count '\n' + 1

/-- Assembles a program that has been read. -/
def assembleStatements (lines : Nat) (statements : List Located) : Assembled :=
  match Layout.empty.placeAll statements with
  | (layout, some e) => ⟨.error e, layout.trace.toList⟩
  | (layout, none) =>
    let (code, error?) := resolveAll layout.symbols 0 layout.code.toList
    -- the records before an undefined name are told as well
    let trace := layout.trace.toList ++ code.map TraceEvent.record
    match error? with
    | some e => ⟨.error e, trace⟩
    | none => ⟨.ok ⟨⟨layout.data.toList, code⟩, layout.symbols, lines⟩, trace⟩

/-- Assembles a source text. -/
def assemble (source : String) (verbose : Bool) : Assembled :=
  let chars := source.toList
  match readSource chars with
  | .error position => ⟨.error (.badSyntax position), []⟩
  | .ok statements =>
    let assembled := assembleStatements (countLines chars) statements
    if verbose then assembled else { assembled with trace := [] }

end StackProcessor.Assembly
