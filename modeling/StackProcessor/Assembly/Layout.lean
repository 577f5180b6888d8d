import StackProcessor.Image.Printer
import StackProcessor.Assembly.Error
import StackProcessor.Assembly.Source
import StackProcessor.Assembly.Symbols

/-!
# StackProcessor — layout

The first pass over a program. `Layout.place` adds one statement to a `Layout`, and
`Layout.placeAll` goes on until a statement is not allowed.

* A declaration (`Layout.declare`) puts its `declaredCells` behind the memory so far, and its name
  into the table of variables with the address at which they start.
* A label (`Layout.mark`) puts its name into the table of labels with the number of records so far.
* An instruction (`Layout.emit`) puts the records of its `expansion` behind the code so far. They
  are `Placeholder`s: an `Argument` may still be a name, since a label may stand further below.

A layout begins in `Part.data`, with the cells of the ports reserved (`Layout.empty`), and the
header of a code section leads to `Part.code`, from which no header leads back. Each part allows its
own statements and refuses the others with a `StatementError`. The address of a name must be a word
(`Word.ofInt?`); the cells behind the last address need not have one.
-/

namespace StackProcessor.Assembly

/-! ## What a statement contributes -/

/-- An integer literal as a word. -/
def IntegerLiteral.word (n : IntegerLiteral) : Except StatementError Word :=
  match Word.ofInt? n.value with
  | some w => .ok w
  | none => .error (.outOfRange n)

/-- The cells of a row of zeros. -/
def zeros (length : Word) : Except StatementError (List Word) :=
  if length < 0 then .error .negativeLength else .ok (List.replicate length.toInt.toNat 0)

/-- The memory cells of a declaration: one for a number, one for each character of a text and a zero
behind them, and as many zeros as the length of a buffer says. The kind is looked up before the
value is looked at. -/
def declaredCells (kind : String) (value : Literal) : Except StatementError (List Word) :=
  match Opcode.ofMnemonic? kind, value with
  | some .number, .integer n => n.word.map fun w => [w]
  | some .string, .text chars => .ok (chars.map Word.ofChar ++ [0])
  | some .buffer, .integer n => n.word.bind zeros
  | some .number, _ | some .string, _ | some .buffer, _ => .error (.unsuitableValue kind value)
  | _, _ => .error (.unknownDeclaration kind)

/-- An operand that may still be a name. -/
inductive Argument where
  | word (value : Word)
  | symbol (name : String)
  deriving DecidableEq, Repr, Inhabited

/-- A record whose operand may still be a name. -/
structure Placeholder where
  opcode : Opcode
  argument : Option Argument
  /-- The line of the source, for messages. -/
  line : Nat
  deriving DecidableEq, Repr, Inhabited

/-- An operand of the source as an argument. -/
def Operand.argument : Operand → Except StatementError Argument
  | integer n => n.word.map .word
  | symbol name => .ok (.symbol name)

/-- The records of the shorthands: `inp` reads the input port, `out` writes the output port. -/
def shorthand? (mnemonic : String) : Option (List (Opcode × Option Argument)) :=
  match mnemonic with
  | "inp" => some [(.push, some (.word Word.inputPort)), (.load, none)]
  | "out" => some [(.push2, some (.word Word.outputPort)), (.pop, none)]
  | _ => none

/-- The record of an instruction that is no shorthand. Whether there must be an operand is told by
`Opcode.takesOperand`, as it is when the record is fetched. -/
def plainRecord (mnemonic : String) (operand : Option Operand) :
    Except StatementError (Opcode × Option Argument) :=
  match Opcode.ofMnemonic? mnemonic with
  | none => .error (.unknownInstruction mnemonic)
  | some opcode =>
    if opcode.isDeclarative then .error (.declarativeInstruction mnemonic)
    else
      match opcode.takesOperand, operand with
      | true, some operand => operand.argument.map fun a => (opcode, some a)
      | true, none => .error (.missingOperand mnemonic)
      | false, some _ => .error (.unexpectedOperand mnemonic)
      | false, none => .ok (opcode, none)

/-- The records of an instruction. The mnemonic of a shorthand is found before the opcodes are
searched, and it stands alone. -/
def expansion (mnemonic : String) (operand : Option Operand) :
    Except StatementError (List (Opcode × Option Argument)) :=
  match shorthand? mnemonic with
  | some records =>
    if operand.isSome then .error (.shorthandOperand mnemonic) else .ok records
  | none => (plainRecord mnemonic operand).map fun record => [record]

/-! ## Placing statements -/

/-- The section a program is in. -/
inductive Part where
  | data
  | code
  deriving DecidableEq, Repr, Inhabited

/-- What a verbose assembler tells of its work. -/
inductive TraceEvent where
  | variable (name : String) (address : Word) (cells : List Word)
  | label (name : String) (address : Word)
  | record (inst : Instruction)
  deriving DecidableEq, Repr

/-- The event in words. -/
def TraceEvent.message : TraceEvent → String
  | .variable name address cells =>
    s!"variable {name} at {address.render}: {Word.renderList cells}"
  | .label name address => s!"label {name} at {address.render}"
  | .record inst => inst.render

/-- A program that has been placed up to some statement. -/
structure Layout where
  part : Part
  symbols : Symbols
  /-- The memory so far. -/
  data : Array Word
  /-- The code so far. -/
  code : Array Placeholder
  trace : Array TraceEvent
  deriving DecidableEq, Repr, Inhabited

namespace Layout

/-- The layout before the first statement: the data section is open and the cells behind the ports
are reserved. -/
def empty : Layout where
  part := .data
  symbols := ⟨[], []⟩
  data := Array.replicate Word.portCells 0
  code := #[]
  trace := #[]

/-- Places a declaration behind the data so far. The cells are known by now, so a name that is taken
is reported only for a declaration that is possible. -/
def declare (l : Layout) (name : String) (cells : List Word) : Except StatementError Layout :=
  if l.symbols.variableTable.defines name then .error (.duplicateVariable name)
  else
    match Word.ofInt? l.data.size with
    | none => .error .dataTooLarge
    -- the cells themselves may reach beyond the last address
    | some address =>
      .ok { l with
        symbols := { l.symbols with variableTable := l.symbols.variableTable.define name address }
        data := l.data ++ cells
        trace := l.trace.push (.variable name address cells) }

/-- Marks the end of the code so far with the name of a label. No record need follow it. -/
def mark (l : Layout) (name : String) : Except StatementError Layout :=
  if l.symbols.labelTable.defines name then .error (.duplicateLabel name)
  else
    match Word.ofInt? l.code.size with
    | none => .error .codeTooLarge
    | some address =>
      .ok { l with
        symbols := { l.symbols with labelTable := l.symbols.labelTable.define name address }
        trace := l.trace.push (.label name address) }

/-- Places records behind the code so far. -/
def emit (l : Layout) (line : Nat) (records : List (Opcode × Option Argument)) : Layout :=
  { l with code := l.code ++ records.map fun record => Placeholder.mk record.1 record.2 line }

/-- Places one statement. In `Part.data` only declarations are allowed, and in `Part.code` only
labels and instructions; a header of the part that is open already changes nothing. -/
def place (l : Layout) (line : Nat) (statement : Statement) : Except StatementError Layout :=
  match l.part, statement with
  | .data, .dataHeader => .ok l
  | .code, .dataHeader => .error .dataAfterCode
  | _, .codeHeader => .ok { l with part := .code }
  | .data, .declaration kind name value => (declaredCells kind value).bind (l.declare name)
  | .data, _ => .error .notADeclaration
  | .code, .label name => l.mark name
  | .code, .instruction mnemonic operand => (expansion mnemonic operand).map (l.emit line)
  | .code, .declaration _ _ _ => .error .declarationInCode

/-- Places statements up to the first that is not allowed. What has been placed before it is kept,
with what was told of it, since a verbose assembler tells that also of a program with an error. -/
def placeAll (l : Layout) : List Located → Layout × Option AssemblyError
  | [] => (l, none)
  | s :: rest =>
    match l.place s.line s.statement with
    | .ok l => l.placeAll rest
    | .error cause => (l, some (.badStatement s.line s.text cause))

end Layout

end StackProcessor.Assembly
