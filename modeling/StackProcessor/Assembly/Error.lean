import StackProcessor.Assembly.Line
import StackProcessor.Assembly.Statement

/-!
# StackProcessor — assembly errors

Why a source text does not assemble, as data. An `AssemblyError` is one of three:

* `badSyntax` — `readSource` stops at a `Position` where a line should have ended;
* `badStatement` — a statement is not allowed where it stands, with the number of its line, the text
  that was read for it, and a `StatementError` for the cause;
* `undefinedSymbol` — an operand names neither a variable nor a label.

The texts are those of `AssemblyError.message`, which for a statement goes on with
`StatementError.message`. A number that is no word is called `tooLarge` or `tooSmall` by its sign,
and the bounds on addresses fail as conversions of such numbers do.
-/

namespace StackProcessor.Assembly

/-- Why a statement is not allowed. -/
inductive StatementError where
  /-- A data section is opened after a code section. -/
  | dataAfterCode
  /-- Something other than a declaration stands in the data section. -/
  | notADeclaration
  /-- A declaration stands in the code section. -/
  | declarationInCode
  /-- No declaration has this name. -/
  | unknownDeclaration (kind : String)
  /-- The initial value does not suit the kind of declaration. -/
  | unsuitableValue (kind : String) (value : Literal)
  /-- The integer is no word. -/
  | outOfRange (n : IntegerLiteral)
  /-- A buffer is given a negative length. -/
  | negativeLength
  | duplicateVariable (name : String)
  /-- The address of a variable is no word. -/
  | dataTooLarge
  | duplicateLabel (name : String)
  /-- The address of a label is no word. -/
  | codeTooLarge
  /-- A shorthand for two instructions is given an operand. -/
  | shorthandOperand (mnemonic : String)
  | unknownInstruction (mnemonic : String)
  /-- A declaration without a name and a value stands in the code section. -/
  | declarativeInstruction (mnemonic : String)
  | missingOperand (mnemonic : String)
  | unexpectedOperand (mnemonic : String)
  deriving DecidableEq, Repr

namespace StatementError

/-- A number lies above the range of words. -/
def tooLarge : String := "number too large to fit in target type"

/-- A number lies below the range. -/
def tooSmall : String := "number too small to fit in target type"

/-- The error in words. -/
def message : StatementError → String
  | dataAfterCode => ".data shouldn't be after .code"
  | notADeclaration => "expect a data declaration"
  | declarationInCode => "declaration in code section"
  | unknownDeclaration kind => s!"wrong instruction in data section: `{kind}`"
  | unsuitableValue kind value =>
    s!"`{kind}` cannot be initialized with `{String.ofList value.spelling}`"
  | outOfRange n =>
    let cause := if n.negative then tooSmall else tooLarge
    s!"integer literal `{String.ofList n.spelling}` out of range: {cause}"
  | negativeLength => s!"buffer length must not be negative: {tooSmall}"
  | duplicateVariable name => s!"redefinition of variable: `{name}`"
  | dataTooLarge => s!"data section too large: {tooLarge}"
  | duplicateLabel name => s!"redefinition of label: `{name}`"
  | codeTooLarge => s!"code section too large: {tooLarge}"
  | shorthandOperand mnemonic => s!"`{mnemonic}` takes no operand"
  | unknownInstruction mnemonic => s!"unknown instruction `{mnemonic}`"
  | declarativeInstruction mnemonic => s!"declaration `{mnemonic}` in code section"
  | missingOperand mnemonic => s!"`{mnemonic}` requires an operand"
  | unexpectedOperand mnemonic => s!"instruction shouldn't have an argument: `{mnemonic}`"

end StatementError

/-- Why a source text does not assemble. -/
inductive AssemblyError where
  /-- A line does not end where it should. -/
  | badSyntax (position : Position)
  /-- A statement is not allowed. -/
  | badStatement (line : Nat) (text : String) (cause : StatementError)
  /-- An operand names neither a variable nor a label. -/
  | undefinedSymbol (line : Nat) (name : String)
  deriving DecidableEq, Repr

/-- The error in words. -/
def AssemblyError.message : AssemblyError → String
  | badSyntax position =>
    s!"fail to assemble source: fail to parse assembly source: {position.line}:{position.column}"
  | badStatement line text cause => s!"line {line}: {text}: {cause.message}"
  | undefinedSymbol line name => s!"line {line}: label or variable is not defined: `{name}`"

end StackProcessor.Assembly
