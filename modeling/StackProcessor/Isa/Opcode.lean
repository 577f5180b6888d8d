/-!
# StackProcessor — opcodes

The sixteen opcodes of the processor. An `Opcode` has a `mnemonic`, by which source texts and images
know it, and a `name`, under which traces show it. `takesOperand` says whether a record of the
opcode carries an operand. The last three opcodes are declarations (`isDeclarative`): they reserve
memory while a program is assembled and are never executed.

## Results
- `Opcode.ofMnemonic?_mnemonic` : `ofMnemonic? op.mnemonic = some op`, so no two opcodes share a
  mnemonic.
-/

namespace StackProcessor

/-- What an instruction record asks the processor to do. -/
inductive Opcode where
  /-- Stop the run. -/
  | halt
  /-- Continue at the instruction whose number is the operand. -/
  | jump
  /-- Continue there if the top of the stack is zero. -/
  | jz
  /-- Push the operand. -/
  | push
  /-- Duplicate the top and put the operand below the copy. -/
  | push2
  /-- Store the top at the address held below it, and drop both. -/
  | pop
  /-- Replace the top by the cell it addresses. -/
  | load
  /-- Forget the top. -/
  | drop
  /-- Duplicate the top. -/
  | dup
  /-- Add one to the top. -/
  | inc
  /-- Replace the two topmost cells by their sum. -/
  | add
  /-- Replace them by their quotient. -/
  | div
  /-- Replace them by their remainder. -/
  | mod
  /-- Declare a cell with a value. -/
  | number
  /-- Declare a text that ends with a zero cell. -/
  | string
  /-- Declare a row of zero cells. -/
  | buffer
  deriving DecidableEq, Repr, Inhabited

namespace Opcode

/-- Every opcode, in the order of their numbering. -/
def all : List Opcode :=
  [halt, jump, jz, push, push2, pop, load, drop, dup, inc, add, div, mod, number, string, buffer]

/-- The word that stands for the opcode in source text and in images. -/
def mnemonic : Opcode → String
  | halt => "hlt"
  | jump => "jmp"
  | jz => "jmz"
  | push => "psh"
  | push2 => "psh2"
  | pop => "pop"
  | load => "get"
  | drop => "drp"
  | dup => "dup"
  | inc => "inc"
  | add => "add"
  | div => "div"
  | mod => "mod"
  | number => "num"
  | string => "str"
  | buffer => "buf"

/-- The opcode with a given mnemonic. -/
def ofMnemonic? (s : String) : Option Opcode :=
  all.find? fun op => op.mnemonic == s

/-- The name under which traces show the opcode. -/
def name : Opcode → String
  | halt => "HALT"
  | jump => "JUMP"
  | jz => "JZ"
  | push => "PUSH"
  | push2 => "PUSH2"
  | pop => "POP"
  | load => "LOAD"
  | drop => "DROP"
  | dup => "DUP"
  | inc => "INC"
  | add => "ADD"
  | div => "DIV"
  | mod => "MOD"
  | number => "NUMBER"
  | string => "STRING"
  | buffer => "BUFFER"

/-- Whether a record of this opcode carries an operand. -/
def takesOperand : Opcode → Bool
  | jump | jz | push | push2 | number | string | buffer => true
  | _ => false

/-- Whether the opcode declares data and cannot be executed. -/
def isDeclarative : Opcode → Bool
  | number | string | buffer => true
  | _ => false

/-! ## Mnemonics identify opcodes -/

theorem ofMnemonic?_mnemonic (op : Opcode) : ofMnemonic? op.mnemonic = some op := by
  cases op <;> rfl

theorem mem_all (op : Opcode) : op ∈ all := by
  cases op <;> simp [all]

end Opcode

end StackProcessor
