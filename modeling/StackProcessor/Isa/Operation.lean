import StackProcessor.Word
import StackProcessor.Isa.Opcode

/-!
# StackProcessor — executable operations

An `Operation` is an opcode together with a checked operand, so that nothing is left to verify when
it is executed. `Operation.decode` makes one from an opcode and an optional operand, or gives the
`DecodeReason` why there is none: the opcode declares data, a jump leads below zero, or the operand
is one too many or missing.

Arithmetic acts on the two topmost stack cells: the top is the *left* operand, the cell below it the
*right* one, and the result is `right op left`. `AluOp.result` computes it in 64 bits, and
`AluOp.eval` reduces it into the word range. Division of 64 bits rounds towards zero and is
corrected to round to the floor; the remainder then has the sign of the divisor; and dividing by
zero gives `AluOp.zeroDivisor` in both cases.
-/

namespace StackProcessor

/-! ## Arithmetic -/

/-- The operations of the arithmetic unit. -/
inductive AluOp where
  | add
  | div
  | mod
  deriving DecidableEq, Repr, Inhabited

namespace AluOp

/-- The opcode that asks for the operation. -/
def opcode : AluOp → Opcode
  | add => .add
  | div => .div
  | mod => .mod

/-- The answer of a division whose divisor is zero. -/
def zeroDivisor : Int64 := -1

/-- Whether one of two numbers is negative and the other is not. -/
def signsDiffer (a b : Int64) : Bool := decide (a < 0) != decide (b < 0)

/-- `right op left` in 64 bits, before it is reduced into the word range. Division of such numbers
rounds towards zero, so that a quotient that was rounded up is corrected by one, and a remainder
with the wrong sign by the divisor. -/
def result (op : AluOp) (left right : Int64) : Int64 :=
  match op with
  | add => right + left
  | div =>
    if left = 0 then zeroDivisor
    else
      let quotient := right / left
      if right % left ≠ 0 ∧ signsDiffer right left then quotient - 1 else quotient
  | mod =>
    if left = 0 then zeroDivisor
    else
      let remainder := right % left
      if remainder ≠ 0 ∧ signsDiffer remainder left then remainder + left else remainder

/-- `right op left`, reduced into the word range. -/
def eval (op : AluOp) (left right : Word) : Word :=
  Word.wrap (op.result left.toInt64 right.toInt64).toInt

end AluOp

/-! ## Decoding -/

/-- Why an opcode and an optional operand make no operation. -/
inductive DecodeReason where
  /-- The opcode declares data. -/
  | declaration (opcode : Opcode)
  /-- A jump leads to a negative instruction number. -/
  | negativeTarget (target : Word)
  /-- There is an operand and the opcode takes none. -/
  | unexpectedOperand (opcode : Opcode)
  /-- The opcode takes an operand and there is none. -/
  | missingOperand (opcode : Opcode)
  deriving DecidableEq, Repr

namespace DecodeReason

/-- The reason in words. -/
def message : DecodeReason → String
  | declaration op => s!"`{op.mnemonic}` is a declaration, not an instruction"
  | negativeTarget target => s!"negative jump target {target.render}"
  | unexpectedOperand op => s!"`{op.mnemonic}` takes no operand"
  | missingOperand op => s!"`{op.mnemonic}` requires an operand"

end DecodeReason

/-- An instruction that can be executed. -/
inductive Operation where
  | halt
  | jump (target : Nat)
  | jz (target : Nat)
  | push (value : Word)
  | push2 (value : Word)
  | pop
  | load
  | drop
  | dup
  | inc
  | alu (op : AluOp)
  deriving DecidableEq, Repr, Inhabited

namespace Operation

/-- The opcode the operation is decoded from. -/
def opcode : Operation → Opcode
  | halt => .halt
  | jump _ => .jump
  | jz _ => .jz
  | push _ => .push
  | push2 _ => .push2
  | pop => .pop
  | load => .load
  | drop => .drop
  | dup => .dup
  | inc => .inc
  | alu op => op.opcode

/-- A jump target as an instruction number. -/
def target (value : Word) : Except DecodeReason Nat :=
  if value < 0 then .error (.negativeTarget value) else .ok value.toInt.toNat

/-- The operation of an opcode that needs no operand. -/
def plain? : Opcode → Option Operation
  | .halt => some halt
  | .pop => some pop
  | .load => some load
  | .drop => some drop
  | .dup => some dup
  | .inc => some inc
  | .add => some (alu .add)
  | .div => some (alu .div)
  | .mod => some (alu .mod)
  | _ => none

/-- The operation an opcode and its optional operand stand for. -/
def decode (op : Opcode) (arg : Option Word) : Except DecodeReason Operation :=
  if op.isDeclarative then
    .error (.declaration op)
  else
    match op, arg with
    | .jump, some v => (target v).map jump
    | .jz, some v => (target v).map jz
    | .push, some v => .ok (push v)
    | .push2, some v => .ok (push2 v)
    | _, some _ => .error (.unexpectedOperand op)
    | _, none =>
      match plain? op with
      | some operation => .ok operation
      | none => .error (.missingOperand op)

end Operation

end StackProcessor
