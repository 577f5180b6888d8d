import StackProcessor.Isa.Operation

/-!
# StackProcessor — program images

An `Image` is what an assembler hands to the processor: the initial memory and the records of the
code. A record (`Instruction`) keeps the opcode and the operand as they were written. Whether they
make an executable `Operation` is decided when the record is fetched (`Instruction.operation`), and
a `DecodeFault` says why not. Only `hasProperArity` is decided earlier, when an image is loaded.

The `index` of a record is the number that it carries in the text of an image. It is shown in the
message of a fault and has no other effect; control flow goes by positions.
-/

namespace StackProcessor

/-- A record that cannot be executed, and why. -/
structure DecodeFault where
  /-- The number the record carries. -/
  index : Nat
  reason : DecodeReason
  deriving DecidableEq, Repr

/-- What is said of a record that cannot be decoded. -/
def undecodable (index : Nat) (reason : String) : String :=
  s!"cannot decode instruction {index}: {reason}"

/-- The reason with the number of the record it concerns. -/
def DecodeFault.message (fault : DecodeFault) : String :=
  undecodable fault.index fault.reason.message

/-- One record of the code. -/
structure Instruction where
  /-- The number the record carries. It is shown in messages and has no other effect. -/
  index : Nat
  opcode : Opcode
  arg : Option Word
  deriving DecidableEq, Repr, Inhabited

/-- The operation the record stands for. -/
def Instruction.operation (inst : Instruction) : Except DecodeFault Operation :=
  match Operation.decode inst.opcode inst.arg with
  | .ok op => .ok op
  | .error reason => .error ⟨inst.index, reason⟩

/-- Whether the record has an operand exactly when its opcode takes one. -/
def Instruction.hasProperArity (inst : Instruction) : Bool :=
  inst.opcode.takesOperand == inst.arg.isSome

/-- A loadable program. The first two cells of the data stand behind the ports. -/
structure Image where
  /-- The initial memory. -/
  data : List Word
  code : List Instruction
  deriving DecidableEq, Repr, Inhabited

end StackProcessor
