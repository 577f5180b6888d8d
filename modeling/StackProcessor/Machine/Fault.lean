import StackProcessor.Image.Basic

/-!
# StackProcessor — what can end an instruction cycle

A cycle ends early with an `Interrupt`. Halting and running out of input are regular ways to stop;
the third kind is a `Fault`, after which the run has no result. A fault is a `DecodeFault` of the
record that was fetched, or a `RuntimeFault`: a demand of an operation that the state cannot meet.
`Interrupt.ofRuntime` is the pattern for the latter.
-/

namespace StackProcessor

/-- A demand that the state of the machine cannot meet. -/
inductive RuntimeFault where
  /-- The stack pointer would move past the last cell of a stack of this capacity. -/
  | stackOverflow (capacity : Nat)
  /-- A cell was asked for that lies below the bottom of the stack. -/
  | stackUnderflow
  /-- No memory cell has this address. -/
  | badAddress (address : Word)
  /-- There is no instruction with this number. -/
  | pcOutOfRange (pc : Nat)
  deriving DecidableEq, Repr

/-- Why a run has no result. -/
inductive Fault where
  | decode (fault : DecodeFault)
  | runtime (fault : RuntimeFault)
  deriving DecidableEq, Repr

/-- What cuts an instruction cycle short. -/
inductive Interrupt where
  /-- The program asked to stop. -/
  | halt
  /-- The input port was read and no character was left. -/
  | inputExhausted
  | fault (fault : Fault)
  deriving DecidableEq, Repr

/-- A runtime fault, as an interrupt. -/
@[match_pattern]
def Interrupt.ofRuntime (fault : RuntimeFault) : Interrupt := .fault (.runtime fault)

/-! ## Wording -/

/-- The fault in words. -/
def RuntimeFault.message : RuntimeFault → String
  | .stackOverflow capacity => s!"stack overflow (capacity {capacity})"
  | .stackUnderflow => "stack underflow"
  | .badAddress address => s!"memory address {address.render} out of range"
  | .pcOutOfRange pc => s!"program counter {pc} is past the end of code"

/-- The fault in words, with its kind. -/
def Fault.message : Fault → String
  | .decode f => f.message
  | .runtime f => s!"runtime fault: {f.message}"

/-- The interrupt in words. -/
def Interrupt.message : Interrupt → String
  | .halt => "halted"
  | .inputExhausted => "input buffer is empty"
  | .fault f => f.message

end StackProcessor
