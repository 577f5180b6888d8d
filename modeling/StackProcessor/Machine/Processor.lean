import StackProcessor.Machine.Microcode

/-!
# StackProcessor — the processor

A `Processor` is the control unit over a `Datapath`: program counter `pc`, instruction register and
tick counter. `Processor.cycle` fetches the record at `pc`, decodes it and performs the steps of its
microcode (`Processor.perform`) until one is interrupted; the processor is then left in the state
that it had reached. A record that does not exist or does not decode is not put into the register,
and the counter stays where it is.

## Results
- `Processor.tick_lt_of_cycle` : `p.cycle = .completed q` implies `p.tick < q.tick`, by which a run
  with a tick limit ends.
-/

namespace StackProcessor

/-- The whole machine. -/
structure Processor where
  code : Array Instruction
  /-- The number of the next instruction. -/
  pc : Nat
  /-- The instruction register, empty before the first fetch. -/
  register : Option Instruction
  /-- Ticks since the start. -/
  tick : Nat
  datapath : Datapath
  deriving DecidableEq, Repr, Inhabited

namespace Processor

/-- The processor before the first cycle. -/
def initial (image : Image) (capacity : Nat) (input : List Char) : Processor where
  code := image.code.toArray
  pc := 0
  register := none
  tick := 0
  datapath := Datapath.initial image.data capacity input

/-- Lets one tick pass. -/
def passTick (p : Processor) : Processor := { p with tick := p.tick + 1 }

/-- Drives one signal. -/
def drive (p : Processor) (s : Signal) : Attempt Processor :=
  -- taking the processor apart leaves the datapath unshared, and it can be updated in place
  match p with
  | ⟨code, pc, register, tick, datapath⟩ =>
    (datapath.drive s).map fun d => ⟨code, pc, register, tick, d⟩

/-- Performs one step. Only `Step.drive`, `Step.branch` on an empty stack and `Step.halt` can be
interrupted. -/
def step (p : Processor) : Step → Attempt Processor
  | .drive s => p.drive s
  | .tick => .completed p.passTick
  | .jump target => .completed { p with pc := target }
  | .branch target =>
    match p.datapath.zero? with
    | some true => .completed { p with pc := target }
    | some false => .completed p
    | none => .interrupted p (.ofRuntime .stackUnderflow)
  | .halt => .interrupted p .halt

/-- Performs steps until one is interrupted. What the steps before it did is not undone. -/
def perform (p : Processor) : List Step → Attempt Processor
  | [] => .completed p
  | s :: rest => (p.step s).andThen fun q => q.perform rest

/-- Puts a record into the instruction register. The counter advances and a tick passes. -/
def fetch (p : Processor) (inst : Instruction) : Processor :=
  { p with register := some inst, pc := p.pc + 1, tick := p.tick + 1 }

/-- Runs one instruction cycle. A `RuntimeFault` of the fetch and a `DecodeFault` leave the
processor as it was; an interrupted step leaves it with the record in the register, the counter
advanced and the ticks so far. -/
def cycle (p : Processor) : Attempt Processor :=
  match p.code[p.pc]? with
  | none => .interrupted p (.ofRuntime (.pcOutOfRange p.pc))
  | some inst =>
    match inst.operation with
    | .error fault => .interrupted p (.fault (.decode fault))
    | .ok op => (p.fetch inst).perform op.microcode

/-- Runs `n` cycles and goes on after whatever interrupts one. -/
def cycles (p : Processor) : Nat → Processor
  | 0 => p
  | n + 1 => (p.cycle.state).cycles n

/-! ## The clock -/

theorem tick_drive (p : Processor) (s : Signal) : (p.drive s).state.tick = p.tick := by
  rcases p with ⟨code, pc, register, tick, datapath⟩
  simp [drive]

theorem tick_le_step (p : Processor) (s : Step) : p.tick ≤ (p.step s).state.tick := by
  cases s with
  | drive s => exact Nat.le_of_eq (tick_drive p s).symm
  | tick => simp [step, passTick]
  | jump target => simp [step]
  | branch target => simp only [step]; split <;> simp
  | halt => simp [step]

theorem tick_le_perform (p : Processor) (steps : List Step) :
    p.tick ≤ (p.perform steps).state.tick := by
  induction steps generalizing p with
  | nil => simp [perform]
  | cons s rest ih =>
    have hs := tick_le_step p s
    simp only [perform, Attempt.andThen]
    split
    · rename_i q hq
      rw [hq, Attempt.state_completed] at hs
      exact Nat.le_trans hs (ih q)
    · rename_i q cause hq
      rwa [hq] at hs

theorem tick_lt_of_cycle {p q : Processor} (h : p.cycle = .completed q) : p.tick < q.tick := by
  unfold cycle at h
  split at h
  · cases h
  · rename_i inst _
    split at h
    · cases h
    -- the fetch has moved the clock, and the steps do not move it back
    · rename_i op _
      have hle := tick_le_perform (p.fetch inst) op.microcode
      rw [h, Attempt.state_completed] at hle
      simp only [fetch] at hle
      omega

end Processor

end StackProcessor
