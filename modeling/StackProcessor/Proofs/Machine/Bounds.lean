import StackProcessor.Machine.Processor
import StackProcessor.Proofs.Basic

/-!
# StackProcessor — bounds of the datapath

`Datapath.slot?` looks at the lower end of the stack only, so that the row of cells is never left at
its upper end rests on an invariant, `Datapath.Bounded`: no more cells are in use than there are.
Every `Signal` keeps it (`bounded_drive`), in any order and also when it is interrupted halfway, and
a cycle drives nothing but signals.

The depth is a natural number, and the pointer `stackPointer = depth - 1` an integer. That no move
brings it below `-1` must not come from subtraction on natural numbers, which stops at zero:
`Datapath.move_eq_pointer` says of the integer what `Datapath.move` does, with a test at either end
and `StackMove.delta` added to the pointer in between.

What passes the ports is bounded by `Traffic d e sent taken`: the output has grown at its end by at
most `sent` words, and the input has shrunk at its front by at most `taken` characters.

## Results
- `Datapath.move_eq_pointer`, `Datapath.stackPointer_of_move` : a move changes the pointer by
  exactly its `delta`, and is interrupted exactly where that would leave the cells.
- `Datapath.bounded_drive` : every signal keeps `Bounded`.
- `Datapath.traffic_drive` : a signal sends at most `Signal.sends` words and takes at most
  `Signal.takes` characters, and neither is more than one.
- `Processor.traffic_cycle` : nor does a whole cycle send or take more than one.
- `Processor.datapath_cycles` : what every signal keeps, `Processor.cycles` keeps.
-/

namespace StackProcessor

/-- By how many cells the stack pointer moves. -/
def StackMove.delta : StackMove → Int
  | up => 1
  | down => -1
  | downTwo => -2

namespace Datapath

/-- No more stack cells are in use than there are. -/
def Bounded (d : Datapath) : Prop := d.depth ≤ d.stack.size

instance (d : Datapath) : Decidable d.Bounded := inferInstanceAs (Decidable (_ ≤ _))

theorem bounded_initial (memory : List Word) (capacity : Nat) (input : List Char) :
    (initial memory capacity input).Bounded := by
  simp [Bounded, initial]

-- ---------------------------------------------------------------------------
-- The pointer as an integer
-- ---------------------------------------------------------------------------

/-- Lowering the pointer, said of the pointer as an integer. -/
theorem lower_eq_pointer (d : Datapath) (n : Nat) :
    d.lower n =
      if d.stackPointer - n < -1 then .interrupted d (.ofRuntime .stackUnderflow)
      else .completed { d with depth := (d.stackPointer - n + 1).toNat } := by
  have hBelow : d.stackPointer - n < -1 ↔ d.depth < n := by
    unfold stackPointer
    omega
  have hDepth : (d.stackPointer - n + 1).toNat = d.depth - n := by
    unfold stackPointer
    omega
  simp only [lower, hBelow, hDepth]

/-- A move, said of the pointer as an integer: it is moved by exactly its `delta` and must stay
between `-1` and the last cell, or else nothing moves. -/
theorem move_eq_pointer {d : Datapath} (h : d.Bounded) (m : StackMove) :
    d.move m =
      if d.stackPointer + m.delta < -1 then .interrupted d (.ofRuntime .stackUnderflow)
      else if d.stack.size ≤ d.stackPointer + m.delta then
        .interrupted d (.ofRuntime (.stackOverflow d.stack.size))
      else .completed { d with depth := (d.stackPointer + m.delta + 1).toNat } := by
  unfold Bounded at h
  have hUp : d.stackPointer + 1 = d.depth := Int.sub_add_cancel _ _
  have hTop : d.stackPointer < d.stack.size := by omega
  cases m with
  | up =>
    have hRoom : d.depth < d.stack.size ↔ ¬ (d.stack.size : Int) ≤ d.depth := by omega
    have hAbove : ¬ (d.depth : Int) < -1 := by omega
    simp only [move, StackMove.delta, hUp, if_neg hAbove, hRoom, ite_not]
    rfl
  | down =>
    have hDelta : d.stackPointer + StackMove.down.delta = d.stackPointer - (1 : Nat) := rfl
    have hInside : ¬ (d.stack.size : Int) ≤ d.stackPointer - (1 : Nat) := by omega
    rw [hDelta, if_neg hInside]
    exact d.lower_eq_pointer 1
  | downTwo =>
    have hDelta : d.stackPointer + StackMove.downTwo.delta = d.stackPointer - (2 : Nat) := rfl
    have hInside : ¬ (d.stack.size : Int) ≤ d.stackPointer - (2 : Nat) := by omega
    rw [hDelta, if_neg hInside]
    exact d.lower_eq_pointer 2

/-- A move that goes through moves the pointer by exactly its `delta`. -/
theorem stackPointer_of_move {d e : Datapath} (h : d.Bounded) {m : StackMove}
    (hMove : d.move m = .completed e) : e.stackPointer = d.stackPointer + m.delta := by
  rw [move_eq_pointer h] at hMove
  split at hMove
  · cases hMove
  · split at hMove
    · cases hMove
    · cases hMove
      unfold stackPointer at *
      simp only
      omega

-- ---------------------------------------------------------------------------
-- Every signal keeps the bounds
-- ---------------------------------------------------------------------------

theorem depth_poke (d : Datapath) (k : Nat) (value : Word) :
    (d.poke k value).state.depth = d.depth := by
  unfold poke
  split <;> rfl

theorem bounded_poke {d : Datapath} (h : d.Bounded) (k : Nat) (value : Word) :
    (d.poke k value).state.Bounded := by
  unfold Bounded
  rw [depth_poke, size_stack_poke]
  exact h

theorem bounded_lower {d : Datapath} (h : d.Bounded) (n : Nat) : (d.lower n).state.Bounded := by
  unfold lower
  unfold Bounded at h
  split
  · exact h
  · simp only [Attempt.state_completed, Bounded]
    omega

theorem bounded_move {d : Datapath} (h : d.Bounded) (m : StackMove) :
    (d.move m).state.Bounded := by
  cases m with
  | up =>
    simp only [move]
    split
    · -- there is a cell above the ones in use
      rename_i hroom
      simp only [Attempt.state_completed, Bounded]
      omega
    · exact h
  | down => exact bounded_lower h 1
  | downTwo => exact bounded_lower h 2

/-- A property that holds with and without the cell holds of what becomes of the attempt. -/
theorem state_withWord {P : Datapath → Prop} {d : Datapath} {next : Word → Attempt Datapath}
    (hd : P d) (hnext : ∀ w, P (next w).state) (word? : Option Word) :
    P (d.withWord word? next).state := by
  cases word? with
  | none => exact hd
  | some w => exact hnext w

theorem state_withCell {P : Datapath → Prop} {d : Datapath} {next : Nat → Attempt Datapath}
    (hd : P d) (hnext : ∀ i, P (next i).state) (address : Word) :
    P (d.withCell address next).state := by
  unfold withCell
  split
  · exact hnext _
  · exact hd

theorem bounded_receive {d : Datapath} (h : d.Bounded) : d.receive.state.Bounded := by
  unfold receive
  split
  · exact h
  · rename_i c rest _
    have hrest : Bounded { d with input := rest } := h
    exact bounded_poke hrest 0 (Word.ofChar c)

theorem bounded_drive {d : Datapath} (h : d.Bounded) (s : Signal) : (d.drive s).state.Bounded := by
  cases s with
  | latchAddress source =>
    cases source
    all_goals
      apply state_withWord h
      intro w
      exact h
  | moveStack m => exact bounded_move h m
  | latchTop source =>
    cases source with
    | literal v => exact bounded_poke h 0 v
    | second => exact state_withWord h (fun w => bounded_poke h 0 w) _
    | memory =>
      -- the word comes from the input port or from a memory cell
      simp only [drive]
      split
      · exact bounded_receive h
      · exact state_withCell h (fun _ => bounded_poke h 0 _) _
    | increment => exact state_withWord h (fun _ => bounded_poke h 0 _) _
  | latchSecond source =>
    cases source with
    | literal v => exact bounded_poke h 1 v
    | alu op =>
      exact state_withWord h (fun _ => state_withWord h (fun _ => bounded_poke h 1 _) _) _
  | store =>
    -- neither the output port nor the memory touches the stack
    simp only [drive]
    split
    · apply state_withWord h
      intro w
      exact h
    · apply state_withCell h
      intro i
      apply state_withWord h
      intro w
      exact h

-- ---------------------------------------------------------------------------
-- Traffic at the ports
-- ---------------------------------------------------------------------------

/-- From `d` to `e` at most `sent` words were sent and at most `taken` characters taken: the output
has grown at its end and the input shrunk at its front. -/
structure Traffic (d e : Datapath) (sent taken : Nat) : Prop where
  output_prefix : d.output.toList <+: e.output.toList
  output_size : e.output.size ≤ d.output.size + sent
  input_suffix : e.input <:+ d.input
  input_length : d.input.length ≤ e.input.length + taken

theorem Traffic.of_eq {d e : Datapath} (ho : e.output = d.output) (hi : e.input = d.input)
    (sent taken : Nat) : Traffic d e sent taken where
  output_prefix := ho ▸ List.prefix_rfl
  output_size := by
    rw [ho]
    omega
  input_suffix := hi ▸ List.suffix_rfl
  input_length := by
    rw [hi]
    omega

theorem Traffic.trans {d e f : Datapath} {sent₁ taken₁ sent₂ taken₂ : Nat}
    (hde : Traffic d e sent₁ taken₁) (hef : Traffic e f sent₂ taken₂) :
    Traffic d f (sent₁ + sent₂) (taken₁ + taken₂) where
  output_prefix := hde.output_prefix.trans hef.output_prefix
  output_size := by
    have h₁ := hde.output_size
    have h₂ := hef.output_size
    omega
  input_suffix := hef.input_suffix.trans hde.input_suffix
  input_length := by
    have h₁ := hde.input_length
    have h₂ := hef.input_length
    omega

theorem Traffic.mono {d e : Datapath} {sent taken sent' taken' : Nat} (h : Traffic d e sent taken)
    (hs : sent ≤ sent') (ht : taken ≤ taken') : Traffic d e sent' taken' where
  output_prefix := h.output_prefix
  output_size := Nat.le_trans h.output_size (Nat.add_le_add_left hs _)
  input_suffix := h.input_suffix
  input_length := Nat.le_trans h.input_length (Nat.add_le_add_left ht _)

theorem Traffic.send (d : Datapath) (w : Word) :
    Traffic d { d with output := d.output.push w } 1 0 where
  output_prefix := by simp
  output_size := by simp
  input_suffix := List.suffix_rfl
  input_length := Nat.le_refl _

theorem Traffic.take {d : Datapath} {c : Char} {rest : List Char} (h : d.input = c :: rest) :
    Traffic d { d with input := rest } 0 1 where
  output_prefix := List.prefix_rfl
  output_size := Nat.le_refl _
  input_suffix := by
    rw [h]
    exact List.suffix_cons c rest
  input_length := by
    rw [h]
    exact Nat.le_refl _

theorem traffic_poke (d : Datapath) (k : Nat) (value : Word) (sent taken : Nat) :
    Traffic d (d.poke k value).state sent taken := by
  unfold poke
  split <;> apply Traffic.of_eq <;> rfl

theorem traffic_move (d : Datapath) (m : StackMove) (sent taken : Nat) :
    Traffic d (d.move m).state sent taken := by
  cases m
  all_goals
    simp only [move, lower]
    split <;> apply Traffic.of_eq <;> rfl

theorem traffic_receive (d : Datapath) : Traffic d d.receive.state 0 1 := by
  unfold receive
  split
  · apply Traffic.of_eq <;> rfl
  · rename_i c rest hinput
    exact (Traffic.take hinput).trans (traffic_poke _ 0 (Word.ofChar c) 0 0)

end Datapath

/-- How many words a signal may send. -/
def Signal.sends : Signal → Nat
  | store => 1
  | _ => 0

/-- How many characters a signal may take. -/
def Signal.takes : Signal → Nat
  | latchTop .memory => 1
  | _ => 0

theorem Signal.sends_le_one (s : Signal) : s.sends ≤ 1 := by
  unfold sends
  split <;> omega

theorem Signal.takes_le_one (s : Signal) : s.takes ≤ 1 := by
  unfold takes
  split <;> omega

namespace Datapath

theorem traffic_withWord {d : Datapath} {next : Word → Attempt Datapath} {sent taken : Nat}
    (h : ∀ w, Traffic d (next w).state sent taken) (word? : Option Word) :
    Traffic d (d.withWord word? next).state sent taken :=
  state_withWord (P := fun e => Traffic d e sent taken) (Traffic.of_eq rfl rfl sent taken) h word?

theorem traffic_withCell {d : Datapath} {next : Nat → Attempt Datapath} {sent taken : Nat}
    (h : ∀ i, Traffic d (next i).state sent taken) (address : Word) :
    Traffic d (d.withCell address next).state sent taken :=
  state_withCell (P := fun e => Traffic d e sent taken) (Traffic.of_eq rfl rfl sent taken) h address

/-- What a signal may send and take. -/
theorem traffic_drive (d : Datapath) (s : Signal) :
    Traffic d (d.drive s).state s.sends s.takes := by
  cases s with
  | latchAddress source =>
    cases source
    all_goals
      apply traffic_withWord
      intro w
      apply Traffic.of_eq <;> rfl
  | moveStack m => exact traffic_move d m 0 0
  | latchTop source =>
    cases source with
    | literal v => exact traffic_poke d 0 v 0 0
    | second => exact traffic_withWord (fun w => traffic_poke d 0 w 0 0) _
    | memory =>
      simp only [drive]
      split
      · exact traffic_receive d
      · exact traffic_withCell (fun i => traffic_poke d 0 _ 0 1) _
    | increment => exact traffic_withWord (fun w => traffic_poke d 0 _ 0 0) _
  | latchSecond source =>
    cases source with
    | literal v => exact traffic_poke d 1 v 0 0
    | alu op =>
      apply traffic_withWord
      intro left
      exact traffic_withWord (fun right => traffic_poke d 1 _ 0 0) _
  | store =>
    simp only [drive]
    split
    · exact traffic_withWord (fun w => Traffic.send d w) _
    · apply traffic_withCell
      intro i
      apply traffic_withWord
      intro w
      apply Traffic.of_eq <;> rfl

-- ---------------------------------------------------------------------------
-- Runs of signals
-- ---------------------------------------------------------------------------

/-- Drives signals one after the other, and goes on after one that is interrupted. -/
def driveAll (d : Datapath) (signals : List Signal) : Datapath :=
  signals.foldl (fun e s => (e.drive s).state) d

/-- What holds of every datapath that started with this memory, capacity and input. -/
structure Within (memory : List Word) (capacity : Nat) (input : List Char) (d : Datapath) :
    Prop where
  pointer_lower : -1 ≤ d.stackPointer
  pointer_upper : d.stackPointer < d.stack.size
  stack_size : d.stack.size = capacity
  memory_size : d.memory.size = memory.length
  input_suffix : d.input <:+ input

theorem bounded_iff_stackPointer_lt {d : Datapath} :
    d.Bounded ↔ d.stackPointer < d.stack.size := by
  unfold Bounded stackPointer
  omega

variable {memory : List Word} {capacity : Nat} {input : List Char}

theorem Within.bounded {d : Datapath} (h : Within memory capacity input d) : d.Bounded :=
  bounded_iff_stackPointer_lt.mpr h.pointer_upper

theorem within_initial (memory : List Word) (capacity : Nat) (input : List Char) :
    Within memory capacity input (initial memory capacity input) where
  pointer_lower := by simp [stackPointer, initial]
  pointer_upper := bounded_iff_stackPointer_lt.mp (bounded_initial memory capacity input)
  stack_size := by simp [initial]
  memory_size := by simp [initial]
  input_suffix := List.suffix_rfl

/-- One signal, whatever becomes of it. -/
theorem within_drive {d : Datapath} (h : Within memory capacity input d) (s : Signal) :
    Within memory capacity input (d.drive s).state where
  pointer_lower := by
    unfold stackPointer
    omega
  pointer_upper := bounded_iff_stackPointer_lt.mp (bounded_drive h.bounded s)
  stack_size := by
    rw [size_stack_drive]
    exact h.stack_size
  memory_size := by
    rw [size_memory_drive]
    exact h.memory_size
  input_suffix := (traffic_drive d s).input_suffix.trans h.input_suffix

theorem within_driveAll {d : Datapath} (h : Within memory capacity input d)
    (signals : List Signal) : Within memory capacity input (d.driveAll signals) := by
  induction signals generalizing d with
  | nil => exact h
  | cons s rest ih => exact ih (within_drive h s)

/-- Every signal sends at most one word and takes at most one character. -/
theorem traffic_driveAll (d : Datapath) (signals : List Signal) :
    Traffic d (d.driveAll signals) signals.length signals.length := by
  induction signals generalizing d with
  | nil => exact Traffic.of_eq rfl rfl 0 0
  | cons s rest ih =>
    have hs := (traffic_drive d s).mono s.sends_le_one s.takes_le_one
    have h := hs.trans (ih (d.drive s).state)
    rw [Nat.add_comm] at h
    exact h

end Datapath

-- ---------------------------------------------------------------------------
-- Cycles
-- ---------------------------------------------------------------------------

namespace Processor

theorem datapath_drive (p : Processor) (s : Signal) :
    (p.drive s).state.datapath = (p.datapath.drive s).state := by
  simp [drive]

/-- What a step does to the datapath: either it drives a signal or it leaves the datapath alone. -/
theorem step_cases (p : Processor) (s : Step) :
    (∃ signal, s = .drive signal ∧ (p.step s).state.datapath = (p.datapath.drive signal).state) ∨
      (p.step s).state.datapath = p.datapath := by
  cases s with
  | drive signal => exact Or.inl ⟨signal, rfl, datapath_drive p signal⟩
  | tick => exact Or.inr rfl
  | jump target => exact Or.inr rfl
  | branch target =>
    right
    simp only [step]
    split <;> rfl
  | halt => exact Or.inr rfl

/-- What every signal keeps, every step keeps. -/
theorem datapath_step {P : Datapath → Prop} (hP : ∀ d s, P d → P (d.drive s).state)
    (p : Processor) (s : Step) (h : P p.datapath) : P (p.step s).state.datapath := by
  rcases step_cases p s with ⟨signal, _, heq⟩ | heq
  · rw [heq]
    exact hP p.datapath signal h
  · rwa [heq]

/-- What each of the steps keeps, all of them keep, also when they are cut short. -/
theorem state_perform {P : Processor → Prop} {steps : List Step}
    (hStep : ∀ q, P q → ∀ s ∈ steps, P (q.step s).state) {p : Processor} (h : P p) :
    P (p.perform steps).state := by
  induction steps generalizing p with
  | nil => exact h
  | cons s rest ih =>
    have hs := hStep p h s List.mem_cons_self
    have hRest : ∀ q, P q → ∀ s' ∈ rest, P (q.step s').state := by
      intro q hq s' hMem
      exact hStep q hq s' (List.mem_cons_of_mem s hMem)
    simp only [perform, Attempt.andThen]
    split
    · rename_i q hq
      rw [hq] at hs
      exact ih hRest hs
    -- an interrupted step is the last one
    · rename_i q cause hq
      rwa [hq] at hs

/-- What every signal keeps, every list of steps keeps. -/
theorem datapath_perform {P : Datapath → Prop} (hP : ∀ d s, P d → P (d.drive s).state)
    (p : Processor) (steps : List Step) (h : P p.datapath) :
    P (p.perform steps).state.datapath :=
  state_perform (P := fun q => P q.datapath) (fun q hq s _ => datapath_step hP q s hq) h

-- ---------------------------------------------------------------------------
-- How a cycle begins
-- ---------------------------------------------------------------------------

theorem cycle_of_getElem?_eq_none {p : Processor} (h : p.code[p.pc]? = none) :
    p.cycle = .interrupted p (.ofRuntime (.pcOutOfRange p.pc)) := by
  simp only [cycle, h]

theorem cycle_of_operation_eq_error {p : Processor} {inst : Instruction} {fault : DecodeFault}
    (h : p.code[p.pc]? = some inst) (hop : inst.operation = .error fault) :
    p.cycle = .interrupted p (.fault (.decode fault)) := by
  simp only [cycle, h, hop]

theorem cycle_of_operation_eq_ok {p : Processor} {inst : Instruction} {op : Operation}
    (h : p.code[p.pc]? = some inst) (hop : inst.operation = .ok op) :
    p.cycle = (p.fetch inst).perform op.microcode := by
  simp only [cycle, h, hop]

/-- A cycle is cut short before anything has changed, or it performs the steps of an operation. -/
theorem cycle_cases (p : Processor) :
    (∃ cause, p.cycle = .interrupted p cause) ∨
      ∃ inst op, p.code[p.pc]? = some inst ∧ inst.operation = .ok op ∧
        p.cycle = (p.fetch inst).perform op.microcode := by
  cases hfetch : p.code[p.pc]? with
  | none => exact Or.inl ⟨_, cycle_of_getElem?_eq_none hfetch⟩
  | some inst =>
    cases hop : inst.operation with
    | error fault => exact Or.inl ⟨_, cycle_of_operation_eq_error hfetch hop⟩
    | ok op => exact Or.inr ⟨inst, op, rfl, hop, cycle_of_operation_eq_ok hfetch hop⟩

-- ---------------------------------------------------------------------------
-- What a cycle keeps
-- ---------------------------------------------------------------------------

theorem datapath_cycle {P : Datapath → Prop} (hP : ∀ d s, P d → P (d.drive s).state)
    (p : Processor) (h : P p.datapath) : P p.cycle.state.datapath := by
  rcases cycle_cases p with ⟨cause, heq⟩ | ⟨inst, op, _, _, heq⟩
  · rw [heq]
    exact h
  · rw [heq]
    exact datapath_perform hP (p.fetch inst) op.microcode h

theorem datapath_cycles {P : Datapath → Prop} (hP : ∀ d s, P d → P (d.drive s).state)
    (p : Processor) (n : Nat) (h : P p.datapath) : P (p.cycles n).datapath := by
  induction n generalizing p with
  | zero => exact h
  | succ n ih => exact ih p.cycle.state (datapath_cycle hP p h)

end Processor

-- ---------------------------------------------------------------------------
-- Traffic of a cycle
-- ---------------------------------------------------------------------------

/-- How many words a step may send. -/
def Step.sends : Step → Nat
  | drive signal => signal.sends
  | _ => 0

/-- How many characters a step may take. -/
def Step.takes : Step → Nat
  | drive signal => signal.takes
  | _ => 0

theorem Operation.sends_microcode_le_one (op : Operation) :
    (op.microcode.map Step.sends).sum ≤ 1 := by
  cases op <;> simp [microcode, Step.sends, Signal.sends]

theorem Operation.takes_microcode_le_one (op : Operation) :
    (op.microcode.map Step.takes).sum ≤ 1 := by
  cases op <;> simp [microcode, Step.takes, Signal.takes]

namespace Processor

open Datapath (Traffic)

theorem traffic_step (p : Processor) (s : Step) :
    Traffic p.datapath (p.step s).state.datapath s.sends s.takes := by
  rcases step_cases p s with ⟨signal, rfl, heq⟩ | heq
  · rw [heq]
    exact Datapath.traffic_drive p.datapath signal
  · rw [heq]
    exact Traffic.of_eq rfl rfl _ _

theorem traffic_perform (p : Processor) (steps : List Step) :
    Traffic p.datapath (p.perform steps).state.datapath
      (steps.map Step.sends).sum (steps.map Step.takes).sum := by
  induction steps generalizing p with
  | nil => exact Traffic.of_eq rfl rfl 0 0
  | cons s rest ih =>
    have hs := traffic_step p s
    simp only [perform, Attempt.andThen, List.map_cons, List.sum_cons]
    split
    · rename_i q hq
      rw [hq] at hs
      exact hs.trans (ih q)
    -- what was cut off would have sent and taken more, not less
    · rename_i q cause hq
      rw [hq] at hs
      exact hs.mono (Nat.le_add_right _ _) (Nat.le_add_right _ _)

theorem traffic_cycle (p : Processor) : Traffic p.datapath p.cycle.state.datapath 1 1 := by
  rcases cycle_cases p with ⟨cause, heq⟩ | ⟨inst, op, _, _, heq⟩
  · rw [heq]
    exact Traffic.of_eq rfl rfl 1 1
  · rw [heq]
    exact (traffic_perform (p.fetch inst) op.microcode).mono
      op.sends_microcode_le_one op.takes_microcode_le_one

theorem traffic_cycles (p : Processor) (n : Nat) :
    Traffic p.datapath (p.cycles n).datapath n n := by
  induction n generalizing p with
  | zero => exact Traffic.of_eq rfl rfl 0 0
  | succ n ih =>
    have h := (traffic_cycle p).trans (ih p.cycle.state)
    rw [Nat.add_comm] at h
    exact h

end Processor

end StackProcessor
