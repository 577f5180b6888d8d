import StackProcessor.Proofs.Machine.Ports
import StackProcessor.Proofs.Simulation.Course

/-!
# StackProcessor — steps and ticks

How many instructions and how many ticks a program needs can be counted on the list machine:
`m.Takes n t m'` says that `n` steps lead from `m` to `m'` and that their operations cost `t` ticks.
To notice the end takes one instruction and one tick more. A run with that many ticks to spare
reports these numbers, with the output that the list machine has at the end.

This is where programs are taken from the list machine to the processor. What a program does is
proved of `ListMachine.Takes`, turn by turn, and `simulate_of_takes` gives its report.

## Results
- `ListMachine.Takes.trans` : the ticks of runs that follow one another add up.
- `Session.run_of_takes` : a session whose list machine comes to a halt.
- `simulate_of_takes` : the report of a program whose list machine comes to a halt.
-/

namespace StackProcessor

namespace ListMachine

/-- So many steps, and so many ticks, lead from one machine to the other. -/
inductive Takes : ListMachine → Nat → Nat → ListMachine → Prop where
  | none (m : ListMachine) : Takes m 0 0 m
  | step {m m' last : ListMachine} {op : Operation} {n t : Nat} : m.operation? = some op →
    m.exec? op = some m' → Takes m' n t last → Takes m (n + 1) (op.cost + t) last

theorem Takes.trans {m m' last : ListMachine} {n n' t t' : Nat} (h : m.Takes n t m')
    (h' : m'.Takes n' t' last) : m.Takes (n + n') (t + t') last := by
  induction h with
  | none =>
    rw [Nat.zero_add, Nat.zero_add]
    exact h'
  | step hOp hExec _ ih =>
    rw [Nat.add_right_comm, Nat.add_assoc (Operation.cost _)]
    exact .step hOp hExec (ih h')

theorem withStack?_of_le {m : ListMachine} {s : List Word} (h : s.length ≤ m.capacity) :
    m.withStack? s = some { m with stack := s } :=
  if_pos h

/-- A cell is loaded from any address but that of the input port. -/
theorem load?_of_getElem? {m : ListMachine} {a v : Word} (hPort : a ≠ 0) (hNonneg : 0 ≤ a.toInt)
    (hCell : m.memory[a.toInt.toNat]? = some v) (s : List Word) :
    m.load? a s = some { m with stack := v :: s } := by
  obtain ⟨hLess, hValue⟩ := List.getElem?_eq_some_iff.mp hCell
  have hHasCell : m.HasCell a := ⟨hNonneg, by omega⟩
  rw [load?, if_neg hPort, if_pos hHasCell, List.getD_eq_getElem?_getD, hCell, Option.getD_some]

/-- A number of steps and of ticks that is written in another way. -/
theorem Takes.cast {m m' : ListMachine} {n n' t t' : Nat} (h : m.Takes n t m') (hSteps : n = n')
    (hTicks : t = t') : m.Takes n' t' m' := by
  rwa [← hSteps, ← hTicks]

end ListMachine

/-- A cycle follows a step of the list machine and takes what the operation costs. -/
theorem Processor.exists_cycle_of_exec? {p : Processor} (h : p.datapath.Bounded) {op : Operation}
    {m : ListMachine} (hOp : p.view.operation? = some op) (hExec : p.view.exec? op = some m) :
    ∃ q, p.cycle = .completed q ∧ q.view = m ∧ q.tick = p.tick + op.cost := by
  have hStep : p.view.step? = some m := (ListMachine.step?_of_operation? hOp).trans hExec
  obtain ⟨q, hCycle, hView⟩ := (cycle_completed_iff h m).mpr hStep
  obtain ⟨other, hFetches, _, hTick⟩ := exists_fetches_of_cycle hCycle
  have hSame := (operation?_view_iff p other).mpr hFetches
  rw [hOp] at hSame
  obtain rfl := Option.some.inj hSame
  exact ⟨q, hCycle, hView, hTick⟩

namespace Session

variable {options : Options}

/-- A session that is at a halt ends there, one tick later. -/
theorem run_of_halt {s : Session} (h : s.processor.datapath.Bounded)
    (hHalt : s.processor.view.operation? = some .halt)
    (hLimit : s.processor.tick < options.tickLimit) :
    (s.run options).result =
      .ok ⟨s.processor.view.output, s.instructions + 1, s.processor.tick + 1, .halted⟩ := by
  obtain ⟨q, hCycle⟩ := (Processor.cycle_interrupted_iff h .halt).mpr (.halt hHalt)
  have hOutput := (Processor.sameStore_of_cycle h hCycle).2.2
  have hTick := Processor.tick_of_cycle_halt h hCycle
  rw [run_eq_of_ends (.interrupted hLimit hCycle)]
  show Except.ok (Report.mk q.datapath.output.toList _ q.tick _) = _
  rw [hOutput, hTick]
  rfl

/-- A session whose list machine comes to a halt reports the steps and the ticks that it takes. -/
theorem run_of_takes {s : Session} (h : s.processor.datapath.Bounded) {n t : Nat}
    {m : ListMachine} (hTakes : s.processor.view.Takes n t m) (hHalt : m.operation? = some .halt)
    (hLimit : s.processor.tick + t < options.tickLimit) :
    (s.run options).result =
      .ok ⟨m.output, s.instructions + n + 1, s.processor.tick + t + 1, .halted⟩ := by
  generalize hView : s.processor.view = start at hTakes
  induction hTakes generalizing s with
  | none =>
    subst hView
    exact run_of_halt h hHalt hLimit
  | @step _ _ _ op n t hOp hExec _ ih =>
    subst hView
    obtain ⟨q, hCycle, hView, hTick⟩ := Processor.exists_cycle_of_exec? h hOp hExec
    have hNext : Next options s (s.advance options q) := ⟨by omega, q, hCycle, rfl⟩
    have hBounded : q.datapath.Bounded := by
      have hState := Processor.bounded_cycle h
      rwa [hCycle] at hState
    have hTicks : q.tick + t = s.processor.tick + (op.cost + t) := by omega
    have hRest := ih (s := s.advance options q) hBounded hHalt (hTicks ▸ hLimit) hView
    rw [← run_eq_of_next hNext, hRest]
    simp only [advance, hTicks, Nat.add_assoc, Nat.add_comm 1]

end Session

/-- A program whose list machine comes to a halt within the limit reports what that has put out. -/
theorem simulate_of_takes {image : Image} {input : List Char} {options : Options} {n t : Nat}
    {m : ListMachine} (hStack : options.stackSize ≠ 0)
    (hTakes : (ListMachine.initial image options.stackSize input).Takes n t m)
    (hHalt : m.operation? = some .halt) (hLimit : t < options.tickLimit) :
    (simulate image input options).result = .ok ⟨m.output, n + 1, t + 1, .halted⟩ := by
  have hBounded : (Session.initial image input options).processor.datapath.Bounded :=
    Datapath.bounded_initial image.data options.stackSize input
  have hTicks : 0 + t = t := Nat.zero_add t
  have hInstructions : 0 + n = n := Nat.zero_add n
  rw [← Processor.view_initial] at hTakes
  rw [simulate_of_stackSize_ne_zero image input options hStack]
  rw [← hTicks] at hLimit
  rw [← hTicks, ← hInstructions]
  exact Session.run_of_takes hBounded hTakes hHalt hLimit

end StackProcessor
