import StackProcessor.Proofs.Machine.Interruption

/-!
# StackProcessor — the clock

One tick passes for the fetch and one at every `Step.tick` of the microcode. A cycle that completes
therefore takes what its operation costs (`Operation.cost`), wherever its words come from and
wherever it leads; one that is interrupted has stopped somewhere on the way there. `p.Fetches op`
says that the record at the counter is there and stands for `op`.

## Results
- `Processor.exists_fetches_of_cycle` : `q.tick = p.tick + op.cost` if the cycle completes.
- `Processor.two_le_of_cycle`, `Processor.tick_cycle_le` : two ticks at least for a cycle that
  completes, and four at most for every cycle.
- `Processor.tick_of_cycle_halt`, `Processor.tick_of_cycle_inputExhausted` : one tick for the cycle
  that halts, and two for the one that finds no character, if the datapath is `Bounded`.
-/

namespace StackProcessor

namespace Processor

-- ---------------------------------------------------------------------------
-- Steps
-- ---------------------------------------------------------------------------

theorem tick_step (p : Processor) (s : Step) :
    (p.step s).state.tick = p.tick + [s].count .tick := by
  cases s with
  | drive signal => exact tick_drive p signal
  | branch target =>
    simp only [step]
    split <;> rfl
  | _ => rfl

theorem count_tick_cons (s : Step) (rest : List Step) :
    (s :: rest).count .tick = [s].count .tick + rest.count .tick := by
  rw [List.count_cons, List.count_singleton, Nat.add_comm]

/-- Steps that are all carried out take a tick wherever they say so. -/
theorem tick_of_perform {p q : Processor} {steps : List Step}
    (h : p.perform steps = .completed q) : q.tick = p.tick + steps.count .tick := by
  induction steps generalizing p with
  | nil =>
    cases h
    rfl
  | cons s rest ih =>
    have hStep := tick_step p s
    rw [perform] at h
    cases hState : p.step s with
    | completed r =>
      rw [hState, Attempt.state_completed] at hStep
      rw [hState] at h
      rw [ih h, hStep, count_tick_cons s rest, Nat.add_assoc]
    | interrupted r cause =>
      rw [hState] at h
      cases h

/-- Steps that are interrupted take no more than that. -/
theorem tick_perform_le (p : Processor) (steps : List Step) :
    (p.perform steps).state.tick ≤ p.tick + steps.count .tick := by
  induction steps generalizing p with
  | nil => exact Nat.le_refl _
  | cons s rest ih =>
    have hStep := tick_step p s
    have hCount := count_tick_cons s rest
    rw [perform]
    cases hState : p.step s with
    | completed r =>
      rw [hState, Attempt.state_completed] at hStep
      have hRest := ih r
      simp only [Attempt.andThen]
      omega
    | interrupted r cause =>
      rw [hState, Attempt.state_interrupted] at hStep
      simp only [Attempt.andThen, Attempt.state_interrupted]
      omega

-- ---------------------------------------------------------------------------
-- Cycles that complete
-- ---------------------------------------------------------------------------

/-- The next instruction is there, and stands for this operation. -/
def Fetches (p : Processor) (op : Operation) : Prop :=
  ∃ inst, p.code[p.pc]? = some inst ∧ inst.operation = .ok op

/-- A cycle that completes takes as long as its operation costs. -/
theorem exists_fetches_of_cycle {p q : Processor} (h : p.cycle = .completed q) :
    ∃ op, p.Fetches op ∧ op ≠ .halt ∧ q.tick = p.tick + op.cost := by
  rcases cycle_cases p with ⟨cause, hCycle⟩ | ⟨inst, op, hFetch, hOp, hCycle⟩
  · rw [hCycle] at h
    cases h
  · rw [hCycle] at h
    refine ⟨op, ⟨inst, hFetch, hOp⟩, ?_, ?_⟩
    · rintro rfl
      cases h
    · have hTick := tick_of_perform h
      rw [Operation.cost_eq_ticks, Operation.ticks, hTick]
      show p.tick + 1 + _ = _
      omega

theorem two_le_of_cycle {p q : Processor} (h : p.cycle = .completed q) : p.tick + 2 ≤ q.tick := by
  obtain ⟨op, _, hHalt, hTick⟩ := exists_fetches_of_cycle h
  have hCost : 2 ≤ op.cost := by
    cases op with
    | halt => exact absurd rfl hHalt
    | _ => simp [Operation.cost]
  omega

/-- No cycle takes more than four ticks, whether it completes or not. -/
theorem tick_cycle_le (p : Processor) : p.cycle.state.tick ≤ p.tick + 4 := by
  rcases cycle_cases p with ⟨cause, hCycle⟩ | ⟨inst, op, _, _, hCycle⟩
  · rw [hCycle, Attempt.state_interrupted]
    omega
  · have hSteps := tick_perform_le (p.fetch inst) op.microcode
    have hTicks := op.ticks_le_four
    have hFetch : (p.fetch inst).tick = p.tick + 1 := rfl
    unfold Operation.ticks at hTicks
    rw [hCycle]
    omega

-- ---------------------------------------------------------------------------
-- Cycles with which a program stops
-- ---------------------------------------------------------------------------

section

variable {p q : Processor}

/-- Halting is noticed right after the fetch. -/
theorem tick_of_cycle_halt (h : p.datapath.Bounded) (hCycle : p.cycle = .interrupted q .halt) :
    q.tick = p.tick + 1 := by
  rcases cycle_interrupted_cases h hCycle with ⟨hBefore, _⟩ | ⟨inst, op, _, _, hLeaves⟩
  · cases hBefore
  · cases hLeaves with
    | asFound _ _ _ => rfl
    | latched _ hCause => rcases hCause with hCause | hCause <;> cases hCause

/-- That no character is left is noticed after the address of the port has been latched. -/
theorem tick_of_cycle_inputExhausted (h : p.datapath.Bounded)
    (hCycle : p.cycle = .interrupted q .inputExhausted) : q.tick = p.tick + 2 := by
  rcases cycle_interrupted_cases h hCycle with ⟨hBefore, _⟩ | ⟨inst, op, _, _, hLeaves⟩
  · cases hBefore
  · exact (hLeaves.of_isAtAddress rfl).2.2.2

end

end Processor

end StackProcessor
