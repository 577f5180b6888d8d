import StackProcessor.Proofs.Machine.ControlFlow

/-!
# StackProcessor — how a run ends

A run carries out cycles in full until the clock has reached the limit or a cycle is interrupted. So
its result can be read off one state among those that the cycles lead to: the state before the cycle
that did not start or did not complete. `EndsAt limit n q result` says how, with a constructor for
each `StopReason` and one for faults; `n` counts the cycles that were completed, and a cycle that
halts or finds no character is counted as well.

## Results
- `Session.run_endsAt` : the result of a session, read off the state in which it ends.
- `simulate_endsAt` : the same of a program, if the stack has a cell at all.
- `exists_cause_of_simulate` : the fault of a run is that of the last cycle.
-/

namespace StackProcessor

/-- The result of a run which has counted `n` cycles and found the processor as `q` then. -/
inductive EndsAt (limit n : Nat) (q : Processor) : Except RunFault Report → Prop where
  | tickLimitExceeded : limit ≤ q.tick →
    EndsAt limit n q (.ok ⟨q.datapath.output.toList, n, q.tick, .tickLimitExceeded⟩)
  | halted {r : Processor} : q.tick < limit → q.cycle = .interrupted r .halt →
    EndsAt limit n q (.ok ⟨r.datapath.output.toList, n + 1, r.tick, .halted⟩)
  | inputExhausted {r : Processor} : q.tick < limit → q.cycle = .interrupted r .inputExhausted →
    EndsAt limit n q (.ok ⟨r.datapath.output.toList, n + 1, r.tick, .inputExhausted⟩)
  | fault {r : Processor} {cause : Fault} : q.tick < limit →
    q.cycle = .interrupted r (.fault cause) → EndsAt limit n q (.error (.fault cause))

theorem Processor.completes_zero (p : Processor) : p.Completes 0 :=
  fun k hk => absurd hk (Nat.not_lt_zero k)

theorem Processor.completes_succ {p q : Processor} (hCycle : p.cycle = .completed q) {n : Nat}
    (h : q.Completes n) : p.Completes (n + 1) := by
  intro k hk
  cases k with
  | zero =>
    show p.cycle.cause? = none
    rw [hCycle]
    rfl
  | succ k =>
    have hNext : p.cycles (k + 1) = q.cycles k := by
      rw [cycles, hCycle, Attempt.state_completed]
    rw [hNext]
    exact h k (by omega)

/-- A session ends in a state that cycles lead to which are all carried out in full. -/
theorem Session.run_endsAt (options : Options) (s : Session) :
    ∃ n, s.processor.Completes n ∧
      EndsAt options.tickLimit (s.instructions + n) (s.processor.cycles n)
        (s.run options).result := by
  induction s using Session.run.induct options with
  | case1 processor instructions warned events hLimit =>
    refine ⟨0, Processor.completes_zero _, ?_⟩
    rw [run, if_pos hLimit]
    exact .tickLimitExceeded hLimit
  | case2 processor instructions warned events hLimit p hCycle ih =>
    -- one cycle, and then those of the rest of the session
    obtain ⟨n, hComplete, hEnds⟩ := ih
    refine ⟨n + 1, Processor.completes_succ hCycle hComplete, ?_⟩
    have hCount : instructions + (n + 1) = instructions + 1 + n := by omega
    have hState : processor.cycles (n + 1) = p.cycles n := by
      rw [Processor.cycles, hCycle, Attempt.state_completed]
    rw [run_of_completed hLimit hCycle]
    show EndsAt _ (instructions + (n + 1)) (processor.cycles (n + 1)) _
    rw [hCount, hState]
    exact hEnds
  | case3 processor instructions warned events hLimit p cause hCycle =>
    refine ⟨0, Processor.completes_zero _, ?_⟩
    have hLess : processor.tick < options.tickLimit := by omega
    rw [run_of_interrupted hLimit hCycle]
    cases cause with
    | halt => exact .halted hLess hCycle
    | inputExhausted => exact .inputExhausted hLess hCycle
    | fault cause => exact .fault hLess hCycle

/-- The result of a program on an input, with a stack that has cells. -/
theorem simulate_endsAt (image : Image) (input : List Char) {options : Options}
    (hStack : 0 < options.stackSize) :
    ∃ n, (Processor.initial image options.stackSize input).Completes n ∧
      EndsAt options.tickLimit n
        ((Processor.initial image options.stackSize input).cycles n)
        (simulate image input options).result := by
  obtain ⟨n, hComplete, hEnds⟩ := Session.run_endsAt options (Session.initial image input options)
  refine ⟨n, hComplete, ?_⟩
  rw [simulate, if_neg (by omega)]
  have hCount : (Session.initial image input options).instructions + n = n := Nat.zero_add n
  rwa [hCount] at hEnds

/-- The fault that a run ends with is the one that interrupts its last cycle. -/
theorem exists_cause_of_simulate {image : Image} {input : List Char} {options : Options}
    {fault : Fault} (h : (simulate image input options).result = .error (.fault fault)) :
    ∃ n, (Processor.initial image options.stackSize input).Completes n ∧
      ((Processor.initial image options.stackSize input).cycles n).cycle.cause? =
        some (.fault fault) := by
  by_cases hStack : options.stackSize = 0
  · rw [simulate, if_pos hStack] at h
    cases h
  · have hCells : 0 < options.stackSize := by omega
    obtain ⟨n, hComplete, hEnds⟩ := simulate_endsAt image input hCells
    rw [h] at hEnds
    refine ⟨n, hComplete, ?_⟩
    cases hEnds with
    | fault _ hCycle =>
      rw [hCycle]
      rfl

end StackProcessor
