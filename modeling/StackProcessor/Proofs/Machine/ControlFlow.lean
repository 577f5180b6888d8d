import StackProcessor.Proofs.Machine.Refinement

/-!
# StackProcessor — control flow

Where the program counter can go: to the next instruction, or to the target of the jump that was
fetched (`Operation.target?`). Whatever holds of the targets of all jumps in the code,
`TargetsSatisfy code P`, therefore holds of every place that is not reached from the one before it.
Two instances of `P` are used: no jump leads behind the end of the code, and no jump leads to one
particular place.

## Results
- `Processor.pc_cycle_cases` : where a cycle leaves the counter.
- `Processor.pc_cycles_le` : with targets of at most `code.size` the counter never exceeds it.
- `Processor.exists_before_of_completes` : in a run that `Completes`, a place `i + 1` that no jump
  leads to is entered from `i` only.
- `Processor.pcOutOfRange_of_cycle`, `Processor.decode_of_cycle` : a fault of the control flow names
  the counter, or the record at the counter.
-/

namespace StackProcessor

/-- Where an operation can lead beside the next instruction. -/
def Operation.target? : Operation → Option Nat
  | jump target | jz target => some target
  | _ => none

/-- Where a step can lead. -/
def Step.target? : Step → Option Nat
  | jump target | branch target => some target
  | _ => none

theorem Operation.target?_of_mem_microcode {op : Operation} {s : Step} {target : Nat}
    (hMem : s ∈ op.microcode) (hTarget : s.target? = some target) : op.target? = some target := by
  cases op with
  | jump other | jz other =>
    -- the other step is the tick that closes the cycle
    rcases List.mem_cons.mp hMem with rfl | hTick
    · exact hTarget
    · rw [List.mem_singleton.mp hTick] at hTarget
      cases hTarget
  | _ =>
    -- none of the steps leads anywhere
    simp only [microcode, List.mem_cons, List.not_mem_nil, or_false] at hMem
    rcases hMem with rfl | rfl | rfl | rfl | rfl | rfl <;> cases hTarget

namespace Processor

-- ---------------------------------------------------------------------------
-- One cycle
-- ---------------------------------------------------------------------------

theorem code_step (p : Processor) (s : Step) : (p.step s).state.code = p.code := by
  cases s with
  | drive signal => simp [step, drive]
  | branch target =>
    simp only [step]
    split <;> rfl
  | _ => rfl

theorem pc_step (p : Processor) (s : Step) :
    (p.step s).state.pc = p.pc ∨ s.target? = some (p.step s).state.pc := by
  cases s with
  | drive signal => exact Or.inl (by simp [step, drive])
  | jump target => exact Or.inr rfl
  | branch target =>
    simp only [step]
    split
    · exact Or.inr rfl
    · exact Or.inl rfl
    · exact Or.inl rfl
  | _ => exact Or.inl rfl

theorem code_cycle (p : Processor) : p.cycle.state.code = p.code := by
  rcases cycle_cases p with ⟨cause, hCycle⟩ | ⟨inst, op, _, _, hCycle⟩
  · rw [hCycle]
    rfl
  · rw [hCycle]
    refine state_perform (P := fun q => q.code = p.code) ?_ rfl
    intro q hq s _
    rw [code_step, hq]

/-- A cycle leaves the counter where it was, if it is interrupted before the fetch; otherwise at the
next instruction, or at the target of the one that was fetched. -/
theorem pc_cycle_cases (p : Processor) :
    (∃ cause, p.cycle = .interrupted p cause) ∨
      ∃ inst op, p.code[p.pc]? = some inst ∧ inst.operation = .ok op ∧
        (p.cycle.state.pc = p.pc + 1 ∨ op.target? = some p.cycle.state.pc) := by
  rcases cycle_cases p with hEarly | ⟨inst, op, hFetch, hOp, hCycle⟩
  · exact Or.inl hEarly
  · refine Or.inr ⟨inst, op, hFetch, hOp, ?_⟩
    rw [hCycle]
    refine state_perform (P := fun q => q.pc = p.pc + 1 ∨ op.target? = some q.pc) ?_ (Or.inl rfl)
    intro q hq s hMem
    rcases pc_step q s with hSame | hTarget
    · rwa [hSame]
    · exact Or.inr (Operation.target?_of_mem_microcode hMem hTarget)

-- ---------------------------------------------------------------------------
-- Any number of cycles
-- ---------------------------------------------------------------------------

/-- One more cycle at the end. -/
theorem cycles_succ (p : Processor) (n : Nat) : p.cycles (n + 1) = (p.cycles n).cycle.state := by
  induction n generalizing p with
  | zero => rfl
  | succ n ih =>
    show p.cycle.state.cycles (n + 1) = (p.cycle.state.cycles n).cycle.state
    exact ih p.cycle.state

theorem code_cycles (p : Processor) (n : Nat) : (p.cycles n).code = p.code := by
  induction n with
  | zero => rfl
  | succ n ih => rw [cycles_succ, code_cycle, ih]

theorem bounded_cycles {p : Processor} (h : p.datapath.Bounded) (n : Nat) :
    (p.cycles n).datapath.Bounded :=
  datapath_cycles (P := Datapath.Bounded) (fun _ s hd => Datapath.bounded_drive hd s) p n h

/-- Every jump in the code leads to a place of this kind. -/
def TargetsSatisfy (code : Array Instruction) (P : Nat → Prop) : Prop :=
  ∀ (i : Nat) (inst : Instruction) (op : Operation) (target : Nat),
    code[i]? = some inst → inst.operation = .ok op → op.target? = some target → P target

theorem pc_cycle_le {p : Processor} (hTargets : TargetsSatisfy p.code (· ≤ p.code.size))
    (h : p.pc ≤ p.code.size) : p.cycle.state.pc ≤ p.code.size := by
  rcases pc_cycle_cases p with ⟨cause, hCycle⟩ | ⟨inst, op, hFetch, hOp, hNext | hTarget⟩
  · rw [hCycle]
    exact h
  · -- what was fetched is there
    have hLess : p.pc < p.code.size := (Array.getElem?_eq_some_iff.mp hFetch).1
    omega
  · exact hTargets p.pc inst op _ hFetch hOp hTarget

/-- The counter stays within the code, or at its end. -/
theorem pc_cycles_le {p : Processor} (hTargets : TargetsSatisfy p.code (· ≤ p.code.size))
    (h : p.pc ≤ p.code.size) (n : Nat) : (p.cycles n).pc ≤ p.code.size := by
  induction n with
  | zero => exact h
  | succ n ih =>
    have hCode := code_cycles p n
    rw [← hCode] at hTargets ih
    rw [cycles_succ, ← hCode]
    exact pc_cycle_le hTargets ih

/-- The first `n` cycles are carried out in full. -/
def Completes (p : Processor) (n : Nat) : Prop := ∀ k < n, (p.cycles k).cycle.cause? = none

/-- An instruction behind the first that no jump leads to is entered from the one before it. -/
theorem exists_before_of_completes {p : Processor} {i : Nat}
    (hTargets : TargetsSatisfy p.code (· ≠ i + 1)) (hStart : p.pc ≠ i + 1) {n : Nat}
    (hComplete : p.Completes n) (hHere : (p.cycles n).pc = i + 1) :
    ∃ k, n = k + 1 ∧ (p.cycles k).pc = i := by
  cases n with
  | zero => exact absurd hHere hStart
  | succ k =>
    refine ⟨k, rfl, ?_⟩
    rw [cycles_succ] at hHere
    rcases pc_cycle_cases (p.cycles k) with
      ⟨cause, hCycle⟩ | ⟨inst, op, hFetch, hOp, hNext | hTarget⟩
    · -- the cycle before was not interrupted
      have hCause := hComplete k (Nat.lt_succ_self k)
      rw [hCycle] at hCause
      cases hCause
    · omega
    · rw [code_cycles] at hFetch
      exact absurd hHere (hTargets _ inst op _ hFetch hOp hTarget)

-- ---------------------------------------------------------------------------
-- The faults of the control flow
-- ---------------------------------------------------------------------------

theorem refuses_of_cause? {p : Processor} (h : p.datapath.Bounded) {cause : Interrupt}
    (hCause : p.cycle.cause? = some cause) : p.view.Refuses cause := by
  apply (cycle_interrupted_iff h cause).mp
  cases hCycle : p.cycle with
  | completed q =>
    rw [hCycle] at hCause
    cases hCause
  | interrupted q other =>
    rw [hCycle] at hCause
    cases hCause
    exact ⟨q, rfl⟩

/-- The counter is reported that stands behind the code. -/
theorem pcOutOfRange_of_cycle {p : Processor} (h : p.datapath.Bounded) {pc : Nat}
    (hCause : p.cycle.cause? = some (.ofRuntime (.pcOutOfRange pc))) :
    pc = p.pc ∧ p.code.size ≤ p.pc := by
  cases refuses_of_cause? h hCause with
  | pcOutOfRange hPc => exact ⟨rfl, by simpa [view] using hPc⟩

/-- The fault is that of the record which was fetched. -/
theorem decode_of_cycle {p : Processor} (h : p.datapath.Bounded) {fault : DecodeFault}
    (hCause : p.cycle.cause? = some (.fault (.decode fault))) :
    ∃ inst, p.code[p.pc]? = some inst ∧ inst.operation = .error fault := by
  cases refuses_of_cause? h hCause with
  | undecodable hCode hOp =>
    rw [code_view_getElem?] at hCode
    exact ⟨_, hCode, hOp⟩

end Processor

end StackProcessor
