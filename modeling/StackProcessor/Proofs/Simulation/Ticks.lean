import StackProcessor.Proofs.Machine.Clock
import StackProcessor.Proofs.Simulation.Watching

/-!
# StackProcessor — the ticks of a run

The clock of a run is compared with the cycles that were started in it (`Session.watch`). The ticks
of a report are the costs of the operations that were carried out in full, and those of the cycle
with which the program stopped (`StopReason.openTicks`): `Session.Accounts`. As no cycle that
completes takes fewer than two ticks and none at all more than four, the limit bounds the number of
cycles, and the clock can pass it by three ticks at most (`StopReason.Reaches`).

Ticks are `Nat` here and 64 bits wide in a machine word; the hypothesis `hLimit` keeps the limit so
far below `2 ^ 64` that the clock never reaches it.

## Results
- `Session.accounts_of_watch` : a report against the cycles of its session.
- `simulate_ticks_eq_sum` : the same of a program.
- `Session.length_watch_le`, `Session.tick_lt_of_mem_watch` : the cycles that are started.
- `simulate_keeps_to_limit` : the bounds on a run of a program.
-/

namespace StackProcessor

namespace StopReason

/-- Number of cycles that a run has started and not completed when it stops for this reason. -/
def openCycles : StopReason → Nat
  | halted | inputExhausted => 1
  | tickLimitExceeded => 0

/-- The ticks of such a cycle: a halt is noticed after the fetch, an empty port after the address
has been latched. -/
def openTicks : StopReason → Nat
  | halted => 1
  | inputExhausted => 2
  | tickLimitExceeded => 0

/-- Where the clock can stand when a run stops for this reason. -/
def Reaches (limit ticks : Nat) : StopReason → Prop
  | halted => ticks ≤ limit
  | inputExhausted => ticks ≤ limit + 1
  | tickLimitExceeded => limit ≤ ticks ∧ ticks ≤ limit + 3

end StopReason

/-- Those among the cycles that went through, by the states in which they were started. -/
def completed (started : List Processor) : List Processor :=
  started.filter fun p => p.cycle.cause?.isNone

theorem completed_cons_of_completed {p q : Processor} (h : p.cycle = .completed q)
    (started : List Processor) : completed (p :: started) = p :: completed started := by
  simp [completed, h, Attempt.cause?]

theorem completed_cons_of_interrupted {p q : Processor} {cause : Interrupt}
    (h : p.cycle = .interrupted q cause) (started : List Processor) :
    completed (p :: started) = completed started := by
  simp [completed, h, Attempt.cause?]

namespace Session

-- ---------------------------------------------------------------------------
-- Accounting
-- ---------------------------------------------------------------------------

/-- The report is what comes of these cycles, where so many cycles and ticks were counted before. -/
structure Accounts (instructions ticks : Nat) (started : List Processor) (report : Report) :
    Prop where
  count : report.instructions = instructions + started.length
  finished : (completed started).length + report.stop.openCycles = started.length
  spent : ∃ ops, List.Forall₂ Processor.Fetches (completed started) ops ∧
    report.ticks = ticks + (ops.map Operation.cost).sum + report.stop.openTicks

/-- A completed cycle in front of the others. -/
theorem Accounts.cons {p q : Processor} (hCycle : p.cycle = .completed q) {instructions : Nat}
    {started : List Processor} {report : Report}
    (h : Accounts (instructions + 1) q.tick started report) :
    Accounts instructions p.tick (p :: started) report := by
  obtain ⟨op, hFetches, _, hTick⟩ := Processor.exists_fetches_of_cycle hCycle
  obtain ⟨ops, hOps, hTicks⟩ := h.spent
  have hFinished := h.finished
  have hCount := h.count
  refine ⟨?_, ?_, op :: ops, ?_, ?_⟩
  · rw [List.length_cons]
    omega
  · rw [completed_cons_of_completed hCycle, List.length_cons, List.length_cons]
    omega
  · rw [completed_cons_of_completed hCycle]
    exact .cons hFetches hOps
  · rw [List.map_cons, List.sum_cons]
    omega

/-- The interrupted cycle with which a run stops. -/
theorem accounts_of_interrupted {p q : Processor} {cause : Interrupt}
    (hCycle : p.cycle = .interrupted q cause) (instructions : Nat) {output : List Word}
    {stop : StopReason} (hOpen : stop.openCycles = 1) (hTick : q.tick = p.tick + stop.openTicks) :
    Accounts instructions p.tick [p] ⟨output, instructions + 1, q.tick, stop⟩ := by
  have hNone : completed [p] = [] := completed_cons_of_interrupted hCycle []
  refine ⟨rfl, ?_, [], ?_, ?_⟩
  · rw [hNone]
    exact (Nat.zero_add _).trans hOpen
  · rw [hNone]
    exact .nil
  · simpa using hTick

/-- A report is what comes of the cycles that were started. -/
theorem accounts_of_watch (options : Options) (s : Session) (h : s.processor.datapath.Bounded)
    {report : Report} (hResult : (s.watch options).1.result = .ok report) :
    Accounts s.instructions s.processor.tick (s.watch options).2 report := by
  refine watch_induction options
    (P := fun s w => s.processor.datapath.Bounded → ∀ report, w.1.result = .ok report →
      Accounts s.instructions s.processor.tick w.2 report) ?_ ?_ ?_ s h report hResult
  · intro s _ _ report hResult
    cases hResult
    exact ⟨rfl, rfl, [], .nil, rfl⟩
  · intro s q warned events run started _ hCycle ih hBounded report hResult
    have hNext := Processor.bounded_cycle hBounded
    rw [hCycle] at hNext
    exact (ih hNext report hResult).cons hCycle
  · intro s q cause _ hCycle hBounded report hResult
    cases cause with
    | halt =>
      cases hResult
      have hTick := Processor.tick_of_cycle_halt hBounded hCycle
      exact accounts_of_interrupted hCycle s.instructions rfl hTick
    | inputExhausted =>
      cases hResult
      have hTick := Processor.tick_of_cycle_inputExhausted hBounded hCycle
      exact accounts_of_interrupted hCycle s.instructions rfl hTick
    | fault cause => cases hResult

-- ---------------------------------------------------------------------------
-- Bounds
-- ---------------------------------------------------------------------------

/-- Every two ticks below the limit make room for one cycle. -/
theorem length_watch_le (options : Options) (s : Session) :
    2 * (s.watch options).2.length ≤ options.tickLimit + 1 - s.processor.tick := by
  refine watch_induction options
    (P := fun s w => 2 * w.2.length ≤ options.tickLimit + 1 - s.processor.tick) ?_ ?_ ?_ s
  · intro s _
    exact Nat.zero_le _
  · intro s q warned events run started hLimit hCycle ih
    have hTicks := Processor.two_le_of_cycle hCycle
    simp only [List.length_cons] at ih ⊢
    omega
  · intro s q cause hLimit _
    simp only [List.length_singleton]
    omega

/-- No cycle is started at the limit or behind it. -/
theorem tick_lt_of_mem_watch (options : Options) (s : Session) :
    ∀ p ∈ (s.watch options).2, p.tick < options.tickLimit := by
  refine watch_induction options (P := fun _ w => ∀ p ∈ w.2, p.tick < options.tickLimit) ?_ ?_ ?_ s
  · intro s _ p hMem
    cases hMem
  · intro s q warned events run started hLimit _ ih
    exact List.forall_mem_cons.mpr ⟨hLimit, ih⟩
  · intro s q cause hLimit _
    exact List.forall_mem_cons.mpr ⟨hLimit, fun _ hMem => absurd hMem List.not_mem_nil⟩

/-- Where the clock can stand when a session stops, that has not passed the limit by more than a
cycle can. -/
theorem reaches_of_watch (options : Options) (s : Session) (h : s.processor.datapath.Bounded)
    (hTick : s.processor.tick ≤ options.tickLimit + 3) {report : Report}
    (hResult : (s.watch options).1.result = .ok report) :
    report.stop.Reaches options.tickLimit report.ticks := by
  refine watch_induction options
    (P := fun s w => s.processor.datapath.Bounded → s.processor.tick ≤ options.tickLimit + 3 →
      ∀ report, w.1.result = .ok report → report.stop.Reaches options.tickLimit report.ticks)
    ?_ ?_ ?_ s h hTick report hResult
  · intro s hLimit _ hTick report hResult
    cases hResult
    exact ⟨hLimit, hTick⟩
  · intro s q warned events run started hLimit hCycle ih hBounded _ report hResult
    have hNext := Processor.bounded_cycle hBounded
    have hTicks := Processor.tick_cycle_le s.processor
    rw [hCycle, Attempt.state_completed] at hNext hTicks
    have hTick : q.tick ≤ options.tickLimit + 3 := by omega
    exact ih hNext hTick report hResult
  · intro s q cause hLimit hCycle hBounded _ report hResult
    cases cause with
    | halt =>
      cases hResult
      have hTicks := Processor.tick_of_cycle_halt hBounded hCycle
      show q.tick ≤ _
      omega
    | inputExhausted =>
      cases hResult
      have hTicks := Processor.tick_of_cycle_inputExhausted hBounded hCycle
      show q.tick ≤ _
      omega
    | fault cause => cases hResult

end Session

-- ---------------------------------------------------------------------------
-- Programs
-- ---------------------------------------------------------------------------

theorem simulateWatched_eq_watch {image : Image} {input : List Char} {options : Options}
    {report : Report} (h : (simulate image input options).result = .ok report) :
    simulateWatched image input options = (Session.initial image input options).watch options := by
  rw [simulateWatched, if_neg]
  intro hStack
  rw [simulate, if_pos hStack] at h
  cases h

/-- **Tick accounting**: in a run with a report, the cycles counted are those that were started, all
of them completed but for the one with which the program stopped. The ticks counted are the costs of
the operations that the completed cycles fetched, with one more for a halt and two more for a load
from the empty port. -/
theorem simulate_ticks_eq_sum {image : Image} {input : List Char} {options : Options}
    {report : Report} (h : (simulate image input options).result = .ok report) :
    let started := (simulateWatched image input options).2
    (simulateWatched image input options).1 = simulate image input options ∧
      started = (List.range started.length).map
        (Processor.initial image options.stackSize input).cycles ∧
      report.instructions = started.length ∧
      (completed started).length + report.stop.openCycles = started.length ∧
      ∃ ops, List.Forall₂ Processor.Fetches (completed started) ops ∧
        report.ticks = (ops.map Operation.cost).sum + report.stop.openTicks := by
  have hRun := fst_simulateWatched image input options
  have hWatch := simulateWatched_eq_watch h
  have hInitial : (Session.initial image input options).processor.datapath.Bounded :=
    Datapath.bounded_initial image.data options.stackSize input
  have hStarted := Session.snd_watch options (Session.initial image input options)
  rw [← hRun, hWatch] at h
  obtain ⟨hCount, hFinished, ops, hOps, hTicks⟩ :=
    Session.accounts_of_watch options _ hInitial h
  rw [← hWatch] at hCount hFinished hOps hStarted
  refine ⟨hRun, hStarted, ?_, hFinished, ops, hOps, ?_⟩
  · exact hCount.trans (Nat.zero_add _)
  · have hZero : (Session.initial image input options).processor.tick = 0 := rfl
    rw [hTicks, hZero, Nat.zero_add]

/-- A branch that is taken, and a load from the empty port: five ticks for the two operations that
are carried out, and two for the third. -/
theorem simulate_ticks_eq_sum_exhausted :
    let code : List Instruction := [⟨0, .push, some 0⟩, ⟨1, .jz, some 2⟩, ⟨2, .load, none⟩]
    let report : Report := ⟨[], 3, 7, .inputExhausted⟩
    (simulate ⟨[], code⟩ [] {}).result = .ok report ∧
      (simulateWatched ⟨[], code⟩ [] {}).2.length = 3 ∧
      (completed (simulateWatched ⟨[], code⟩ [] {}).2).length = 2 := by
  have hResult : (simulate ⟨[], [⟨0, .push, some 0⟩, ⟨1, .jz, some 2⟩, ⟨2, .load, none⟩]⟩ []
      {}).result = .ok ⟨[], 3, 7, .inputExhausted⟩ := by cbv
  obtain ⟨_, _, hCount, hFinished, _⟩ := simulate_ticks_eq_sum hResult
  refine ⟨hResult, hCount.symm, ?_⟩
  rw [← hCount] at hFinished
  exact Nat.succ.inj hFinished

/-- **Bounds**: every run ends. It starts at most one cycle for every two ticks below the limit, and
none at the limit or behind it; the clock passes the limit by three ticks at most, and a counter of
64 bits does not overflow. Where the clock stands in a report depends on why the run stopped. -/
theorem simulate_keeps_to_limit (image : Image) (input : List Char) {options : Options}
    (hLimit : options.tickLimit ≤ 2 ^ 64 - 4) :
    let started := (simulateWatched image input options).2
    (simulateWatched image input options).1 = simulate image input options ∧
      started.length ≤ (options.tickLimit + 1) / 2 ∧
      (∀ p ∈ started, p.tick < options.tickLimit ∧
        p.cycle.state.tick ≤ options.tickLimit + 3 ∧ p.cycle.state.tick < 2 ^ 64) ∧
      ∀ report, (simulate image input options).result = .ok report →
        report.stop.Reaches options.tickLimit report.ticks := by
  have hRun := fst_simulateWatched image input options
  refine ⟨hRun, ?_, ?_, ?_⟩
  · rw [simulateWatched, apply_ite Prod.snd]
    split
    · exact Nat.zero_le _
    · have hLength := Session.length_watch_le options (Session.initial image input options)
      omega
  · intro p hMem
    rw [simulateWatched, apply_ite Prod.snd] at hMem
    split at hMem
    · cases hMem
    · have hTick := Session.tick_lt_of_mem_watch options _ p hMem
      have hCycle := p.tick_cycle_le
      omega
  · intro report hResult
    have hInitial : (Session.initial image input options).processor.datapath.Bounded :=
      Datapath.bounded_initial image.data options.stackSize input
    have hWatch := simulateWatched_eq_watch hResult
    rw [← hRun, hWatch] at hResult
    exact Session.reaches_of_watch options _ hInitial (Nat.zero_le _) hResult

/-- The bounds are attained: a limit of four ticks makes room for two cycles, of which the second
can start one tick below the limit. It then ends three ticks behind the limit if it copies a word,
one behind it at an empty port, and right at it with a halt. -/
theorem simulate_keeps_to_limit_attained :
    let program (last : Instruction) : Image := ⟨[], [⟨0, .push, some 0⟩, last]⟩
    let options : Options := { tickLimit := 4 }
    options.tickLimit ≤ 2 ^ 64 - 4 ∧ (options.tickLimit + 1) / 2 = 2 ∧
      (simulate (program ⟨1, .push2, some 1⟩) [] options).result =
        .ok ⟨[], 2, 4 + 3, .tickLimitExceeded⟩ ∧
      (simulate (program ⟨1, .load, none⟩) [] options).result =
        .ok ⟨[], 2, 4 + 1, .inputExhausted⟩ ∧
      (simulate (program ⟨1, .halt, none⟩) [] options).result = .ok ⟨[], 2, 4, .halted⟩ ∧
      ∀ report, (simulate (program ⟨1, .push2, some 1⟩) [] options).result = .ok report →
        report.stop.Reaches options.tickLimit report.ticks := by
  intro program options
  have hLimit : options.tickLimit ≤ 2 ^ 64 - 4 := by decide
  refine ⟨hLimit, by decide, by cbv, by cbv, by cbv, ?_⟩
  exact (simulate_keeps_to_limit (program ⟨1, .push2, some 1⟩) [] hLimit).2.2.2

end StackProcessor
