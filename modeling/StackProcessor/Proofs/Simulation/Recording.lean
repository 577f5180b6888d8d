import StackProcessor.Proofs.Simulation.Ticks

/-!
# StackProcessor — what a run records

The events of a run come from the cycles that were carried out in full, one cycle after the other
(`Session.eventsOf`), and from the way in which the run ends (`closing`). A cycle records only what
can be seen of the state that it leaves: the port events (`Session.portEvents`), and a snapshot or
the one warning that the debug limit was reached. So the events can be put together from these
states (`left`). Which cycles there are and what the run yields does not depend on the limit up to
which it records them.

## Results
- `Session.mem_portEvents_iff`, `Session.traceEvent?_cases` : what a cycle records.
- `Session.events_run` : the events of a session, put together from the states that its cycles left.
- `Session.watch_congr` : the cycles and the result do not depend on the debug limit.
- `Session.pairwise_tick_left` : the clock moves forward from each of these states to the next.
-/

namespace StackProcessor

/-- The states that cycles left which were carried out in full, by those in which they started. -/
def left (started : List Processor) : List Processor :=
  (completed started).map fun p => p.cycle.state

theorem left_cons_of_completed {p q : Processor} (h : p.cycle = .completed q)
    (started : List Processor) : left (p :: started) = q :: left started := by
  rw [left, completed_cons_of_completed h, List.map_cons, h]
  rfl

theorem left_singleton_of_interrupted {p q : Processor} {cause : Interrupt}
    (h : p.cycle = .interrupted q cause) : left [p] = [] := by
  rw [left, completed_cons_of_interrupted h]
  rfl

/-- Whether the event is one of a cycle that was carried out in full. -/
def Event.isOfCycle : Event → Bool
  | input _ | output _ | cycle _ | debugLimit => true
  | _ => false

/-- The event with which a run that has a report stops. -/
def Report.stopEvent (r : Report) : Event :=
  match r.stop with
  | .halted => .halted r.ticks
  | .inputExhausted => .inputEmpty
  | .tickLimitExceeded => .tickLimit

/-- The events with which a run ends that has come to this state. -/
def closing (last : Processor) : Except RunFault Report → List Event
  | .ok report => [report.stopEvent, .outputBuffer report.output]
  | .error .emptyStack => []
  | .error (.fault cause) => [.fault cause last.pc last.tick]

theorem Report.stopEvent_isOfCycle (r : Report) : r.stopEvent.isOfCycle = false := by
  unfold stopEvent
  cases r.stop <;> rfl

/-- A run ends with events that are not of a cycle. -/
theorem isOfCycle_of_mem_closing {last : Processor} {result : Except RunFault Report} {e : Event}
    (h : e ∈ closing last result) : e.isOfCycle = false := by
  obtain (_ | cause) | report := result
  · cases h
  · obtain rfl := List.mem_singleton.mp h
    rfl
  · rcases List.mem_cons.mp h with rfl | hBuffer
    · exact report.stopEvent_isOfCycle
    · obtain rfl := List.mem_singleton.mp hBuffer
      rfl

namespace Session

-- ---------------------------------------------------------------------------
-- The events of a cycle
-- ---------------------------------------------------------------------------

/-- The events of the ports, which come first. -/
def portEvents (p : Processor) : List Event :=
  (p.received?.map Event.input).toList ++ (p.sent?.map Event.output).toList

theorem cycleEvents_eq_append (options : Options) (warned : Bool) (p : Processor) :
    cycleEvents options warned p = portEvents p ++ (traceEvent? options warned p).toList := rfl

theorem mem_portEvents_iff {p : Processor} {e : Event} :
    e ∈ portEvents p ↔
      (∃ w, p.received? = some w ∧ Event.input w = e) ∨
        ∃ w, p.sent? = some w ∧ Event.output w = e := by
  rw [portEvents, List.mem_append, Option.mem_toList, Option.mem_toList, Option.map_eq_some_iff,
    Option.map_eq_some_iff]

/-- Of a cycle either the snapshot is recorded, or the warning, or neither. -/
theorem traceEvent?_cases (options : Options) (warned : Bool) (p : Processor) :
    (p.tick < options.debugLimit ∧ traceEvent? options warned p = some (.cycle p.snapshot)) ∨
      (options.debugLimit ≤ p.tick ∧ warned = true ∧ traceEvent? options warned p = none) ∨
      (options.debugLimit ≤ p.tick ∧ warned = false ∧
        traceEvent? options warned p = some .debugLimit) := by
  unfold traceEvent?
  by_cases hBelow : p.tick < options.debugLimit
  · exact Or.inl ⟨hBelow, if_pos hBelow⟩
  · rw [if_neg hBelow]
    cases warned with
    | true => exact Or.inr (Or.inl ⟨Nat.le_of_not_lt hBelow, rfl, rfl⟩)
    | false => exact Or.inr (Or.inr ⟨Nat.le_of_not_lt hBelow, rfl, rfl⟩)

theorem eq_cycle_or_debugLimit_of_mem {options : Options} {warned : Bool} {p : Processor}
    {e : Event} (h : e ∈ (traceEvent? options warned p).toList) :
    e = .cycle p.snapshot ∨ e = .debugLimit := by
  rw [Option.mem_toList] at h
  rcases traceEvent?_cases options warned p with
    ⟨_, hTrace⟩ | ⟨_, _, hTrace⟩ | ⟨_, _, hTrace⟩
  · exact Or.inl (Option.some.inj (h.symm.trans hTrace))
  · exact nomatch h.symm.trans hTrace
  · exact Or.inr (Option.some.inj (h.symm.trans hTrace))

-- ---------------------------------------------------------------------------
-- The events of a run
-- ---------------------------------------------------------------------------

/-- The events of cycles that left these states. -/
def eventsOf (options : Options) (warned : Bool) : List Processor → List Event
  | [] => []
  | q :: rest =>
    cycleEvents options warned q ++ eventsOf options (warned || options.debugLimit ≤ q.tick) rest

theorem isOfCycle_of_mem_eventsOf {options : Options} {warned : Bool} {states : List Processor}
    {e : Event} (h : e ∈ eventsOf options warned states) : e.isOfCycle = true := by
  induction states generalizing warned with
  | nil => cases h
  | cons p rest ih =>
    rw [eventsOf, cycleEvents_eq_append, List.mem_append, List.mem_append] at h
    obtain (hPorts | hTrace) | hLater := h
    · rcases mem_portEvents_iff.mp hPorts with ⟨w, _, rfl⟩ | ⟨w, _, rfl⟩ <;> rfl
    · rcases eq_cycle_or_debugLimit_of_mem hTrace with rfl | rfl <;> rfl
    · exact ih hLater

/-- A report gives the output and the clock of the state that the run has come to. -/
def Reports (last : Processor) (result : Except RunFault Report) : Prop :=
  ∀ report, result = .ok report →
    report.output = last.datapath.output.toList ∧ report.ticks = last.tick

theorem finish_eq_closing (p : Processor) (instructions : Nat) (events : Array Event)
    (stop : StopReason) {last : Event}
    (hLast : last = Report.stopEvent ⟨p.datapath.output.toList, instructions, p.tick, stop⟩) :
    (finish p instructions events stop last).events.toList =
        events.toList ++ closing p (finish p instructions events stop last).result ∧
      Reports p (finish p instructions events stop last).result := by
  refine ⟨?_, ?_⟩
  · rw [hLast]
    simp [finish, closing]
  · rintro report hReport
    cases hReport
    exact ⟨rfl, rfl⟩

theorem interrupt_eq_closing (p : Processor) (instructions : Nat) (events : Array Event)
    (cause : Interrupt) :
    (interrupt p instructions events cause).events.toList =
        events.toList ++ closing p (interrupt p instructions events cause).result ∧
      Reports p (interrupt p instructions events cause).result := by
  cases cause with
  | halt => exact finish_eq_closing p instructions events .halted rfl
  | inputExhausted => exact finish_eq_closing p instructions events .inputExhausted rfl
  | fault cause =>
    refine ⟨?_, nofun⟩
    simp [interrupt, closing]

/-- The events of a run: those recorded before, those of the cycles that were carried out in full,
and those of the end. -/
theorem events_run (options : Options) (s : Session) :
    let started := (s.watch options).2
    let last := s.processor.cycles started.length
    (s.run options).events.toList = s.events.toList ++ eventsOf options s.debugWarned (left started)
        ++ closing last (s.run options).result ∧
      Reports last (s.run options).result := by
  induction s using Session.run.induct options with
  | case1 processor instructions warned events hLimit =>
    rw [run, watch, if_pos hLimit, if_pos hLimit]
    have hFinish :=
      @finish_eq_closing processor instructions events .tickLimitExceeded .tickLimit rfl
    show _ = events.toList ++ [] ++ closing processor _ ∧ _
    rwa [List.append_nil]
  | case2 processor instructions warned events hLimit q hCycle ih =>
    rw [run_of_completed hLimit hCycle, watch_of_completed hLimit hCycle]
    -- the first cycle leads to the state from which the others are counted
    have hLast : ∀ n, processor.cycles (n + 1) = q.cycles n := by
      intro n
      rw [Processor.cycles, hCycle, Attempt.state_completed]
    obtain ⟨hEvents, hReports⟩ := ih
    simp only [List.length_cons, hLast, left_cons_of_completed hCycle, eventsOf]
    refine ⟨?_, hReports⟩
    rw [hEvents, Array.toList_appendList]
    simp only [List.append_assoc]
  | case3 processor instructions warned events hLimit q cause hCycle =>
    rw [run_of_interrupted hLimit hCycle, watch_of_interrupted hLimit hCycle]
    have hLast : processor.cycles [processor].length = q := by
      rw [List.length_singleton, Processor.cycles, hCycle]
      rfl
    have hInterrupt := interrupt_eq_closing q (instructions + 1) events cause
    simp only [hLast, left_singleton_of_interrupted hCycle, eventsOf, List.append_nil]
    exact hInterrupt

-- ---------------------------------------------------------------------------
-- The cycles of a run
-- ---------------------------------------------------------------------------

/-- Sessions in the same state run the same cycles to the same result if their limits of ticks are
equal, whatever they have recorded and will record. -/
theorem watch_congr {options options' : Options} (hTick : options'.tickLimit = options.tickLimit)
    {s t : Session} (hProcessor : t.processor = s.processor)
    (hCount : t.instructions = s.instructions) :
    (t.watch options').2 = (s.watch options).2 ∧
      (t.run options').result = (s.run options).result := by
  induction s using Session.run.induct options generalizing t with
  | case1 processor instructions warned events hLimit =>
    obtain ⟨_, _, warned', events'⟩ := t
    obtain rfl := hProcessor
    obtain rfl := hCount
    have hLimit' := hTick.trans_le hLimit
    rw [watch, run, if_pos hLimit', if_pos hLimit', watch, run, if_pos hLimit, if_pos hLimit]
    exact ⟨rfl, rfl⟩
  | case2 processor instructions warned events hLimit q hCycle ih =>
    obtain ⟨_, _, warned', events'⟩ := t
    obtain rfl := hProcessor
    obtain rfl := hCount
    have hLimit' := hTick.symm ▸ hLimit
    rw [watch_of_completed hLimit' hCycle, run_of_completed hLimit' hCycle,
      watch_of_completed hLimit hCycle, run_of_completed hLimit hCycle]
    obtain ⟨hStarted, hResult⟩ := ih
      (t := ⟨q, _, warned' || options'.debugLimit ≤ q.tick,
        events' ++ cycleEvents options' warned' q⟩) rfl rfl
    exact ⟨congrArg (_ :: ·) hStarted, hResult⟩
  | case3 processor instructions warned events hLimit q cause hCycle =>
    obtain ⟨_, _, warned', events'⟩ := t
    obtain rfl := hProcessor
    obtain rfl := hCount
    have hLimit' := hTick.symm ▸ hLimit
    rw [watch_of_interrupted hLimit' hCycle, run_of_interrupted hLimit' hCycle,
      watch_of_interrupted hLimit hCycle, run_of_interrupted hLimit hCycle]
    refine ⟨rfl, ?_⟩
    cases cause <;> rfl

/-- The clock moves forward from the start to the first of the states that cycles left, and from
each of them to the next. -/
theorem pairwise_tick_left (options : Options) (s : Session) :
    (s.processor :: left (s.watch options).2).Pairwise fun p q => p.tick < q.tick := by
  refine watch_induction options
    (P := fun s w => (s.processor :: left w.2).Pairwise fun p q => p.tick < q.tick) ?_ ?_ ?_ s
  · intro s _
    exact List.pairwise_singleton _ _
  · intro s q warned events run started _ hCycle ih
    have hTick := Processor.tick_lt_of_cycle hCycle
    rw [left_cons_of_completed hCycle]
    refine List.pairwise_cons.mpr ⟨?_, ih⟩
    intro r hMem
    rcases List.mem_cons.mp hMem with rfl | hLater
    · exact hTick
    · exact hTick.trans ((List.pairwise_cons.mp ih).1 r hLater)
  · intro s q cause _ hCycle
    rw [left_singleton_of_interrupted hCycle]
    exact List.pairwise_singleton _ _

end Session

end StackProcessor
