import StackProcessor.Proofs.Simulation.Recording
import StackProcessor.Proofs.Simulation.Transcript

/-!
# StackProcessor — tracing

Tracing only looks on. The result of a run does not depend on how far it is traced, and the trace
holds a snapshot of each cycle that was carried out in full and ended below the debug limit. As the
clock moves forward from cycle to cycle, these are the first cycles of the run, so that a higher
limit only makes the trace longer, and the warning that the limit was reached stands behind all of
them. `Run.Traces` states this of a run, a limit and the states that the cycles of the run left. A
cycle that halts or finds no character is not carried out in full, and has no snapshot.

## Results
- `Session.filterMap_snapshot?_eventsOf`, `Session.count_debugLimit_eventsOf` : the snapshots and
  the warning among the events of cycles.
- `Session.pairwise_eventsOf` : no snapshot is recorded behind the warning.
- `simulate_traces_below_limit` : the trace and the log of a program under two debug limits.
-/

namespace StackProcessor

/-- Of numbers that grow, those below a limit come before those below a higher one. -/
theorem filter_lt_prefix_of_pairwise {α : Type} {f : α → Nat} {l : List α}
    (h : l.Pairwise fun a b => f a < f b) {d d' : Nat} (hLimit : d ≤ d') :
    (l.filter fun a => f a < d) <+: l.filter fun a => f a < d' := by
  induction l with
  | nil => exact List.prefix_rfl
  | cons a rest ih =>
    obtain ⟨hLater, hRest⟩ := List.pairwise_cons.mp h
    by_cases hBelow : f a < d
    · have hBelow' : f a < d' := by omega
      rw [List.filter_cons_of_pos (by simpa using hBelow),
        List.filter_cons_of_pos (by simpa using hBelow')]
      exact (List.prefix_cons_inj a).mpr (ih hRest)
    · -- none of those that follow is below the limit either
      have hNone : (a :: rest).filter (fun b => f b < d) = [] := by
        rw [List.filter_eq_nil_iff]
        intro b hMem
        rcases List.mem_cons.mp hMem with rfl | hMem
        · simpa using hBelow
        · have hLess := hLater b hMem
          simp only [decide_eq_true_eq]
          omega
      rw [hNone]
      exact List.nil_prefix

namespace Session

variable {options : Options}

-- ---------------------------------------------------------------------------
-- Snapshots and the warning
-- ---------------------------------------------------------------------------

theorem of_mem_portEvents {p : Processor} {e : Event} (h : e ∈ portEvents p) :
    e.snapshot? = none ∧ e ≠ .debugLimit := by
  rcases mem_portEvents_iff.mp h with ⟨w, _, rfl⟩ | ⟨w, _, rfl⟩
  · exact ⟨rfl, nofun⟩
  · exact ⟨rfl, nofun⟩

theorem filterMap_snapshot?_cycleEvents (options : Options) (warned : Bool) (p : Processor) :
    (cycleEvents options warned p).filterMap Event.snapshot? =
      if p.tick < options.debugLimit then [p.snapshot] else [] := by
  have hPorts : (portEvents p).filterMap Event.snapshot? = [] :=
    List.filterMap_eq_nil_iff.mpr fun e hMem => (of_mem_portEvents hMem).1
  rw [cycleEvents_eq_append, List.filterMap_append, hPorts, List.nil_append]
  rcases traceEvent?_cases options warned p with
    ⟨hBelow, hTrace⟩ | ⟨hBeyond, _, hTrace⟩ | ⟨hBeyond, _, hTrace⟩
  · rw [hTrace, if_pos hBelow]
    rfl
  · rw [hTrace, if_neg (Nat.not_lt.mpr hBeyond)]
    rfl
  · rw [hTrace, if_neg (Nat.not_lt.mpr hBeyond)]
    rfl

/-- The snapshots that cycles record are those below the limit. -/
theorem filterMap_snapshot?_eventsOf (options : Options) (warned : Bool) (states : List Processor) :
    (eventsOf options warned states).filterMap Event.snapshot? =
      (states.map Processor.snapshot).filter fun s => s.tick < options.debugLimit := by
  induction states generalizing warned with
  | nil => rfl
  | cons p rest ih =>
    have hTick : p.snapshot.tick = p.tick := rfl
    rw [eventsOf, List.filterMap_append, ih, filterMap_snapshot?_cycleEvents, List.map_cons,
      List.filter_cons, hTick]
    by_cases hBelow : p.tick < options.debugLimit
    · simp [hBelow]
    · simp [hBelow]

theorem count_debugLimit_cycleEvents (options : Options) (warned : Bool) (p : Processor) :
    (cycleEvents options warned p).count .debugLimit =
      if warned = false ∧ options.debugLimit ≤ p.tick then 1 else 0 := by
  have hPorts : (portEvents p).count .debugLimit = 0 :=
    List.count_eq_zero.mpr fun hMem => (of_mem_portEvents hMem).2 rfl
  rw [cycleEvents_eq_append, List.count_append, hPorts, Nat.zero_add]
  rcases traceEvent?_cases options warned p with
    ⟨hBelow, hTrace⟩ | ⟨_, hWarned, hTrace⟩ | ⟨hBeyond, hWarned, hTrace⟩
  · rw [hTrace, if_neg (fun h => Nat.not_lt.mpr h.2 hBelow)]
    rfl
  · rw [hTrace, if_neg (fun h => by simp [hWarned] at h)]
    rfl
  · rw [hTrace, if_pos ⟨hWarned, hBeyond⟩]
    rfl

/-- Cycles warn once, if they have not warned before and one of them ends at the limit or behind
it. -/
theorem count_debugLimit_eventsOf (options : Options) (warned : Bool) (states : List Processor) :
    (eventsOf options warned states).count .debugLimit =
      if warned = false ∧ ∃ p ∈ states, options.debugLimit ≤ p.tick then 1 else 0 := by
  induction states generalizing warned with
  | nil => simp [eventsOf]
  | cons p rest ih =>
    rw [eventsOf, List.count_append, ih, count_debugLimit_cycleEvents]
    by_cases hBeyond : options.debugLimit ≤ p.tick
    · simp [hBeyond]
    · simp [hBeyond]

/-- A cycle that warns ends at the limit or behind it. -/
theorem le_tick_of_mem_cycleEvents {options : Options} {warned : Bool} {p : Processor}
    (h : .debugLimit ∈ cycleEvents options warned p) : options.debugLimit ≤ p.tick := by
  have hPositive := List.count_pos_iff.mpr h
  rw [count_debugLimit_cycleEvents] at hPositive
  by_contra hBelow
  rw [if_neg fun hBoth => hBelow hBoth.2] at hPositive
  omega

/-- Cycles that end at the limit or behind it have no snapshots. -/
theorem snapshot?_of_mem_eventsOf {options : Options} {warned : Bool} {states : List Processor}
    (h : ∀ p ∈ states, options.debugLimit ≤ p.tick) {e : Event}
    (hMem : e ∈ eventsOf options warned states) : e.snapshot? = none := by
  have hNone : (eventsOf options warned states).filterMap Event.snapshot? = [] := by
    rw [filterMap_snapshot?_eventsOf, List.filter_eq_nil_iff]
    intro s hState
    obtain ⟨p, hp, rfl⟩ := List.mem_map.mp hState
    exact fun hBelow => Nat.not_lt.mpr (h p hp) (of_decide_eq_true hBelow)
  exact List.filterMap_eq_nil_iff.mp hNone e hMem

/-- Behind the warning there is no snapshot. -/
theorem pairwise_eventsOf {states : List Processor}
    (h : states.Pairwise fun p q => p.tick < q.tick) (options : Options) (warned : Bool) :
    (eventsOf options warned states).Pairwise fun e e' =>
      e = .debugLimit → e'.snapshot? = none := by
  induction states generalizing warned with
  | nil => exact List.Pairwise.nil
  | cons p rest ih =>
    obtain ⟨hLater, hRest⟩ := List.pairwise_cons.mp h
    rw [eventsOf, List.pairwise_append]
    refine ⟨?_, ih hRest _, ?_⟩
    · -- the warning is the last event of its cycle
      rw [cycleEvents_eq_append, List.pairwise_append]
      refine ⟨?_, ?_, ?_⟩
      · exact List.pairwise_of_forall_mem_list fun e hMem _ _ hEq =>
          absurd hEq (of_mem_portEvents hMem).2
      · cases traceEvent? options warned p with
        | none => exact List.Pairwise.nil
        | some e => exact List.pairwise_singleton _ e
      · intro e hMem _ _ hEq
        exact absurd hEq (of_mem_portEvents hMem).2
    · -- the cycles after it end even later
      rintro _ hMem e' hMem' rfl
      have hBeyond : options.debugLimit ≤ p.tick := le_tick_of_mem_cycleEvents hMem
      exact snapshot?_of_mem_eventsOf (fun q hq => Nat.le_of_lt (hBeyond.trans_lt (hLater q hq)))
        hMem'

end Session

/-- An event that is not of a cycle has no part in the trace. -/
theorem Event.of_not_isOfCycle {e : Event} (h : e.isOfCycle = false) :
    e.snapshot? = none ∧ e ≠ .debugLimit := by
  cases e <;> cases h <;> exact ⟨rfl, nofun⟩

-- ---------------------------------------------------------------------------
-- Traces
-- ---------------------------------------------------------------------------

/-- What a run traces under a debug limit whose cycles left these states. -/
structure Run.Traces (run : Run) (limit : Nat) (states : List Processor) : Prop where
  /-- There is a snapshot of each state below the limit, in order. -/
  trace : run.trace = (states.map Processor.snapshot).filter fun s => s.tick < limit
  increasing : run.trace.Pairwise fun s t => s.tick < t.tick
  complete : (∀ p ∈ states, p.tick < limit) → run.trace.length = states.length
  /-- The log shows these snapshots and no others. -/
  lines : Log.headed "TICK: " run.log = run.trace.map Log.snapshotLine
  once : run.log.count Log.debugWarning ≤ 1
  warns : Log.debugWarning ∈ run.log ↔ ∃ p ∈ states, limit ≤ p.tick
  /-- No snapshot is shown behind the warning. -/
  warns_last : ∀ before after, run.log = before ++ Log.debugWarning :: after →
    Log.headed "TICK: " after = []

/-- Behind the line of a warning there is no line of a snapshot if there is no snapshot behind the
warning. -/
theorem Event.headed_of_entries_eq {text : String} {es : List Event} {before after : List Log.Entry}
    (h : es.Pairwise fun e e' => e = .debugLimit → e'.snapshot? = none)
    (hLog : Event.entries text es = before ++ Log.debugWarning :: after) :
    Log.headed "TICK: " after = [] := by
  induction es generalizing text before with
  | nil => simp [Event.entries] at hLog
  | cons e rest ih =>
    obtain ⟨hFirst, hRest⟩ := List.pairwise_cons.mp h
    rw [Event.entries] at hLog
    cases before with
    | nil =>
      obtain ⟨hWarning, rfl⟩ := List.cons.inj hLog
      have hLimit := (Event.entry_eq_debugWarning_iff _ e).mp hWarning
      have hNone : rest.filterMap Event.snapshot? = [] :=
        List.filterMap_eq_nil_iff.mpr fun e' hMem => hFirst e' hMem hLimit
      rw [Event.headed_cycles, hNone, List.map_nil]
    | cons entry before => exact ih hRest (List.cons.inj hLog).2

theorem Run.traces_of_events {run : Run} {options : Options} {states : List Processor}
    {last : List Event} (hTicks : states.Pairwise fun p q => p.tick < q.tick)
    (hEnd : ∀ e ∈ last, e.isOfCycle = false)
    (hEvents : run.events.toList = Session.eventsOf options false states ++ last) :
    run.Traces options.debugLimit states := by
  have hLast : ∀ e ∈ last, e.snapshot? = none ∧ e ≠ .debugLimit :=
    fun e hMem => Event.of_not_isOfCycle (hEnd e hMem)
  have hTrace : run.trace =
      (states.map Processor.snapshot).filter fun s => s.tick < options.debugLimit := by
    rw [Run.trace, hEvents, List.filterMap_append, Session.filterMap_snapshot?_eventsOf,
      List.filterMap_eq_nil_iff.mpr fun e hMem => (hLast e hMem).1, List.append_nil]
  have hCount : run.log.count Log.debugWarning =
      if ∃ p ∈ states, options.debugLimit ≤ p.tick then 1 else 0 := by
    rw [Run.log_eq_entries, Event.count_debugWarning, hEvents, List.count_append,
      Session.count_debugLimit_eventsOf,
      List.count_eq_zero.mpr fun hMem => (hLast _ hMem).2 rfl]
    simp
  refine ⟨hTrace, ?_, ?_, ?_, ?_, ?_, ?_⟩
  · have hSnapshots : (states.map Processor.snapshot).Pairwise fun s t => s.tick < t.tick :=
      List.pairwise_map.mpr hTicks
    rw [hTrace]
    exact hSnapshots.filter _
  · intro hAll
    have hKept : ∀ s ∈ states.map Processor.snapshot,
        decide (s.tick < options.debugLimit) = true := by
      intro _ hMem
      obtain ⟨p, hp, rfl⟩ := List.mem_map.mp hMem
      exact decide_eq_true (hAll p hp)
    rw [hTrace, List.filter_eq_self.mpr hKept, List.length_map]
  · rw [Run.log_eq_entries, Event.headed_cycles, Run.trace]
  · rw [hCount]
    split <;> omega
  · rw [← List.count_pos_iff, hCount]
    split <;> simp_all
  · intro before after hLog
    rw [Run.log_eq_entries, hEvents] at hLog
    refine Event.headed_of_entries_eq ?_ hLog
    rw [List.pairwise_append]
    refine ⟨Session.pairwise_eventsOf hTicks options false, ?_, ?_⟩
    · exact List.pairwise_of_forall_mem_list fun e hMem _ _ hEq => absurd hEq (hLast e hMem).2
    · exact fun _ _ e' hMem' _ => (hLast e' hMem').1

/-- The events of a program are those of the states that its cycles left, and those of its end. -/
theorem exists_events_simulate (image : Image) (input : List Char) (options : Options) :
    ∃ last, (simulate image input options).events.toList =
        Session.eventsOf options false (left (simulateWatched image input options).2) ++ last ∧
      ∀ e ∈ last, e.isOfCycle = false := by
  by_cases hStack : options.stackSize = 0
  · refine ⟨[], ?_, nofun⟩
    rw [simulate, if_pos hStack, simulateWatched, if_pos hStack]
    rfl
  · have hEvents := (Session.events_run options (Session.initial image input options)).1
    rw [simulate, if_neg hStack, simulateWatched, if_neg hStack, hEvents]
    exact ⟨_, rfl, fun _ => isOfCycle_of_mem_closing⟩

/-- A run does the same under every debug limit. -/
theorem simulateWatched_with_debugLimit (image : Image) (input : List Char) (options : Options)
    (limit : Nat) :
    (simulateWatched image input { options with debugLimit := limit }).2 =
        (simulateWatched image input options).2 ∧
      (simulate image input { options with debugLimit := limit }).result =
        (simulate image input options).result := by
  unfold simulateWatched simulate
  by_cases hStack : options.stackSize = 0
  · simp [hStack]
  · rw [if_neg hStack, if_neg hStack, if_neg hStack, if_neg hStack]
    exact @Session.watch_congr options { options with debugLimit := limit } rfl _ _ rfl rfl

/-- The clock moves forward from each of the states that the cycles of a program left to the
next. -/
theorem pairwise_tick_simulateWatched (image : Image) (input : List Char) (options : Options) :
    (left (simulateWatched image input options).2).Pairwise fun p q => p.tick < q.tick := by
  unfold simulateWatched
  split
  · exact List.Pairwise.nil
  · exact (Session.pairwise_tick_left options (Session.initial image input options)).of_cons

/-- **Tracing only looks on**: a run starts the same cycles and comes to the same result under every
debug limit. What it traces are the states in which cycles that were carried out in full ended below
the limit, so that a higher limit makes the trace longer at its end and changes nothing else; the
log holds the same snapshots. It warns once if some cycle ended at the limit or behind it, with no
snapshot after that, and otherwise not at all. -/
theorem simulate_traces_below_limit (image : Image) (input : List Char) (options : Options)
    {d d' : Nat} (hLimit : d ≤ d') :
    let run (limit : Nat) := simulate image input { options with debugLimit := limit }
    let watched (limit : Nat) := simulateWatched image input { options with debugLimit := limit }
    let started := (watched d).2
    (∀ limit, (watched limit).1 = run limit ∧ (watched limit).2 = started) ∧
      started = (List.range started.length).map
        (Processor.initial image options.stackSize input).cycles ∧
      (run d').result = (run d).result ∧
      (left started).Pairwise (fun p q => p.tick < q.tick) ∧
      (run d).Traces d (left started) ∧ (run d').Traces d' (left started) ∧
      (run d).trace <+: (run d').trace := by
  intro run watched started
  have hSame (limit : Nat) : (watched limit).2 = started ∧ (run limit).result = (run d).result :=
    simulateWatched_with_debugLimit image input { options with debugLimit := d } limit
  have hTicks : (left started).Pairwise fun p q => p.tick < q.tick :=
    pairwise_tick_simulateWatched image input { options with debugLimit := d }
  have hTraces (limit : Nat) : (run limit).Traces limit (left started) := by
    obtain ⟨last, hEvents, hLast⟩ :=
      exists_events_simulate image input { options with debugLimit := limit }
    have hStates : (simulateWatched image input { options with debugLimit := limit }).2 = started :=
      (hSame limit).1
    rw [hStates] at hEvents
    exact Run.traces_of_events hTicks hLast hEvents
  have hStarted : started = (List.range started.length).map
      (Processor.initial image options.stackSize input).cycles :=
    snd_simulateWatched image input { options with debugLimit := d }
  refine ⟨fun limit => ⟨fst_simulateWatched _ _ _, (hSame limit).1⟩, hStarted, (hSame d').2, hTicks,
    hTraces d, hTraces d', ?_⟩
  have hSnapshots : ((left started).map Processor.snapshot).Pairwise fun s t => s.tick < t.tick :=
    List.pairwise_map.mpr hTicks
  rw [(hTraces d).trace, (hTraces d').trace]
  exact filter_lt_prefix_of_pairwise hSnapshots hLimit

/-- A program that halts with its third cycle. Of the two cycles before it, which end at the ticks
3 and 7, the limits admit one and both. -/
theorem simulate_traces_below_limit_halted :
    let image : Image := ⟨[], [⟨0, .push, some 65⟩, ⟨1, .push2, some 1⟩, ⟨2, .halt, none⟩]⟩
    let run (limit : Nat) := simulate image [] { debugLimit := limit }
    5 ≤ 8 ∧ (run 8).result = .ok ⟨[], 3, 8, .halted⟩ ∧ (run 8).result = (run 5).result ∧
      (run 5).trace.map Snapshot.tick = [3] ∧ (run 8).trace.map Snapshot.tick = [3, 7] ∧
      (run 5).trace <+: (run 8).trace := by
  intro image run
  have hLimit : 5 ≤ 8 := by decide
  have hReport : (simulate image [] { debugLimit := 8 }).result = .ok ⟨[], 3, 8, .halted⟩ := by cbv
  have hShort : (simulate image [] { debugLimit := 5 }).trace.map Snapshot.tick = [3] := by cbv
  have hLong : (simulate image [] { debugLimit := 8 }).trace.map Snapshot.tick = [3, 7] := by cbv
  obtain ⟨_, _, hResult, _, _, _, hPrefix⟩ := simulate_traces_below_limit image [] {} hLimit
  exact ⟨hLimit, hReport, hResult, hShort, hLong, hPrefix⟩

end StackProcessor
