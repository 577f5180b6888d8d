import StackProcessor.Proofs.Machine.Ports
import StackProcessor.Proofs.Simulation.Lockstep

/-!
# StackProcessor — more ticks and more input

A run that stops at the tick limit, or because no character is left, can be taken further: by a
higher limit in the one case, by more input in the other. Whatever it has done by then stays in
front of what it does later. A run that ends in another way has not noticed where the limit is, or
what waits behind the last character that it took, and stays the same in every detail.
`Run.ContinuedBy` states this for one `StopReason`, with the trace and the report of both runs.

A higher limit is compared by the `Session.exists_course` of the shorter run, which is the front of
the longer one's. More input is a `Variation` of the machine, so there the two runs go in lock step
(`Session.Variant.endTogether`).

## Results
- `simulate_with_higher_limit` : the runs of a program under two tick limits.
- `simulate_with_more_input` : the runs of a program on an input and on one that goes on behind it.
-/

namespace StackProcessor

/-- The second run goes on from the first one if that one stops for this reason. Otherwise both are
the same. -/
structure Run.ContinuedBy (stop : StopReason) (run longer : Run) : Prop where
  same : (∀ report, run.result = .ok report → report.stop ≠ stop) → longer = run
  trace : run.trace <+: longer.trace
  report : ∀ report report', run.result = .ok report → report.stop = stop →
    longer.result = .ok report' → report.ExtendedBy report'

namespace Run.ContinuedBy

variable {stop : StopReason} {run longer : Run}

theorem of_eq (stop : StopReason) (h : longer = run) : run.ContinuedBy stop longer := by
  subst h
  refine ⟨fun _ => rfl, List.prefix_rfl, ?_⟩
  intro report report' hResult _ hResult'
  rw [hResult] at hResult'
  cases hResult'
  exact .refl report

/-- The first run does stop for this reason. -/
theorem of_stop (report : Report) (hResult : run.result = .ok report) (hStop : report.stop = stop)
    (hTrace : run.trace <+: longer.trace)
    (hReport : ∀ report', longer.result = .ok report' → report.ExtendedBy report') :
    run.ContinuedBy stop longer where
  same := fun hOther => absurd hStop (hOther report hResult)
  trace := hTrace
  report := by
    intro other report' hOther _ hResult'
    rw [hResult] at hOther
    cases hOther
    exact hReport report' hResult'

end Run.ContinuedBy

-- ---------------------------------------------------------------------------
-- More ticks
-- ---------------------------------------------------------------------------

/-- Under a higher limit a session is left in the same way, unless it was left for the limit. -/
theorem Session.continuedBy_of_le {options longer : Options} (s : Session)
    (hDebug : longer.debugLimit = options.debugLimit)
    (hTick : options.tickLimit ≤ longer.tickLimit) :
    (s.run options).ContinuedBy .tickLimitExceeded (s.run longer) := by
  obtain ⟨t, hLeads, hEnds⟩ := exists_course options s
  have hRun := run_eq_of_leads (hLeads.mono hDebug hTick)
  rcases hEnds.limit_or_interrupted with hLimit | ⟨q, cause, hLimit, hCycle⟩
  · -- the run is taken up where the lower limit has stopped it
    have hStopped := run_eq_of_ends (.limit hLimit)
    rw [run_eq_of_leads hLeads] at hStopped
    rw [← hRun]
    refine .of_stop (t.standing .tickLimitExceeded) ?_ rfl ?_ fun report' hResult' => ?_
    · rw [hStopped]
      rfl
    · rw [trace_of_ends hEnds]
      exact trace_prefix_run longer t
    · exact extendedBy_of_run hResult' _
  · have hLonger : t.processor.tick < longer.tickLimit := Nat.lt_of_lt_of_le hLimit hTick
    refine .of_eq _ ?_
    rw [← hRun, ← run_eq_of_leads hLeads, run_eq_of_ends (.interrupted hLonger hCycle),
      run_eq_of_ends (.interrupted hLimit hCycle)]

/-- **Tick limits**: raising the limit only takes a run further. A run that faults, halts or
exhausts its input is the same under every higher limit. A run that stops at the limit has traced
the beginning of what it traces under a higher one, and its report is extended by the one it has
then. -/
theorem simulate_with_higher_limit (image : Image) (input : List Char) (options : Options)
    {limit : Nat} (hLimit : options.tickLimit ≤ limit) :
    (simulate image input options).ContinuedBy .tickLimitExceeded
      (simulate image input { options with tickLimit := limit }) := by
  by_cases hStack : options.stackSize = 0
  · refine .of_eq _ ?_
    rw [simulate_of_stackSize_eq_zero image input options hStack]
    exact simulate_of_stackSize_eq_zero image input _ hStack
  · rw [simulate_of_stackSize_ne_zero image input options hStack,
      simulate_of_stackSize_ne_zero image input { options with tickLimit := limit } hStack]
    exact Session.continuedBy_of_le _ rfl hLimit

/-- A program that sends the same letter over and over, stopped at two limits: the third cycle ends
right at the first one, the seventh two ticks behind the second. -/
theorem simulate_with_higher_limit_loop :
    let image : Image :=
      ⟨[], [⟨0, .push, some 65⟩, ⟨1, .push2, some 1⟩, ⟨2, .pop, none⟩, ⟨3, .jump, some 0⟩]⟩
    let below : Report := ⟨[65], 3, 10, .tickLimitExceeded⟩
    let above : Report := ⟨[65, 65], 7, 22, .tickLimitExceeded⟩
    (simulate image [] { tickLimit := 10 }).result = .ok below ∧
      (simulate image [] { tickLimit := 20 }).result = .ok above ∧
      (simulate image [] { tickLimit := 10 }).trace <+:
        (simulate image [] { tickLimit := 20 }).trace ∧
      below.ExtendedBy above := by
  intro image below above
  have hBelow : (simulate image [] { tickLimit := 10 }).result = .ok below := by cbv
  have hAbove : (simulate image [] { tickLimit := 20 }).result = .ok above := by cbv
  have hLimit : 10 ≤ 20 := by decide
  have hContinued := simulate_with_higher_limit image [] { tickLimit := 10 } hLimit
  exact ⟨hBelow, hAbove, hContinued.trace, hContinued.report below above hBelow rfl hAbove⟩

-- ---------------------------------------------------------------------------
-- More input
-- ---------------------------------------------------------------------------

/-- What is reported when no character is left goes into the report of the variant, which takes one:
its cycle takes longer, and sends nothing less. -/
theorem Session.Variant.extendedBy_of_inputExhausted {z : Variation} {options : Options}
    {s t : Session} (h : s.Variant z [] t) {q r : Processor}
    (hCycle : s.processor.cycle = .interrupted q .inputExhausted)
    (hCycle' : t.processor.cycle = .completed r) :
    Report.ExtendedBy
      ⟨q.datapath.output.toList, s.instructions + 1, q.tick, .inputExhausted⟩
      ((t.advance options r).standing .inputExhausted) := by
  have hBounded := h.processor.datapath.bounded
  refine ⟨?_, Nat.le_of_eq (congrArg (· + 1) h.instructions.symm), ?_⟩
  · have hSent := Datapath.Traffic.output_prefix (Processor.traffic_cycle t.processor)
    rw [hCycle', Attempt.state_completed, h.processor.datapath.output] at hSent
    rw [(Processor.sameStore_of_cycle hBounded hCycle).2.2]
    exact hSent
  · have hTicks := Processor.tick_of_cycle_inputExhausted hBounded hCycle
    have hTicks' := Processor.two_le_of_cycle hCycle'
    rw [h.processor.tick] at hTicks'
    show q.tick ≤ r.tick
    omega

/-- A session is taken up where no character was left, and a character is there. -/
theorem Session.Variant.continuedBy_of_inputExhausted {z : Variation} {options : Options}
    {s t : Session} (h : s.Variant z [] t) (hMore : z.input ≠ [])
    (hLimit : s.processor.tick < options.tickLimit) {q : Processor}
    (hCycle : s.processor.cycle = .interrupted q .inputExhausted) :
    (s.run options).ContinuedBy .inputExhausted (t.run options) := by
  have hCause : s.processor.cycle.cause? = some .inputExhausted := by
    rw [hCycle]
    rfl
  obtain ⟨r, hCycle'⟩ := h.processor.exists_completed_of_inputExhausted hMore hCause
  have hNext : Next options t (t.advance options r) := by
    refine ⟨?_, r, hCycle', rfl⟩
    rw [h.processor.tick]
    exact hLimit
  have hEnds := Ends.interrupted hLimit hCycle
  have hTrace : s.trace = t.trace := by
    rw [trace, trace, h.events, funext Event.widened_nil, Array.map_id']
  refine .of_stop ⟨q.datapath.output.toList, s.instructions + 1, q.tick, .inputExhausted⟩ ?_ rfl
    ?_ fun report' hResult' => ?_
  · rw [run_eq_of_ends hEnds]
    rfl
  · rw [run_eq_of_ends hEnds, trace_of_ends hEnds, hTrace]
    exact trace_prefix_run options t
  · rw [← run_eq_of_next hNext] at hResult'
    exact (h.extendedBy_of_inputExhausted hCycle hCycle').trans
      (extendedBy_of_run hResult' .inputExhausted)

/-- **Causality**: what a program does depends on no character that it has not yet taken. A run that
does not exhaust its input is the same when more characters wait behind it. A run that does has
traced the beginning of what it traces with more characters, and its report is extended by the one
it has then, so that no output is lost. -/
theorem simulate_with_more_input (image : Image) (input more : List Char) (options : Options) :
    (simulate image input options).ContinuedBy .inputExhausted
      (simulate image (input ++ more) options) := by
  by_cases hStack : options.stackSize = 0
  · refine .of_eq _ ?_
    rw [simulate_of_stackSize_eq_zero image input options hStack,
      simulate_of_stackSize_eq_zero image (input ++ more) options hStack]
  · rw [simulate_of_stackSize_ne_zero image input options hStack,
      simulate_of_stackSize_ne_zero image (input ++ more) options hStack]
    let z : Variation := { input := more }
    have hInitial : (Session.initial image input options).Variant z []
        (Session.initial image (input ++ more) options) :=
      Session.variant_initial_of_cells_eq_empty (image.variant_self rfl rfl) rfl input options
    rcases hInitial.run_eq_or_lifted options rfl with
      hSame | ⟨s, t, q, cause, hComeTo, hCycle, hLifted⟩
    · refine .of_eq _ ?_
      rw [hSame, Run.widened_nil]
    · obtain ⟨rfl, hMore⟩ := z.eq_inputExhausted_of_lifts hLifted rfl rfl rfl
      rw [← Session.run_eq_of_leads hComeTo.leads,
        ← Session.run_eq_of_leads hComeTo.leads_variant]
      exact hComeTo.variant.continuedBy_of_inputExhausted hMore hComeTo.tick_lt hCycle

/-- A program that sends what it receives, on one character and on two. -/
theorem simulate_with_more_input_echo :
    let image : Image := ⟨[], [⟨0, .push, some 1⟩, ⟨1, .push, some 0⟩, ⟨2, .load, none⟩,
      ⟨3, .pop, none⟩, ⟨4, .jump, some 0⟩]⟩
    let short : Report := ⟨[97], 8, 22, .inputExhausted⟩
    let long : Report := ⟨[97, 98], 13, 36, .inputExhausted⟩
    (simulate image ['a'] {}).result = .ok short ∧
      (simulate image ['a', 'b'] {}).result = .ok long ∧
      (simulate image ['a'] {}).trace <+: (simulate image ['a', 'b'] {}).trace ∧
      short.ExtendedBy long := by
  intro image short long
  have hShort : (simulate image ['a'] {}).result = .ok short := by cbv
  have hLong : (simulate image ['a', 'b'] {}).result = .ok long := by cbv
  have hContinued := simulate_with_more_input image ['a'] ['b'] {}
  exact ⟨hShort, hLong, hContinued.trace, hContinued.report short long hShort rfl hLong⟩

end StackProcessor
