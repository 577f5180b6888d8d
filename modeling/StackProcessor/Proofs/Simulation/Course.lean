import Mathlib.Logic.Relation
import StackProcessor.Proofs.Machine.Clock
import StackProcessor.Proofs.Machine.ControlFlow

/-!
# StackProcessor — the course of a run

A run goes from session to session, with one completed cycle between each and the next
(`Session.Next`), and ends in the first session that has no such cycle before the limit
(`Session.Ends`). `Session.Leads` is any number of steps on this course. Two runs can then be
compared session by session, and all that is left to compare are their ends.

On its way a run only adds: to the events, to the output, to the cycles counted and to the ticks
(`Report.ExtendedBy`).

## Results
- `Session.exists_course` : every run has a course, and ends at the end of it.
- `Session.run_eq_of_leads` : a run can be taken up in any session of its course.
- `Session.run_congr` : of the options a run looks at the two limits only.
- `Session.trace_prefix_run`, `Session.extendedBy_of_run` : what a run adds to a session.
-/

namespace StackProcessor

-- ---------------------------------------------------------------------------
-- Reports that go on from one another
-- ---------------------------------------------------------------------------

/-- The second report goes on where the first one stops. -/
structure Report.ExtendedBy (r r' : Report) : Prop where
  output : r.output <+: r'.output
  instructions : r.instructions ≤ r'.instructions
  ticks : r.ticks ≤ r'.ticks

theorem Report.ExtendedBy.refl (r : Report) : r.ExtendedBy r :=
  ⟨List.prefix_rfl, Nat.le_refl _, Nat.le_refl _⟩

theorem Report.ExtendedBy.trans {r r' r'' : Report} (h : r.ExtendedBy r')
    (h' : r'.ExtendedBy r'') : r.ExtendedBy r'' where
  output := h.output.trans h'.output
  instructions := Nat.le_trans h.instructions h'.instructions
  ticks := Nat.le_trans h.ticks h'.ticks

theorem Processor.tick_le_cycle (p : Processor) : p.tick ≤ p.cycle.state.tick := by
  rcases cycle_cases p with ⟨cause, hCycle⟩ | ⟨inst, op, _, _, hCycle⟩
  · rw [hCycle, Attempt.state_interrupted]
  · have hFetch : p.tick ≤ (p.fetch inst).tick := Nat.le_succ p.tick
    rw [hCycle]
    exact Nat.le_trans hFetch (tick_le_perform _ _)

namespace Session

-- ---------------------------------------------------------------------------
-- From session to session
-- ---------------------------------------------------------------------------

/-- The session after a completed cycle, which has left the processor as `p`. -/
def advance (options : Options) (s : Session) (p : Processor) : Session where
  processor := p
  instructions := s.instructions + 1
  debugWarned := s.debugWarned || options.debugLimit ≤ p.tick
  events := s.events ++ cycleEvents options s.debugWarned p

/-- A cycle is started in the session `s`, and completes. -/
def Next (options : Options) (s t : Session) : Prop :=
  s.processor.tick < options.tickLimit ∧
    ∃ p, s.processor.cycle = .completed p ∧ t = s.advance options p

/-- The run goes from `s` to `t`, by any number of completed cycles. -/
abbrev Leads (options : Options) : Session → Session → Prop :=
  Relation.ReflTransGen (Next options)

/-- The run that ends in the session `s`: no cycle is started in it, or one that is interrupted. -/
inductive Ends (options : Options) (s : Session) : Run → Prop where
  | limit : options.tickLimit ≤ s.processor.tick →
    Ends options s
      (finish s.processor s.instructions s.events .tickLimitExceeded .tickLimit)
  | interrupted {q : Processor} {cause : Interrupt} : s.processor.tick < options.tickLimit →
    s.processor.cycle = .interrupted q cause →
    Ends options s (interrupt q (s.instructions + 1) s.events cause)

variable {options : Options} {s t : Session} {run : Run}

theorem Ends.limit_or_interrupted (h : s.Ends options run) :
    options.tickLimit ≤ s.processor.tick ∨
      ∃ q cause, s.processor.tick < options.tickLimit ∧
        s.processor.cycle = .interrupted q cause := by
  cases h with
  | limit hLimit => exact Or.inl hLimit
  | interrupted hLimit hCycle => exact Or.inr ⟨_, _, hLimit, hCycle⟩

theorem run_eq_of_ends (h : s.Ends options run) : s.run options = run := by
  obtain ⟨processor, instructions, warned, events⟩ := s
  cases h with
  | limit hLimit => rw [Session.run, if_pos hLimit]
  | interrupted hLimit hCycle => exact run_of_interrupted (Nat.not_le_of_lt hLimit) hCycle

theorem run_eq_of_next (h : Next options s t) : t.run options = s.run options := by
  obtain ⟨hLimit, p, hCycle, rfl⟩ := h
  obtain ⟨processor, instructions, warned, events⟩ := s
  exact (run_of_completed (Nat.not_le_of_lt hLimit) hCycle).symm

/-- A run can be taken up in any session that it goes through. -/
theorem run_eq_of_leads (h : Leads options s t) : t.run options = s.run options := by
  induction h with
  | refl => rfl
  | tail _ hNext ih => rw [run_eq_of_next hNext, ih]

/-- No cycle changes the code. -/
theorem code_of_leads (h : Leads options s t) : t.processor.code = s.processor.code := by
  induction h with
  | refl => rfl
  | @tail u v _ hNext ih =>
    obtain ⟨_, p, hCycle, rfl⟩ := hNext
    have hCode := Processor.code_cycle u.processor
    rw [hCycle, Attempt.state_completed] at hCode
    exact hCode.trans ih

/-- Every run comes to the session in which it ends. -/
theorem exists_course (options : Options) (s : Session) :
    ∃ t, Leads options s t ∧ t.Ends options (s.run options) := by
  induction s using Session.run.induct options with
  | case1 processor instructions warned events hLimit =>
    refine ⟨_, .refl, ?_⟩
    rw [Session.run, if_pos hLimit]
    exact .limit (s := ⟨processor, instructions, warned, events⟩) hLimit
  | case2 processor instructions warned events hLimit p hCycle ih =>
    obtain ⟨t, hLeads, hEnds⟩ := ih
    have hNext : Next options ⟨processor, instructions, warned, events⟩ _ :=
      ⟨Nat.lt_of_not_le hLimit, p, hCycle, rfl⟩
    rw [← run_eq_of_next hNext]
    exact ⟨t, .head hNext hLeads, hEnds⟩
  | case3 processor instructions warned events hLimit p cause hCycle =>
    refine ⟨_, .refl, ?_⟩
    rw [run_of_interrupted hLimit hCycle]
    exact .interrupted (s := ⟨processor, instructions, warned, events⟩) (Nat.lt_of_not_le hLimit)
      hCycle

-- ---------------------------------------------------------------------------
-- What a run adds
-- ---------------------------------------------------------------------------

/-- The report of a run that would stop in the session `s`. -/
def standing (s : Session) (stop : StopReason) : Report :=
  ⟨s.processor.datapath.output.toList, s.instructions, s.processor.tick, stop⟩

/-- The snapshots of the cycles that were traced before the session `s`. -/
def trace (s : Session) : List Snapshot := s.events.toList.filterMap Event.snapshot?

/-- The sessions of a run are the same when the limit is raised, as far as they go. -/
theorem Next.mono {options' : Options} (hDebug : options'.debugLimit = options.debugLimit)
    (hTick : options.tickLimit ≤ options'.tickLimit) (h : Next options s t) :
    Next options' s t := by
  obtain ⟨hLimit, p, hCycle, rfl⟩ := h
  refine ⟨Nat.lt_of_lt_of_le hLimit hTick, p, hCycle, ?_⟩
  simp only [advance, cycleEvents, traceEvent?, hDebug]

theorem Leads.mono {options' : Options} (hDebug : options'.debugLimit = options.debugLimit)
    (hTick : options.tickLimit ≤ options'.tickLimit) (h : Leads options s t) :
    Leads options' s t := by
  have hNext : Next options ≤ Next options' := fun _ _ hNext => hNext.mono hDebug hTick
  exact Relation.ReflTransGen.mono hNext s t h

/-- The capacity of the stack is settled before a run starts, so that only the limits are left to
look at. -/
theorem run_congr (options options' : Options) (hDebug : options'.debugLimit = options.debugLimit)
    (hTick : options'.tickLimit = options.tickLimit) (s : Session) :
    s.run options' = s.run options := by
  obtain ⟨t, hLeads, hEnds⟩ := exists_course options s
  rw [← run_eq_of_leads (hLeads.mono hDebug hTick.ge), ← run_eq_of_leads hLeads]
  rcases hEnds.limit_or_interrupted with hLimit | ⟨q, cause, hLimit, hCycle⟩
  · have hLimit' : options'.tickLimit ≤ t.processor.tick := hTick.le.trans hLimit
    rw [run_eq_of_ends (.limit hLimit), run_eq_of_ends (.limit hLimit')]
  · have hLimit' : t.processor.tick < options'.tickLimit := hLimit.trans_le hTick.ge
    rw [run_eq_of_ends (.interrupted hLimit hCycle), run_eq_of_ends (.interrupted hLimit' hCycle)]

/-- What a cycle adds to the report, whether it completes or not. -/
theorem extendedBy_of_cycle (s : Session) (stop stop' : StopReason) :
    (s.standing stop).ExtendedBy
      ⟨s.processor.cycle.state.datapath.output.toList, s.instructions + 1,
        s.processor.cycle.state.tick, stop'⟩ where
  output := Datapath.Traffic.output_prefix (Processor.traffic_cycle s.processor)
  instructions := Nat.le_succ s.instructions
  ticks := s.processor.tick_le_cycle

theorem extendedBy_of_next (h : Next options s t) (stop : StopReason) :
    (s.standing stop).ExtendedBy (t.standing stop) := by
  obtain ⟨_, p, hCycle, rfl⟩ := h
  have hAdds := extendedBy_of_cycle s stop stop
  rw [hCycle] at hAdds
  exact hAdds

theorem events_prefix_of_next (h : Next options s t) : s.events.toList <+: t.events.toList := by
  obtain ⟨_, p, _, rfl⟩ := h
  simp only [advance, Array.toList_appendList]
  exact List.prefix_append _ _

theorem extendedBy_of_leads (h : Leads options s t) (stop : StopReason) :
    (s.standing stop).ExtendedBy (t.standing stop) := by
  induction h with
  | refl => exact .refl _
  | tail _ hNext ih => exact ih.trans (extendedBy_of_next hNext stop)

theorem events_prefix_of_leads (h : Leads options s t) : s.events.toList <+: t.events.toList := by
  induction h with
  | refl => exact List.prefix_rfl
  | tail _ hNext ih => exact ih.trans (events_prefix_of_next hNext)

theorem extendedBy_of_ends (h : s.Ends options run) {report : Report}
    (hResult : run.result = .ok report) (stop : StopReason) :
    (s.standing stop).ExtendedBy report := by
  cases h with
  | limit _ =>
    cases hResult
    exact ⟨List.prefix_rfl, Nat.le_refl _, Nat.le_refl _⟩
  | @interrupted q cause _ hCycle =>
    have hAdds := extendedBy_of_cycle s stop report.stop
    rw [hCycle] at hAdds
    cases cause with
    | halt | inputExhausted =>
      cases hResult
      exact hAdds
    | fault cause => cases hResult

/-- What the end of a run adds to the events is no part of the trace. -/
theorem trace_of_ends (h : s.Ends options run) : run.trace = s.trace := by
  cases h with
  | limit _ => simp [Run.trace, trace, finish, Event.snapshot?]
  | @interrupted q cause _ _ =>
    cases cause with
    | halt | inputExhausted => simp [Run.trace, trace, interrupt, finish, Event.snapshot?]
    | fault cause => simp [Run.trace, trace, interrupt, Event.snapshot?]

/-- What a run has traced in one of its sessions stays in front of what it traces later. -/
theorem trace_prefix_run (options : Options) (s : Session) : s.trace <+: (s.run options).trace := by
  obtain ⟨t, hLeads, hEnds⟩ := exists_course options s
  rw [trace_of_ends hEnds]
  exact (events_prefix_of_leads hLeads).filterMap Event.snapshot?

/-- The report of a run goes on from each of its sessions. -/
theorem extendedBy_of_run {report : Report} (hResult : (s.run options).result = .ok report)
    (stop : StopReason) : (s.standing stop).ExtendedBy report := by
  obtain ⟨t, hLeads, hEnds⟩ := exists_course options s
  exact (extendedBy_of_leads hLeads stop).trans (extendedBy_of_ends hEnds hResult stop)

end Session

-- ---------------------------------------------------------------------------
-- Programs
-- ---------------------------------------------------------------------------

theorem simulate_of_stackSize_eq_zero (image : Image) (input : List Char) (options : Options)
    (h : options.stackSize = 0) : simulate image input options = ⟨#[], .error .emptyStack⟩ := by
  rw [simulate, if_pos h]

theorem simulate_of_stackSize_ne_zero (image : Image) (input : List Char) (options : Options)
    (h : options.stackSize ≠ 0) :
    simulate image input options = (Session.initial image input options).run options := by
  rw [simulate, if_neg h]

end StackProcessor
