import StackProcessor.Proofs.Simulation.Ending

/-!
# StackProcessor — runs under observation

What a report says of the cycles of a run can be compared with the cycles themselves if somebody
writes down whenever one is started. `Session.watch` is the loop of a run with such a list beside
it: the state in which each cycle was started, in order. The list does not change the run, and it
holds the states that the cycles of the processor lead to one after the other (`Processor.cycles`).

`Session.watch_induction` has a case for each way in which the loop goes on or ends, so that what is
proved of all runs by it never unfolds the loop.

## Results
- `Session.fst_watch` : watching a run does not change it.
- `Session.watch_induction` : what holds of every way in which a run goes on or ends.
- `Session.snd_watch` : the cycles that are started follow one another.
-/

namespace StackProcessor

namespace Session

/-- Runs a session to its end, and gives the states in which it started a cycle as well. -/
def watch (options : Options) (s : Session) : Run × List Processor :=
  match s with
  | ⟨processor, instructions, warned, events⟩ =>
    if options.tickLimit ≤ processor.tick then
      (finish processor instructions events .tickLimitExceeded .tickLimit, [])
    else
      match h : processor.cycle with
      | .completed p =>
        let (run, started) :=
          watch options
            { processor := p
              instructions := instructions + 1
              debugWarned := warned || options.debugLimit ≤ p.tick
              events := events ++ cycleEvents options warned p }
        (run, processor :: started)
      | .interrupted p cause => (interrupt p (instructions + 1) events cause, [processor])
termination_by options.tickLimit - s.processor.tick
decreasing_by
  have hlt := Processor.tick_lt_of_cycle h
  omega

section

variable {options : Options} {processor p : Processor} {instructions : Nat} {warned : Bool}
  {events : Array Event}

theorem watch_of_completed (hLimit : ¬ options.tickLimit ≤ processor.tick)
    (hCycle : processor.cycle = .completed p) :
    watch options ⟨processor, instructions, warned, events⟩ =
      let rest := watch options ⟨p, instructions + 1, warned || options.debugLimit ≤ p.tick,
        events ++ cycleEvents options warned p⟩
      (rest.1, processor :: rest.2) := by
  rw [watch, if_neg hLimit]
  split
  · rename_i q hq
    rw [hCycle] at hq
    cases hq
    rfl
  · rename_i q cause hq
    rw [hCycle] at hq
    cases hq

theorem watch_of_interrupted {cause : Interrupt} (hLimit : ¬ options.tickLimit ≤ processor.tick)
    (hCycle : processor.cycle = .interrupted p cause) :
    watch options ⟨processor, instructions, warned, events⟩ =
      (interrupt p (instructions + 1) events cause, [processor]) := by
  rw [watch, if_neg hLimit]
  split
  · rename_i q hq
    rw [hCycle] at hq
    cases hq
  · rename_i q other hq
    rw [hCycle] at hq
    cases hq
    rfl

end

/-- A property of sessions and of what is watched of them holds always if it holds at the limit and
at an interrupted cycle, and if a completed cycle hands it on from the session that follows. -/
theorem watch_induction (options : Options) {P : Session → Run × List Processor → Prop}
    (hLimit : ∀ s : Session, options.tickLimit ≤ s.processor.tick →
      P s (finish s.processor s.instructions s.events .tickLimitExceeded .tickLimit, []))
    (hCompleted : ∀ (s : Session) (q : Processor) (warned : Bool) (events : Array Event)
      (run : Run) (started : List Processor),
      s.processor.tick < options.tickLimit → s.processor.cycle = .completed q →
      P ⟨q, s.instructions + 1, warned, events⟩ (run, started) →
      P s (run, s.processor :: started))
    (hInterrupted : ∀ (s : Session) (q : Processor) (cause : Interrupt),
      s.processor.tick < options.tickLimit → s.processor.cycle = .interrupted q cause →
      P s (interrupt q (s.instructions + 1) s.events cause, [s.processor]))
    (s : Session) : P s (s.watch options) := by
  induction s using Session.run.induct options with
  | case1 processor instructions warned events h =>
    rw [watch, if_pos h]
    exact hLimit ⟨processor, instructions, warned, events⟩ h
  | case2 processor instructions warned events h q hCycle ih =>
    rw [watch_of_completed h hCycle]
    exact hCompleted ⟨processor, instructions, warned, events⟩ q _ _ _ _ (Nat.lt_of_not_le h)
      hCycle ih
  | case3 processor instructions warned events h q cause hCycle =>
    rw [watch_of_interrupted h hCycle]
    exact hInterrupted ⟨processor, instructions, warned, events⟩ q cause (Nat.lt_of_not_le h)
      hCycle

/-- Watching a run does not change it. -/
theorem fst_watch (options : Options) (s : Session) : (s.watch options).1 = s.run options := by
  induction s using Session.run.induct options with
  | case1 processor instructions warned events h => rw [watch, run, if_pos h, if_pos h]
  | case2 processor instructions warned events h q hCycle ih =>
    rw [watch_of_completed h hCycle, run_of_completed h hCycle]
    exact ih
  | case3 processor instructions warned events h q cause hCycle =>
    rw [watch_of_interrupted h hCycle, run_of_interrupted h hCycle]

/-- The cycles that are started follow one another. -/
theorem snd_watch (options : Options) (s : Session) :
    (s.watch options).2 = (List.range (s.watch options).2.length).map s.processor.cycles := by
  refine watch_induction options
    (P := fun s w => w.2 = (List.range w.2.length).map s.processor.cycles) ?_ ?_ ?_ s
  · intro s _
    rfl
  · intro s q events warned run started _ hCycle ih
    have hNext : ∀ k, s.processor.cycles (k + 1) = q.cycles k := by
      intro k
      rw [Processor.cycles, hCycle, Attempt.state_completed]
    rw [List.length_cons, List.range_succ_eq_map, List.map_cons, List.map_map]
    refine congrArg (s.processor :: ·) (ih.trans ?_)
    exact List.map_congr_left fun k _ => (hNext k).symm
  · intro s q cause _ _
    rfl

end Session

/-- Runs a program, and gives the states in which a cycle was started as well. -/
def simulateWatched (image : Image) (input : List Char) (options : Options) :
    Run × List Processor :=
  if options.stackSize = 0 then (⟨#[], .error .emptyStack⟩, [])
  else (Session.initial image input options).watch options

theorem fst_simulateWatched (image : Image) (input : List Char) (options : Options) :
    (simulateWatched image input options).1 = simulate image input options := by
  rw [simulateWatched, simulate, apply_ite Prod.fst, Session.fst_watch]

theorem snd_simulateWatched (image : Image) (input : List Char) (options : Options) :
    let started := (simulateWatched image input options).2
    started = (List.range started.length).map
      (Processor.initial image options.stackSize input).cycles := by
  unfold simulateWatched
  split
  · rfl
  · exact Session.snd_watch options (Session.initial image input options)

end StackProcessor
