import Mathlib.Data.List.Permutation
import StackProcessor.Proofs.Basic
import StackProcessor.Proofs.Simulation.Exchange
import StackProcessor.Proofs.Simulation.Transcript

/-!
# StackProcessor — what a log tells of the ports

The log of a run has a line for each character that was taken from the input and one for each word
that was sent to the output, in order (`Run.LogTells`), also if the run ends with a fault. No cycle
has a line of both kinds. How the run ends is told by the last lines of the log and by no others
(`Run.LogEnds`): by a warning and the whole output if there is a report, and by an error if there is
none.

The events of the cycles are put together from the states that the cycles left (`Session.eventsOf`),
so it is enough to know what one such state records.

## Results
- `Session.filterMap_input?_eventsOf`, `Session.filterMap_output?_eventsOf` : what the events of
  cycles tell of the ports.
- `Run.logEnds_of_events` : the last lines of a log.
- `simulate_logs_ports` : the log of a program, if the stack has a cell at all.
-/

namespace StackProcessor

-- ---------------------------------------------------------------------------
-- Cycles
-- ---------------------------------------------------------------------------

namespace Session

variable {options : Options}

/-- What is picked out of the events of cycles, if it is no part of the trace. -/
theorem filterMap_eventsOf {α : Type} {select : Event → Option α} {see : Processor → Option α}
    (hTrace : ∀ s, select (.cycle s) = none) (hWarning : select .debugLimit = none)
    (hPorts : ∀ p, (portEvents p).filterMap select = (see p).toList)
    (options : Options) (warned : Bool) (states : List Processor) :
    (eventsOf options warned states).filterMap select = states.filterMap see := by
  induction states generalizing warned with
  | nil => rfl
  | cons p rest ih =>
    have hNone : (traceEvent? options warned p).toList.filterMap select = [] := by
      rw [List.filterMap_eq_nil_iff]
      intro e hMem
      rcases eq_cycle_or_debugLimit_of_mem hMem with rfl | rfl
      · exact hTrace _
      · exact hWarning
    rw [eventsOf, cycleEvents_eq_append, List.filterMap_append, List.filterMap_append, hPorts,
      hNone, ih, List.append_nil]
    cases hSeen : see p with
    | none =>
      rw [List.filterMap_cons_none hSeen]
      rfl
    | some a =>
      rw [List.filterMap_cons_some hSeen]
      rfl

theorem filterMap_input?_eventsOf (options : Options) (warned : Bool) (states : List Processor) :
    (eventsOf options warned states).filterMap Event.input? =
      states.filterMap Processor.received? := by
  refine filterMap_eventsOf (fun _ => rfl) rfl ?_ options warned states
  intro p
  unfold portEvents
  cases p.received? <;> cases p.sent? <;> rfl

theorem filterMap_output?_eventsOf (options : Options) (warned : Bool) (states : List Processor) :
    (eventsOf options warned states).filterMap Event.output? =
      states.filterMap Processor.sent? := by
  refine filterMap_eventsOf (fun _ => rfl) rfl ?_ options warned states
  intro p
  unfold portEvents
  cases p.received? <;> cases p.sent? <;> rfl

theorem received?_of_mem_cycleEvents {warned : Bool} {q : Processor} {w : Word}
    (h : .input w ∈ cycleEvents options warned q) : q.received? = some w := by
  rw [cycleEvents_eq_append, List.mem_append] at h
  rcases h with hPorts | hTrace
  · rcases mem_portEvents_iff.mp hPorts with ⟨_, hReceived, hSame⟩ | ⟨_, _, hSame⟩ <;> cases hSame
    exact hReceived
  · rcases eq_cycle_or_debugLimit_of_mem hTrace with hSame | hSame <;> cases hSame

theorem sent?_of_mem_cycleEvents {warned : Bool} {q : Processor} {w : Word}
    (h : .output w ∈ cycleEvents options warned q) : q.sent? = some w := by
  rw [cycleEvents_eq_append, List.mem_append] at h
  rcases h with hPorts | hTrace
  · rcases mem_portEvents_iff.mp hPorts with ⟨_, _, hSame⟩ | ⟨_, hSent, hSame⟩ <;> cases hSame
    exact hSent
  · rcases eq_cycle_or_debugLimit_of_mem hTrace with hSame | hSame <;> cases hSame

/-- No cycle has events of both kinds. -/
theorem not_mem_cycleEvents_both {p q : Processor} (h : p.Exchange q) (warned : Bool)
    (w v : Word) :
    ¬ (.input w ∈ cycleEvents options warned q ∧ .output v ∈ cycleEvents options warned q) := by
  rintro ⟨hInput, hOutput⟩
  have hReceived := received?_of_mem_cycleEvents hInput
  have hSent := sent?_of_mem_cycleEvents hOutput
  cases h with
  | nothing _ _ hNone _ => exact nomatch hNone.symm.trans hReceived
  | receives c _ _ _ hNone => exact nomatch hNone.symm.trans hSent
  | sends w _ _ hNone _ => exact nomatch hNone.symm.trans hReceived

end Session

-- ---------------------------------------------------------------------------
-- The last lines
-- ---------------------------------------------------------------------------

/-- The line of a fault in this state. -/
def Log.faultLine (cause : Fault) (last : Processor) : Log.Entry :=
  ⟨.error, cause.message ++ " (pc " ++ toString last.pc ++ ", tick " ++ toString last.tick ++ ")"⟩

/-- The entry does not tell how the run ends. -/
structure Log.Entry.TellsNoEnd (e : Log.Entry) : Prop where
  noError : e.level ≠ .error
  noStop : ∀ report, e ≠ Log.stopWarning report
  noBuffer : e.isHeaded "output_buffer: " = false

/-- How the log of a run ends that has come to this state. -/
inductive Run.LogEnds (run : Run) (last : Processor) : Prop where
  | report (before : List Log.Entry) (report : Report) : run.result = .ok report →
    report.output = last.datapath.output.toList → report.ticks = last.tick →
    run.log = before ++ [Log.stopWarning report, Log.bufferLine report] →
    (∀ e ∈ before, e.TellsNoEnd) → LogEnds run last
  | fault (before : List Log.Entry) (cause : Fault) : run.result = .error (.fault cause) →
    run.log = before ++ [Log.faultLine cause last] →
    (Log.faultLine cause last).isHeaded "output_buffer: " = false →
    (∀ e ∈ before, e.TellsNoEnd) → LogEnds run last

theorem Report.entry_stopEvent (r : Report) (text : String) :
    r.stopEvent.entry text = Log.stopWarning r := by
  unfold stopEvent Log.stopWarning
  cases r.stop <;> rfl

namespace Event

/-- The headings tell the two kinds of events apart. -/
theorem isOfCycle_iff_heading (e : Event) :
    e.isOfCycle = true ↔
      e.heading ∈ ["input: ", "output: ", "TICK: ", "Debug limit exceeded!"] := by
  have hDecides : e.isOfCycle =
      decide (e.heading ∈ ["input: ", "output: ", "TICK: ", "Debug limit exceeded!"]) := by
    cases e with
    | fault cause => cases cause <;> rfl
    | _ => rfl
  rw [hDecides, decide_eq_true_iff]

theorem tellsNoEnd_of_isOfCycle {e : Event} (h : e.isOfCycle = true) (text : String) :
    (e.entry text).TellsNoEnd where
  noError := by
    cases e <;> cases h
    all_goals exact nofun
  noStop := by
    intro report hStop
    rw [← report.entry_stopEvent text] at hStop
    have hOther := (isHeaded_iff report.stopEvent.heading_mem_headings text _).mpr rfl
    rw [← hStop, isHeaded_iff report.stopEvent.heading_mem_headings] at hOther
    rw [isOfCycle_iff_heading, hOther, ← isOfCycle_iff_heading, report.stopEvent_isOfCycle] at h
    cases h
  noBuffer := by
    rw [Bool.eq_false_iff, ne_eq, isHeaded_iff (by decide)]
    intro hBuffer
    rw [isOfCycle_iff_heading, hBuffer] at h
    simp at h

end Event

theorem Run.logEnds_of_events {run : Run} {last : Processor} {es : List Event}
    (hCycles : ∀ e ∈ es, e.isOfCycle = true)
    (hEvents : run.events.toList = es ++ closing last run.result)
    (hStack : run.result ≠ .error .emptyStack) (hReports : Session.Reports last run.result) :
    run.LogEnds last := by
  obtain ⟨text, hLog⟩ := Event.entries_append "" es (closing last run.result)
  rw [← hEvents, ← Run.log_eq_entries] at hLog
  have hBefore : ∀ entry ∈ Event.entries "" es, entry.TellsNoEnd := by
    intro entry hMem
    obtain ⟨e, hEvent, text', rfl⟩ := Event.exists_of_mem_entries hMem
    exact Event.tellsNoEnd_of_isOfCycle (hCycles e hEvent) text'
  cases hResult : run.result with
  | ok report =>
    obtain ⟨hOutput, hTicks⟩ := hReports report hResult
    refine .report _ report hResult hOutput hTicks ?_ hBefore
    rw [hLog, hResult]
    simp only [closing, Event.entries, Report.entry_stopEvent]
    rfl
  | error fault =>
    cases fault with
    | emptyStack => exact absurd hResult hStack
    | fault cause =>
      refine .fault _ cause hResult ?_ ?_ hBefore
      · rw [hLog, hResult]
        rfl
      · -- the line of a fault has a heading of its own
        have hLine :
            Log.faultLine cause last = (Event.fault cause last.pc last.tick).entry "" := rfl
        rw [hLine, Bool.eq_false_iff, ne_eq, Event.isHeaded_iff (by decide)]
        cases cause <;> simp [Event.heading, Fault.heading]

-- ---------------------------------------------------------------------------
-- The ports
-- ---------------------------------------------------------------------------

/-- The log has a line for each of these characters, and for each of these words one that shows all
the words up to it. -/
structure Run.LogTells (run : Run) (taken : List Char) (sent : List Word) : Prop where
  inputs : Log.headed "input: " run.log = taken.map Log.inputLine
  outputs : Log.headed "output: " run.log =
    sent.mapIdx fun k w => Log.outputLine (sent.take (k + 1)) w

/-- An event that is not of a cycle does not tell of a port. -/
theorem Event.ports_of_not_isOfCycle {e : Event} (h : e.isOfCycle = false) :
    e.input? = none ∧ e.output? = none := by
  cases e <;> cases h <;> exact ⟨rfl, rfl⟩

/-- The code of a character shows as the character, and that of the end mark as nothing. -/
theorem Event.renderSymbol_ofChar (c : Char) :
    renderSymbol (Word.ofChar c) = if c = '\x00' then "" else String.singleton c := by
  have hCode := Word.toInt_ofChar c
  by_cases hMark : c = '\x00'
  · subst hMark
    rfl
  · have hPositive : Word.ofChar c ≠ 0 := by
      intro hZero
      rw [hZero] at hCode
      have hNul : c.toNat = 0 := by
        have hNone : (0 : Word).toInt = 0 := rfl
        omega
      exact hMark (Char.toNat_inj.mp hNul)
    rw [renderSymbol, if_neg hPositive, if_neg hMark, hCode, Int.toNat_natCast, Char.ofNat_toNat]

theorem Run.logTells_of_events {run : Run} {options : Options} {states : List Processor}
    {taken : List Char} {sent : List Word} {last : List Event}
    (hEvents : run.events.toList = Session.eventsOf options false states ++ last)
    (hLast : ∀ e ∈ last, e.isOfCycle = false)
    (hTaken : states.filterMap Processor.received? = taken.map Word.ofChar)
    (hSent : states.filterMap Processor.sent? = sent) : run.LogTells taken sent where
  inputs := by
    have hNone : last.filterMap Event.input? = [] := List.filterMap_eq_nil_iff.mpr fun e hMem =>
      (Event.ports_of_not_isOfCycle (hLast e hMem)).1
    rw [Run.log_eq_entries, Event.headed_inputs, hEvents, List.filterMap_append, hNone,
      List.append_nil, Session.filterMap_input?_eventsOf, hTaken, List.map_map]
    refine List.map_congr_left fun c _ => ?_
    show (⟨.debug, "input: " ++ Event.renderSymbol (Word.ofChar c)⟩ : Log.Entry) = _
    rw [Event.renderSymbol_ofChar]
    rfl
  outputs := by
    have hNone : last.filterMap Event.output? = [] := List.filterMap_eq_nil_iff.mpr fun e hMem =>
      (Event.ports_of_not_isOfCycle (hLast e hMem)).2
    have hWords : run.events.toList.filterMap Event.output? = sent := by
      rw [hEvents, List.filterMap_append, hNone, List.append_nil,
        Session.filterMap_output?_eventsOf, hSent]
    have hLines := Event.headed_outputs [] run.events.toList
    rw [hWords] at hLines
    rw [Run.log_eq_entries]
    exact hLines

/-- **The log tells what was taken and sent**: the events of a run are those of its cycles and those
of its end. A cycle takes one character, or sends one word, or does neither, and it is logged as it
was. The lines of the characters show the beginning of the input, which is what the run has taken.
The lines of the words show the output of the state that the run has come to, each word with all up
to it, whether there is a report or not. The last lines are those of a report or of a fault, and no
line before them looks like that. -/
theorem simulate_logs_ports (image : Image) (input : List Char) {options : Options}
    (hStack : 0 < options.stackSize) :
    let run := simulate image input options
    let started := (simulateWatched image input options).2
    let last := (Processor.initial image options.stackSize input).cycles started.length
    (simulateWatched image input options).1 = run ∧
      started = (List.range started.length).map
        (Processor.initial image options.stackSize input).cycles ∧
      run.events.toList =
        Session.eventsOf options false (left started) ++ closing last run.result ∧
      (∀ p ∈ completed started, p.Exchange p.cycle.state ∧ ∀ warned w v,
        ¬ (.input w ∈ Session.cycleEvents options warned p.cycle.state ∧
          .output v ∈ Session.cycleEvents options warned p.cycle.state)) ∧
      (∃ taken, input = taken ++ last.datapath.input ∧
        run.LogTells taken last.datapath.output.toList) ∧
      run.LogEnds last := by
  intro run started last
  have hPositive : options.stackSize ≠ 0 := Nat.pos_iff_ne_zero.mp hStack
  let s := Session.initial image input options
  have hWatch : simulateWatched image input options = s.watch options := if_neg hPositive
  have hRun : run = s.run options := if_neg hPositive
  have hBounded : s.processor.datapath.Bounded :=
    Datapath.bounded_initial image.data options.stackSize input
  have hStarted : started = (s.watch options).2 := congrArg Prod.snd hWatch
  obtain ⟨hEvents, hReports⟩ := Session.events_run options s
  obtain ⟨hEach, ⟨taken, hTaken, hReceived⟩, hSent⟩ := Session.exchanges_of_watch options s hBounded
  rw [← hStarted] at hEvents hReports hEach hTaken hReceived hSent
  rw [← hRun] at hEvents hReports
  refine ⟨fst_simulateWatched image input options, snd_simulateWatched image input options, hEvents,
    ?_, ⟨taken, hTaken, ?_⟩, ?_⟩
  · exact fun p hMem => ⟨hEach p hMem, Session.not_mem_cycleEvents_both (hEach p hMem)⟩
  · exact Run.logTells_of_events hEvents (fun e => isOfCycle_of_mem_closing) hReceived hSent.symm
  · refine Run.logEnds_of_events ?_ hEvents ?_ hReports
    · exact fun e => Session.isOfCycle_of_mem_eventsOf
    · -- only a stack without cells is reported so
      obtain ⟨n, _, hEnds⟩ := Session.run_endsAt options s
      intro hEmpty
      rw [← hRun, hEmpty] at hEnds
      cases hEnds

/-- A program that sends the one character which it receives, and then comes to an empty stack. -/
theorem simulate_logs_ports_echo :
    let image : Image := ⟨[], [⟨0, .push, some 1⟩, ⟨1, .push, some 0⟩, ⟨2, .load, none⟩,
      ⟨3, .pop, none⟩, ⟨4, .pop, none⟩]⟩
    let run := simulate image ['a', 'b'] {}
    0 < ({} : Options).stackSize ∧
      run.result = .error (.fault (.runtime .stackUnderflow)) ∧
      Log.headed "input: " run.log = [Log.inputLine 'a'] ∧
      Log.headed "output: " run.log = [Log.outputLine [97] 97] := by
  intro image run
  have hStack : 0 < ({} : Options).stackSize := by decide
  have hResult : (simulate image ['a', 'b'] {}).result =
      .error (.fault (.runtime .stackUnderflow)) := by cbv
  have hInput : ((Processor.initial image 10 ['a', 'b']).cycles
      (simulateWatched image ['a', 'b'] {}).2.length).datapath.input = ['b'] := by cbv
  have hOutput : ((Processor.initial image 10 ['a', 'b']).cycles
      (simulateWatched image ['a', 'b'] {}).2.length).datapath.output.toList = [97] := by cbv
  obtain ⟨_, _, _, _, ⟨taken, hTaken, hTells⟩, _⟩ := simulate_logs_ports image ['a', 'b'] hStack
  rw [hInput] at hTaken
  rw [hOutput] at hTells
  have hSame : taken ++ ['b'] = ['a'] ++ ['b'] := hTaken.symm
  obtain rfl := List.append_cancel_right hSame
  exact ⟨hStack, hResult, hTells.inputs, hTells.outputs⟩

end StackProcessor
