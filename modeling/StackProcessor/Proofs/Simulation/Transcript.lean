import Mathlib.Data.List.Basic
import StackProcessor.Simulation.Session

/-!
# StackProcessor — the log of a run, line by line

A log has one entry for each event, and the message of an entry begins with a heading that tells
what kind of event it is (`Event.heading`). No heading is the beginning of another, so the lines of
one kind can be picked out of a log by their heading (`Log.headed`), and what they say is what the
events of that kind say: the snapshots of the cycles, the characters that were taken, and the words
that were sent, each with all that was sent up to it (`Log.snapshotLine`, `Log.inputLine`,
`Log.outputLine`).

## Results
- `Run.log_eq_entries` : a log is the list of the entries of its events.
- `Event.isHeaded_iff` : a heading picks out the entries of one kind of event.
- `Event.headed_cycles`, `Event.headed_inputs`, `Event.headed_outputs` : what these entries are.
-/

namespace StackProcessor

-- ---------------------------------------------------------------------------
-- Lines of a log
-- ---------------------------------------------------------------------------

/-- The text begins with this heading. -/
def Text.StartsWith (heading text : String) : Prop := heading.toList <+: text.toList

theorem Text.StartsWith.refl (heading : String) : Text.StartsWith heading heading :=
  List.prefix_rfl

theorem Text.StartsWith.append {heading text : String} (h : Text.StartsWith heading text)
    (rest : String) : Text.StartsWith heading (text ++ rest) := by
  unfold Text.StartsWith
  rw [String.toList_append]
  exact h.trans (List.prefix_append _ _)

namespace Log

/-- Whether the message of the entry begins with this heading. -/
def Entry.isHeaded (heading : String) (e : Entry) : Bool :=
  heading.toList.isPrefixOf e.message.toList

theorem Entry.isHeaded_iff {heading : String} {e : Entry} :
    e.isHeaded heading = true ↔ Text.StartsWith heading e.message :=
  List.isPrefixOf_iff_prefix

/-- The entries of a log with this heading. -/
def headed (heading : String) (log : List Entry) : List Entry := log.filter (Entry.isHeaded heading)

/-- The line of a traced cycle. -/
def snapshotLine (s : Snapshot) : Entry := ⟨.debug, s.render⟩

/-- The line of a character that is taken. The end mark is not shown. -/
def inputLine (c : Char) : Entry :=
  ⟨.debug, "input: " ++ if c = '\x00' then "" else String.singleton c⟩

/-- The line of a word that is sent, where all that has been sent with it is shown before it. -/
def outputLine (sent : List Word) (w : Word) : Entry :=
  ⟨.debug, "output: " ++ Display.renderOutput sent ++ " << " ++ w.render⟩

/-- The warning that cycles are no longer traced. -/
def debugWarning : Entry := ⟨.warn, "Debug limit exceeded!"⟩

/-- The warning that tells why a run stops. -/
def stopWarning (r : Report) : Entry :=
  match r.stop with
  | .halted => ⟨.warn, "Halted at tick " ++ toString r.ticks⟩
  | .inputExhausted => ⟨.warn, "Input buffer is empty!"⟩
  | .tickLimitExceeded => ⟨.warn, "Limit exceeded!"⟩

/-- The line that ends the log of a run with a report. -/
def bufferLine (r : Report) : Entry := ⟨.info, "output_buffer: " ++ Display.renderOutput r.output⟩

end Log

-- ---------------------------------------------------------------------------
-- Headings
-- ---------------------------------------------------------------------------

theorem Snapshot.startsWith_render (s : Snapshot) : Text.StartsWith "TICK: " s.render := by
  unfold Snapshot.render
  repeat apply Text.StartsWith.append
  exact .refl _

/-- What the message of a fault begins with. -/
def Fault.heading : Fault → String
  | decode _ => "cannot decode instruction "
  | runtime _ => "runtime fault: "

theorem Fault.startsWith_message (f : Fault) : Text.StartsWith f.heading f.message := by
  cases f with
  | decode f =>
    unfold Fault.message DecodeFault.message undecodable
    repeat apply Text.StartsWith.append
    exact .refl _
  | runtime f => exact (Text.StartsWith.refl _).append _

namespace Event

/-- What the message of an event begins with. -/
def heading : Event → String
  | input _ => "input: "
  | output _ => "output: "
  | cycle _ => "TICK: "
  | debugLimit => "Debug limit exceeded!"
  | tickLimit => "Limit exceeded!"
  | halted _ => "Halted at tick "
  | inputEmpty => "Input buffer is empty!"
  | fault cause _ _ => cause.heading
  | outputBuffer _ => "output_buffer: "

/-- All headings. -/
def headings : List String :=
  ["input: ", "output: ", "TICK: ", "Debug limit exceeded!", "Limit exceeded!", "Halted at tick ",
    "Input buffer is empty!", "cannot decode instruction ", "runtime fault: ", "output_buffer: "]

theorem heading_mem_headings (e : Event) : e.heading ∈ headings := by
  cases e with
  | fault cause pc tick => cases cause <;> simp [heading, Fault.heading, headings]
  | _ => simp [heading, headings]

/-- No heading goes on where another one stops. -/
theorem eq_of_prefix_of_mem_headings :
    ∀ g ∈ headings, ∀ h ∈ headings, g.toList <+: h.toList → g = h := by
  decide

theorem startsWith_message (text : String) (e : Event) :
    Text.StartsWith e.heading (e.entry text).message := by
  cases e with
  | debugLimit | tickLimit | inputEmpty => exact .refl _
  | input | halted | outputBuffer => exact (Text.StartsWith.refl _).append _
  | output symbol => exact (((Text.StartsWith.refl _).append _).append _).append _
  | cycle s => exact s.startsWith_render
  | fault cause pc tick =>
    exact ((((cause.startsWith_message.append _).append _).append _).append _).append _

/-- An entry has the heading of its event, and no other. -/
theorem isHeaded_iff {h : String} (hMem : h ∈ headings) (text : String) (e : Event) :
    (e.entry text).isHeaded h = true ↔ e.heading = h := by
  have hOwn := e.startsWith_message text
  rw [Log.Entry.isHeaded_iff]
  constructor
  · intro hOther
    rcases List.prefix_or_prefix_of_prefix hOwn hOther with hPrefix | hPrefix
    · exact eq_of_prefix_of_mem_headings _ e.heading_mem_headings _ hMem hPrefix
    · exact (eq_of_prefix_of_mem_headings _ hMem _ e.heading_mem_headings hPrefix).symm
  · rintro rfl
    exact hOwn

/-- The code of the character that an event tells of. -/
def input? : Event → Option Word
  | input symbol => some symbol
  | _ => none

/-- The word that an event tells of having been sent. -/
def output? : Event → Option Word
  | output symbol => some symbol
  | _ => none

theorem heading_eq_iff_snapshot? (e : Event) :
    e.heading = "TICK: " ↔ ∃ s, e.snapshot? = some s := by
  cases e with
  | fault cause pc tick => cases cause <;> simp [heading, Fault.heading, snapshot?]
  | _ => simp [heading, snapshot?]

theorem heading_eq_iff_input? (e : Event) : e.heading = "input: " ↔ ∃ w, e.input? = some w := by
  cases e with
  | fault cause pc tick => cases cause <;> simp [heading, Fault.heading, input?]
  | _ => simp [heading, input?]

theorem heading_eq_iff_output? (e : Event) : e.heading = "output: " ↔ ∃ w, e.output? = some w := by
  cases e with
  | fault cause pc tick => cases cause <;> simp [heading, Fault.heading, output?]
  | _ => simp [heading, output?]

theorem heading_eq_iff_debugLimit (e : Event) :
    e.heading = "Debug limit exceeded!" ↔ e = debugLimit := by
  cases e with
  | fault cause pc tick => cases cause <;> simp [heading, Fault.heading]
  | _ => simp [heading]

/-- Only the warning itself looks like the warning. -/
theorem entry_eq_debugWarning_iff (text : String) (e : Event) :
    e.entry text = Log.debugWarning ↔ e = debugLimit := by
  constructor
  · intro hEntry
    have hWarning : (e.entry text).isHeaded "Debug limit exceeded!" = true := by
      rw [hEntry]
      exact Log.Entry.isHeaded_iff.mpr (.refl _)
    rw [isHeaded_iff (by decide)] at hWarning
    exact e.heading_eq_iff_debugLimit.mp hWarning
  · rintro rfl
    rfl

-- ---------------------------------------------------------------------------
-- The entries of events
-- ---------------------------------------------------------------------------

/-- The log entries of events, before which a text has been sent. -/
def entries (text : String) : List Event → List Log.Entry
  | [] => []
  | e :: rest => e.entry (text ++ e.addedText) :: entries (text ++ e.addedText) rest

theorem entries_append (text : String) (es es' : List Event) :
    ∃ text', entries text (es ++ es') = entries text es ++ entries text' es' := by
  induction es generalizing text with
  | nil => exact ⟨text, rfl⟩
  | cons e rest ih =>
    obtain ⟨text', hRest⟩ := ih (text ++ e.addedText)
    exact ⟨text', congrArg (_ :: ·) hRest⟩

theorem exists_of_mem_entries {text : String} {es : List Event} {entry : Log.Entry}
    (h : entry ∈ entries text es) : ∃ e ∈ es, ∃ text', entry = e.entry text' := by
  induction es generalizing text with
  | nil => cases h
  | cons e rest ih =>
    rcases List.mem_cons.mp h with rfl | hLater
    · exact ⟨e, List.mem_cons_self, _, rfl⟩
    · obtain ⟨e', hMem, hEntry⟩ := ih hLater
      exact ⟨e', List.mem_cons_of_mem e hMem, hEntry⟩

/-- The warning stands in a log as often as its event occurs. -/
theorem count_debugWarning (text : String) (es : List Event) :
    (entries text es).count Log.debugWarning = es.count debugLimit := by
  induction es generalizing text with
  | nil => rfl
  | cons e rest ih =>
    simp only [entries, List.count_cons, ih, beq_iff_eq, entry_eq_debugWarning_iff]

theorem headed_entries_cons {h : String} (hMem : h ∈ headings) (text : String) (e : Event)
    (rest : List Event) :
    Log.headed h (entries text (e :: rest)) =
      if e.heading = h then
        e.entry (text ++ e.addedText) :: Log.headed h (entries (text ++ e.addedText) rest)
      else Log.headed h (entries (text ++ e.addedText) rest) := by
  simp only [Log.headed, entries, List.filter_cons, isHeaded_iff hMem]

/-- The lines of one kind of event, if the text that was sent does not show in them. -/
theorem headed_entries {h : String} (hMem : h ∈ headings) {α : Type} {select : Event → Option α}
    {line : α → Log.Entry} (hSelect : ∀ e, e.heading = h ↔ ∃ a, select e = some a)
    (hLine : ∀ text e a, select e = some a → e.entry text = line a) (text : String)
    (es : List Event) : Log.headed h (entries text es) = (es.filterMap select).map line := by
  induction es generalizing text with
  | nil => rfl
  | cons e rest ih =>
    rw [headed_entries_cons hMem, ih]
    cases hKind : select e with
    | none =>
      have hOther : e.heading ≠ h := by simp [hSelect, hKind]
      rw [if_neg hOther, List.filterMap_cons_none hKind]
    | some a =>
      rw [if_pos ((hSelect e).mpr ⟨a, hKind⟩), List.filterMap_cons_some hKind, hLine _ e a hKind,
        List.map_cons]

/-- The lines of the traced cycles. -/
theorem headed_cycles (text : String) (es : List Event) :
    Log.headed "TICK: " (entries text es) = (es.filterMap snapshot?).map Log.snapshotLine := by
  refine headed_entries (by decide) heading_eq_iff_snapshot? ?_ text es
  intro text e s hKind
  cases e <;> cases hKind
  rfl

/-- The lines of the characters that were taken. -/
theorem headed_inputs (text : String) (es : List Event) :
    Log.headed "input: " (entries text es) =
      (es.filterMap input?).map fun w => ⟨.debug, "input: " ++ renderSymbol w⟩ := by
  refine headed_entries (by decide) heading_eq_iff_input? ?_ text es
  intro text e w hKind
  cases e <;> cases hKind
  rfl

theorem renderOutput_append_one (sent : List Word) (w : Word) :
    Display.renderOutput (sent ++ [w]) = Display.renderOutput sent ++ Display.renderWord w := by
  simp [Display.renderOutput]

/-- The lines of the words that were sent, when others had been sent before. -/
theorem headed_outputs (sent : List Word) (es : List Event) :
    Log.headed "output: " (entries (Display.renderOutput sent) es) =
      (es.filterMap output?).mapIdx fun k w =>
        Log.outputLine (sent ++ (es.filterMap output?).take (k + 1)) w := by
  induction es generalizing sent with
  | nil => rfl
  | cons e rest ih =>
    rw [headed_entries_cons (by decide)]
    cases hKind : e.output? with
    | none =>
      have hOther : e.heading ≠ "output: " := by simp [heading_eq_iff_output?, hKind]
      have hAdded : e.addedText = "" := by
        cases e <;> first | rfl | cases hKind
      rw [if_neg hOther, hAdded, String.append_empty, ih, List.filterMap_cons_none hKind]
    | some w =>
      obtain rfl : e = output w := by cases e <;> cases hKind; rfl
      have hSent := renderOutput_append_one sent w
      have hHeading : (output w).heading = "output: " := rfl
      rw [if_pos hHeading, addedText, ← hSent, ih, List.filterMap_cons_some hKind,
        List.mapIdx_cons]
      simp only [List.take_succ_cons, List.take_zero, List.append_assoc, List.singleton_append]
      rfl

end Event

-- ---------------------------------------------------------------------------
-- Logs
-- ---------------------------------------------------------------------------

theorem Transcript.entries_foldl_record (t : Transcript) (es : List Event) :
    (es.foldl record t).entries.toList = t.entries.toList ++ Event.entries t.text es := by
  induction es generalizing t with
  | nil => simp [Event.entries]
  | cons e rest ih =>
    rw [List.foldl_cons, ih]
    simp [record, Event.entries]

/-- A log is the list of the entries of its events. -/
theorem Run.log_eq_entries (run : Run) : run.log = Event.entries "" run.events.toList := by
  rw [Run.log, Transcript.ofEvents, ← Array.foldl_toList, Transcript.entries_foldl_record]
  exact List.nil_append _

end StackProcessor
