import StackProcessor.Proofs.Isa.Decoding
import StackProcessor.Proofs.Simulation.Recording

/-!
# StackProcessor — what a cycle does at the ports

A cycle that is carried out in full takes one character, or sends one word, or leaves both ports
alone: `Processor.Exchange` has a constructor for each. A cycle that is interrupted leaves them
alone. Which of the three it was can be told from the state that the cycle left: by the instruction
register and the address register (`received?`, `sent?`), or just as well by comparing the port
queues before and after. Over a run, the characters that were taken are the beginning of the input,
and the words that were sent are the output (`Processor.Exchanges`).

A signal that takes a character and then finds no cell for it would drop the character. No microcode
does this as long as the datapath is `Bounded`, which is the hypothesis here.

## Results
- `Processor.exchange_of_cycle` : the three ways of a cycle that is carried out in full.
- `Processor.Exchange.received?_eq`, `Processor.Exchange.sent?_eq` : how the queues tell them apart.
- `Session.exchanges_of_watch` : what a run takes and sends.
-/

namespace StackProcessor

theorem Datapath.top?_replaced {d : Datapath} (h : d.Bounded) (hLive : 0 < d.live.length)
    (value : Word) : (d.replaced 0 value).top? = some value := by
  rw [top?_eq (bounded_replaced h 0 value), live_replaced h hLive, List.getElem?_set_self hLive]

namespace Processor

-- ---------------------------------------------------------------------------
-- One cycle
-- ---------------------------------------------------------------------------

/-- What a cycle from `p` to `q` did at the ports, and what can be seen of it in `q`. -/
inductive Exchange (p q : Processor) : Prop where
  | nothing : q.datapath.input = p.datapath.input → q.datapath.output = p.datapath.output →
    q.received? = none → q.sent? = none → Exchange p q
  | receives (c : Char) : p.datapath.input = c :: q.datapath.input →
    q.datapath.output = p.datapath.output →
    q.received? = some (Word.ofChar c) → q.sent? = none → Exchange p q
  | sends (w : Word) : q.datapath.input = p.datapath.input →
    q.datapath.output = p.datapath.output.push w →
    q.received? = none → q.sent? = some w → Exchange p q

variable {p q : Processor}

theorem Exchange.of_sameStore {p' : Processor} (hSame : p.SameStore p') (h : p'.Exchange q) :
    p.Exchange q := by
  obtain ⟨_, hInput, hOutput⟩ := hSame
  cases h with
  | nothing hIn hOut => exact .nothing (hIn.trans hInput) (hOut.trans hOutput) ‹_› ‹_›
  | receives c hIn hOut => exact .receives c (hInput ▸ hIn) (hOut.trans hOutput) ‹_› ‹_›
  | sends w hIn hOut => exact .sends w (hIn.trans hInput) (hOutput ▸ hOut) ‹_› ‹_›

theorem received?_eq_top? (hRegister : q.register.map Instruction.opcode = some .load)
    (hAddress : q.datapath.address = Word.inputPort) : q.received? = q.datapath.top? := by
  rw [received?, hasAccessed, hRegister, hAddress, beq_self_eq_true, beq_self_eq_true]
  rfl

theorem sent?_eq_back? (hRegister : q.register.map Instruction.opcode = some .pop)
    (hAddress : q.datapath.address = Word.outputPort) : q.sent? = q.datapath.output.back? := by
  rw [sent?, hasAccessed, hRegister, hAddress, beq_self_eq_true, beq_self_eq_true]
  rfl

theorem hasAccessed_eq_false {opcode other : Opcode} {address : Word}
    (hRegister : q.register.map Instruction.opcode = some other)
    (hOther : other = opcode → q.datapath.address ≠ address) :
    q.hasAccessed opcode address = false := by
  rw [hasAccessed, hRegister]
  by_cases hSame : other = opcode
  · rw [beq_eq_false_iff_ne.mpr (hOther hSame), Bool.and_false]
  · rw [beq_eq_false_iff_ne.mpr fun h => hSame (Option.some.inj h), Bool.false_and]

theorem received?_eq_none {other : Opcode}
    (hRegister : q.register.map Instruction.opcode = some other)
    (hOther : other = .load → q.datapath.address ≠ Word.inputPort) : q.received? = none := by
  rw [received?, hasAccessed_eq_false hRegister hOther]
  rfl

theorem sent?_eq_none {other : Opcode}
    (hRegister : q.register.map Instruction.opcode = some other)
    (hOther : other = .pop → q.datapath.address ≠ Word.outputPort) : q.sent? = none := by
  rw [sent?, hasAccessed_eq_false hRegister hOther]
  rfl

theorem received?_eq_none_of_ne {other : Opcode}
    (hRegister : q.register.map Instruction.opcode = some other) (hOther : other ≠ .load) :
    q.received? = none :=
  received?_eq_none hRegister fun hSame => absurd hSame hOther

theorem sent?_eq_none_of_ne {other : Opcode}
    (hRegister : q.register.map Instruction.opcode = some other) (hOther : other ≠ .pop) :
    q.sent? = none :=
  sent?_eq_none hRegister fun hSame => absurd hSame hOther

/-- Operations that go to no address leave the ports alone. -/
theorem ports_of_execute {op : Operation} (hLoad : op ≠ .load) (hPop : op ≠ .pop)
    (h : p.execute op = .completed q) :
    q.register = p.register ∧ q.datapath.input = p.datapath.input ∧
      q.datapath.output = p.datapath.output := by
  cases op with
  | load => exact absurd rfl hLoad
  | pop => exact absurd rfl hPop
  | _ =>
    simp only [execute, ifRoom, underflow] at h
    repeat' split at h
    all_goals
      cases h
      try exact ⟨rfl, rfl, rfl⟩

theorem exchange_of_loadFrom (h : p.datapath.Bounded) (hLive : 0 < p.datapath.live.length)
    (hRegister : p.register.map Instruction.opcode = some .load)
    (hLoad : p.loadFrom = .completed q) : p.Exchange q := by
  simp only [loadFrom] at hLoad
  split at hLoad
  · rename_i hPort
    cases hInput : p.datapath.input with
    | nil =>
      rw [hInput] at hLoad
      cases hLoad
    | cons c rest =>
      rw [hInput] at hLoad
      cases hLoad
      -- the code of the character is on top of the stack now
      refine .receives c hInput rfl ?_ (sent?_eq_none_of_ne hRegister (by decide))
      rw [received?_eq_top?]
      · exact @Datapath.top?_replaced { p.datapath with input := rest } h hLive _
      · exact hRegister
      · exact hPort
  · rename_i hPort
    split at hLoad
    · cases hLoad
      exact .nothing rfl rfl (received?_eq_none hRegister fun _ => hPort)
        (sent?_eq_none_of_ne hRegister (by decide))
    · cases hLoad

theorem exchange_of_storeTo {v : Word}
    (hRegister : p.register.map Instruction.opcode = some .pop)
    (hStore : p.storeTo v = .completed q) : p.Exchange q := by
  simp only [storeTo] at hStore
  split at hStore
  · rename_i hPort
    cases hStore
    refine .sends v rfl rfl (received?_eq_none_of_ne hRegister (by decide)) ?_
    rw [sent?_eq_back?]
    · exact Array.back?_push
    · exact hRegister
    · exact hPort
  · rename_i hPort
    split at hStore
    · cases hStore
      exact .nothing rfl rfl (received?_eq_none_of_ne hRegister (by decide))
        (sent?_eq_none hRegister fun _ => hPort)
    · cases hStore

theorem exchange_of_execute (h : p.datapath.Bounded) {op : Operation}
    (hRegister : p.register.map Instruction.opcode = some op.opcode)
    (hExecute : p.execute op = .completed q) : p.Exchange q := by
  by_cases hLoad : op = .load
  · subst hLoad
    simp only [execute] at hExecute
    split at hExecute
    · rename_i a rest hLive
      have hStart : p.SameStore (p.proceed 1 { p.datapath with address := a }) := ⟨rfl, rfl, rfl⟩
      have hLength : 0 < p.datapath.live.length := by rw [hLive]; exact Nat.succ_pos _
      exact .of_sameStore hStart (exchange_of_loadFrom h hLength hRegister hExecute)
    · cases hExecute
  by_cases hPop : op = .pop
  · subst hPop
    simp only [execute] at hExecute
    split at hExecute
    · rename_i v a rest hLive
      have hStart : p.SameStore (p.proceed 1 { p.datapath with address := a }) := ⟨rfl, rfl, rfl⟩
      exact .of_sameStore hStart (exchange_of_storeTo hRegister hExecute)
    · cases hExecute
  obtain ⟨hKept, hInput, hOutput⟩ := ports_of_execute hLoad hPop hExecute
  rw [← hKept] at hRegister
  have hOpcodes : op.opcode ≠ .load ∧ op.opcode ≠ .pop := by
    cases op with
    | load => exact absurd rfl hLoad
    | pop => exact absurd rfl hPop
    | alu alu => cases alu <;> decide
    | _ =>
      refine ⟨?_, ?_⟩
      all_goals
        intro hSame
        cases hSame
  exact .nothing hInput hOutput
    (received?_eq_none_of_ne hRegister hOpcodes.1) (sent?_eq_none_of_ne hRegister hOpcodes.2)

/-- A cycle that is carried out in full takes one character, or sends one word, or leaves both ports
alone. -/
theorem exchange_of_cycle (h : p.datapath.Bounded) (hCycle : p.cycle = .completed q) :
    p.Exchange q := by
  obtain ⟨op, ⟨inst, hFetch, hOp⟩, _⟩ := exists_fetches_of_cycle hCycle
  rw [cycle_eq_execute h hFetch hOp] at hCycle
  have hStart : p.SameStore (p.fetch inst) := ⟨rfl, rfl, rfl⟩
  have hRegister : (p.fetch inst).register.map Instruction.opcode = some op.opcode :=
    congrArg some (Instruction.means_of_operation hOp).1.symm
  exact .of_sameStore hStart (exchange_of_execute h hRegister hCycle)

/-- The top of the stack is the character that was taken if the input has become shorter. -/
theorem Exchange.received?_eq (h : p.Exchange q) :
    q.received? =
      if q.datapath.input.length < p.datapath.input.length then q.datapath.top? else none := by
  cases h with
  | nothing hInput _ hReceived => rw [hReceived, hInput, if_neg (Nat.lt_irrefl _)]
  | sends w hInput _ hReceived => rw [hReceived, hInput, if_neg (Nat.lt_irrefl _)]
  | receives c hInput _ hReceived =>
    have hTop : q.datapath.top? = q.received? := by
      rw [received?] at hReceived ⊢
      split at hReceived
      · rw [if_pos ‹_›]
      · cases hReceived
    rw [hInput, List.length_cons, if_pos (Nat.lt_succ_self _), hTop]

/-- The word that was sent stands where the output ended before. -/
theorem Exchange.sent?_eq (h : p.Exchange q) :
    q.sent? = q.datapath.output[p.datapath.output.size]? := by
  cases h with
  | nothing _ hOutput _ hSent => rw [hSent, hOutput, Array.getElem?_size]
  | receives c _ hOutput _ hSent => rw [hSent, hOutput, Array.getElem?_size]
  | sends w _ hOutput _ hSent => rw [hSent, hOutput, Array.getElem?_push_size]

-- ---------------------------------------------------------------------------
-- Many cycles
-- ---------------------------------------------------------------------------

/-- What cycles took and sent that left these states on the way from `p` to `last`: the characters
come from the front of the input, and the words go to the end of the output. -/
structure Exchanges (p : Processor) (states : List Processor) (last : Processor) : Prop where
  input : ∃ taken, p.datapath.input = taken ++ last.datapath.input ∧
    states.filterMap received? = taken.map Word.ofChar
  output : last.datapath.output.toList = p.datapath.output.toList ++ states.filterMap sent?

theorem SameStore.exchanges (h : p.SameStore q) : p.Exchanges [] q where
  input := ⟨[], h.2.1.symm, rfl⟩
  output := by rw [h.2.2, List.filterMap_nil, List.append_nil]

theorem Exchange.exchanges_cons (h : p.Exchange q) {states : List Processor} {last : Processor}
    (hRest : q.Exchanges states last) : p.Exchanges (q :: states) last := by
  obtain ⟨⟨taken, hTaken, hReceived⟩, hSent⟩ := hRest
  cases h with
  | nothing hInput hOutput hNoneIn hNoneOut =>
    rw [hInput] at hTaken
    rw [hOutput] at hSent
    refine ⟨⟨taken, hTaken, ?_⟩, ?_⟩
    · rw [List.filterMap_cons_none hNoneIn, hReceived]
    · rw [List.filterMap_cons_none hNoneOut, hSent]
  | receives c hInput hOutput hIn hNoneOut =>
    rw [hOutput] at hSent
    refine ⟨⟨c :: taken, ?_, ?_⟩, ?_⟩
    · rw [hInput, hTaken, List.cons_append]
    · rw [List.filterMap_cons_some hIn, hReceived, List.map_cons]
    · rw [List.filterMap_cons_none hNoneOut, hSent]
  | sends w hInput hOutput hNoneIn hOut =>
    rw [hInput] at hTaken
    rw [hOutput, Array.toList_push, List.append_assoc] at hSent
    refine ⟨⟨taken, hTaken, ?_⟩, ?_⟩
    · rw [List.filterMap_cons_none hNoneIn, hReceived]
    · rw [List.filterMap_cons_some hOut, hSent, List.singleton_append]

end Processor

/-- Each cycle of a session that was carried out in full does one of the three things, and the
session takes and sends what they do. -/
theorem Session.exchanges_of_watch (options : Options) (s : Session)
    (h : s.processor.datapath.Bounded) :
    let started := (s.watch options).2
    (∀ p ∈ completed started, p.Exchange p.cycle.state) ∧
      s.processor.Exchanges (left started) (s.processor.cycles started.length) := by
  refine watch_induction options
    (P := fun s w => s.processor.datapath.Bounded →
      (∀ p ∈ completed w.2, p.Exchange p.cycle.state) ∧
        s.processor.Exchanges (left w.2) (s.processor.cycles w.2.length)) ?_ ?_ ?_ s h
  · intro s _ _
    refine ⟨fun _ hMem => absurd hMem List.not_mem_nil, ?_⟩
    exact Processor.SameStore.exchanges ⟨rfl, rfl, rfl⟩
  · intro s q warned events run started _ hCycle ih hBounded
    have hNext := Processor.bounded_cycle hBounded
    rw [hCycle, Attempt.state_completed] at hNext
    obtain ⟨hEach, hAll⟩ := ih hNext
    have hExchange := Processor.exchange_of_cycle hBounded hCycle
    refine ⟨?_, ?_⟩
    · rw [completed_cons_of_completed hCycle]
      refine List.forall_mem_cons.mpr ⟨?_, hEach⟩
      rwa [hCycle]
    · rw [left_cons_of_completed hCycle, List.length_cons, Processor.cycles, hCycle]
      exact hExchange.exchanges_cons hAll
  · intro s q cause _ hCycle hBounded
    have hSame := Processor.sameStore_of_cycle hBounded hCycle
    refine ⟨?_, ?_⟩
    · rw [completed_cons_of_interrupted hCycle]
      exact fun _ hMem => absurd hMem List.not_mem_nil
    · rw [left_singleton_of_interrupted hCycle, List.length_singleton, Processor.cycles, hCycle]
      exact hSame.exchanges

end StackProcessor
