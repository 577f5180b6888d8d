import StackProcessor.Proofs.Assembly.OperandShape

/-!
# StackProcessor — where assembled jumps lead

`JumpsToLabels` asks that every `jmp` and `jmz` of a program is written with the name of a label
that is not the name of a variable. Such a jump leads to the front of some instruction, or to the
end of the code. If all jumps are so, every run of the program is `FollowedBy` it: the counter never
leaves the code but at its end, no record is fetched that does not decode, and the two records of an
`inp` or an `out` (`PairAt`) are never entered in the middle.

The targets are found from the layout (`Object.ConsistsOf`): the address of a label is a
`recordCount`, and so never that of the second record of a pair. What holds of all targets of the
code then holds of the counter of a run, cycle by cycle (`Processor.TargetsSatisfy`).

## Results
- `Object.ConsistsOf.exists_label_of_target` : a jump leads to a label.
- `Object.ConsistsOf.targets_le`, `Object.ConsistsOf.targets_ne` : so it leads to no other place.
- `Object.ConsistsOf.exists_operation` : every record decodes.
- `assembled_control_flow` : the runs of a program that assembles.
-/

namespace StackProcessor

/-- What leads somewhere is decoded from a jump to that place. -/
theorem Operation.jump_of_target? {op : Operation} {target : Nat} (h : op.target? = some target) :
    (op.opcode = .jump ∨ op.opcode = .jz) ∧ op.payload? = some (target : Int) := by
  cases op with
  | jump other =>
    cases h
    exact ⟨Or.inl rfl, rfl⟩
  | jz other =>
    cases h
    exact ⟨Or.inr rfl, rfl⟩
  | _ => cases h

namespace Assembly

-- ---------------------------------------------------------------------------
-- Jumps to labels
-- ---------------------------------------------------------------------------

/-- Every jump of the program is written with a name that is the name of a label and of no
variable. -/
def JumpsToLabels (ss : List Statement) : Prop :=
  ∀ mnemonic operand, .instruction mnemonic operand ∈ ss → mnemonic = "jmp" ∨ mnemonic = "jmz" →
    ∃ name, operand = some (.symbol name) ∧ .label name ∈ ss ∧
      ∀ kind value, .declaration kind name value ∉ ss

namespace Object

variable {o : Object} {ss : List Statement}

theorem ConsistsOf.lookup_label (h : o.ConsistsOf ss) {name : String} {a : Word}
    (hResolve : o.symbols.resolve name = some a)
    (hNone : ∀ kind value, .declaration kind name value ∉ ss) :
    o.symbols.labelTable.lookup name = some a := by
  rcases Symbols.lookup_of_resolve hResolve with hVariable | hLabel
  · -- a variable has a declaration
    obtain ⟨n, hMem, _⟩ := h.variableTable.exists_of_lookup hVariable
    obtain ⟨before, s, after, hSplit, hName, _⟩ :=
      (mem_sites_iff Statement.variableName? _ Word.portCells ss name n).mp hMem
    cases s with
    | declaration kind other value =>
      cases hName
      exact absurd (by simp [hSplit]) (hNone kind value)
    | _ => cases hName
  · exact hLabel

/-- A jump leads to a label: to the records behind those of the statements before it. -/
theorem ConsistsOf.exists_label_of_target (h : o.ConsistsOf ss) (hJumps : JumpsToLabels ss)
    {i : Nat} {inst : Instruction} (hInst : o.image.code[i]? = some inst) {op : Operation}
    (hOp : inst.operation = .ok op) {target : Nat} (hTarget : op.target? = some target) :
    ∃ before name after, ss = before ++ .label name :: after ∧ target = recordCount before := by
  obtain ⟨hJump, hPayload⟩ := Operation.jump_of_target? hTarget
  obtain ⟨hOpcode, hArg⟩ := Instruction.means_of_operation hOp
  rw [hOpcode] at hJump
  rw [hPayload] at hArg
  obtain ⟨before, mnemonic, operand, after, hSplit, hMnemonic, _, hValue⟩ :=
    h.exists_jump hInst hJump
  obtain ⟨name, rfl, _, hNone⟩ := hJumps mnemonic operand (by simp [hSplit]) hMnemonic
  obtain ⟨a, hWord, hInt⟩ := Option.map_eq_some_iff.mp hArg.symm
  rw [hWord] at hValue
  obtain ⟨front, back, hLabel, hAddress⟩ :=
    exists_site_of_lookup h.labelTable (h.lookup_label hValue.symm hNone)
  refine ⟨front, name, back, hLabel, ?_⟩
  omega

theorem ConsistsOf.targets_le (h : o.ConsistsOf ss) (hJumps : JumpsToLabels ss) :
    Processor.TargetsSatisfy o.image.code.toArray (· ≤ o.image.code.length) := by
  intro i inst op target hInst hOp hTarget
  rw [← Array.getElem?_toList] at hInst
  obtain ⟨before, name, after, hSplit, rfl⟩ := h.exists_label_of_target hJumps hInst hOp hTarget
  rw [h.length_code, hSplit, recordCount_append]
  exact Nat.le_add_right _ _

/-- No jump leads to the second of two records that belong together. -/
theorem ConsistsOf.targets_ne (h : o.ConsistsOf ss) (hJumps : JumpsToLabels ss)
    {before after : List Statement} {s : Statement} (hSplit : ss = before ++ s :: after)
    (hLong : s.records.length = 2) :
    Processor.TargetsSatisfy o.image.code.toArray (· ≠ recordCount before + 1) := by
  intro i inst op target hInst hOp hTarget
  rw [← Array.getElem?_toList] at hInst
  obtain ⟨before', name, after', hSplit', rfl⟩ :=
    h.exists_label_of_target hJumps hInst hOp hTarget
  exact recordCount_ne_of_split (hSplit'.symm.trans hSplit) hLong

theorem ConsistsOf.exists_operation (h : o.ConsistsOf ss) (hJumps : JumpsToLabels ss) {i : Nat}
    {inst : Instruction} (hInst : o.image.code[i]? = some inst) :
    ∃ op, inst.operation = .ok op := by
  obtain ⟨hExecutable, hProper⟩ := h.shape hInst
  have hNever : ∀ target, ¬ inst.JumpsBelowZero target := by
    intro target hBelow
    obtain ⟨before, mnemonic, n, after, hSplit, hMnemonic, _⟩ :=
      (h.jumpsBelowZero_iff hInst).mp ⟨target, hBelow⟩
    -- an integer is not the name of a label
    obtain ⟨name, hOperand, _⟩ := hJumps mnemonic (some (.integer n)) (by simp [hSplit]) hMnemonic
    cases hOperand
  obtain ⟨op, hOp, _⟩ := (Instruction.exists_operation_iff hProper).mpr ⟨hExecutable, hNever⟩
  exact ⟨op, hOp⟩

-- ---------------------------------------------------------------------------
-- Runs
-- ---------------------------------------------------------------------------

/-- The two records of an input or an output stand at `i` and behind it. -/
def PairAt (o : Object) (mnemonic : String) (i : Nat) : Prop :=
  (mnemonic = "inp" ∧ o.image.code[i]? = some ⟨i, .push, some 0⟩ ∧
      o.image.code[i + 1]? = some ⟨i + 1, .load, none⟩) ∨
    (mnemonic = "out" ∧ o.image.code[i]? = some ⟨i, .push2, some 1⟩ ∧
      o.image.code[i + 1]? = some ⟨i + 1, .pop, none⟩)

/-- The cycles of a processor follow the program that the object consists of. -/
structure FollowedBy (o : Object) (ss : List Statement) (p : Processor) : Prop where
  /-- The counter stays within the code, or at its end. -/
  within : ∀ n, (p.cycles n).pc ≤ o.image.code.length
  decodes : ∀ n fault, (p.cycles n).cycle.cause? ≠ some (.fault (.decode fault))
  /-- The code is left at its end. -/
  leaves : ∀ n pc, (p.cycles n).cycle.cause? = some (.ofRuntime (.pcOutOfRange pc)) →
    pc = o.image.code.length
  /-- The second of the two records is fetched in the cycle after the one of the first only. -/
  paired : ∀ before mnemonic operand after, ss = before ++ .instruction mnemonic operand :: after →
    mnemonic = "inp" ∨ mnemonic = "out" →
    o.PairAt mnemonic (recordCount before) ∧
      ∀ n, p.Completes n → (p.cycles n).pc = recordCount before + 1 →
        ∃ k, n = k + 1 ∧ (p.cycles k).pc = recordCount before ∧
          (p.cycles k).cycle.cause? = none

theorem ConsistsOf.pairAt (h : o.ConsistsOf ss) {before after : List Statement}
    {mnemonic : String} {operand : Option Operand}
    (hSplit : ss = before ++ .instruction mnemonic operand :: after)
    (hShorthand : mnemonic = "inp" ∨ mnemonic = "out") :
    o.PairAt mnemonic (recordCount before) := by
  rcases hShorthand with rfl | rfl
  · exact Or.inl ⟨rfl, h.getElem?_code hSplit (j := 0) rfl, h.getElem?_code hSplit (j := 1) rfl⟩
  · exact Or.inr ⟨rfl, h.getElem?_code hSplit (j := 0) rfl, h.getElem?_code hSplit (j := 1) rfl⟩

/-- A processor that starts at the front of the code follows the program. -/
theorem ConsistsOf.followedBy (h : o.ConsistsOf ss) (hJumps : JumpsToLabels ss) {p : Processor}
    (hCode : p.code = o.image.code.toArray) (hStart : p.pc = 0) (hBounded : p.datapath.Bounded) :
    o.FollowedBy ss p := by
  have hSize : p.code.size = o.image.code.length := by rw [hCode, List.size_toArray]
  have hCycles := Processor.bounded_cycles hBounded
  have hWithin : ∀ n, (p.cycles n).pc ≤ o.image.code.length := by
    have hTargets := h.targets_le hJumps
    rw [← hCode, ← hSize] at hTargets
    intro n
    rw [← hSize]
    exact Processor.pc_cycles_le hTargets (by omega) n
  refine ⟨hWithin, ?_, ?_, ?_⟩
  · intro n fault hCause
    obtain ⟨inst, hFetch, hFault⟩ := Processor.decode_of_cycle (hCycles n) hCause
    rw [Processor.code_cycles, hCode, ← Array.getElem?_toList] at hFetch
    obtain ⟨op, hOp⟩ := h.exists_operation hJumps hFetch
    rw [hOp] at hFault
    cases hFault
  · intro n pc hCause
    obtain ⟨rfl, hEnd⟩ := Processor.pcOutOfRange_of_cycle (hCycles n) hCause
    rw [Processor.code_cycles, hSize] at hEnd
    exact Nat.le_antisymm (hWithin n) hEnd
  · intro before mnemonic operand after hSplit hShorthand
    refine ⟨h.pairAt hSplit hShorthand, ?_⟩
    intro n hComplete hHere
    have hTargets := h.targets_ne hJumps hSplit (length_records_shorthand hShorthand operand)
    rw [← hCode] at hTargets
    obtain ⟨k, rfl, hBefore⟩ :=
      Processor.exists_before_of_completes hTargets (by omega) hComplete hHere
    exact ⟨k, rfl, hBefore, hComplete k (Nat.lt_succ_self k)⟩

end Object

/-- **Control flow**: if all jumps of a program that assembles are written with names of labels that
no variable has, the runs of its image follow the program, and their results tell of no record that
does not decode and of no place behind the end of the code. -/
theorem assembled_control_flow {source : String} {verbose : Bool} {o : Object}
    (h : (assemble source verbose).result = .ok o) {located : List Located}
    (hRead : readSource source.toList = .ok located)
    (hJumps : JumpsToLabels (located.map Located.statement)) (input : List Char)
    (options : Options) :
    o.FollowedBy (located.map Located.statement)
        (Processor.initial o.image options.stackSize input) ∧
      (∀ fault, (simulate o.image input options).result ≠ .error (.fault (.decode fault))) ∧
      ∀ pc,
        (simulate o.image input options).result = .error (.fault (.runtime (.pcOutOfRange pc))) →
        pc = o.image.code.length := by
  obtain ⟨others, hOthers, hConsists⟩ := exists_consistsOf h
  rw [hRead] at hOthers
  cases hOthers
  have hFollowed : o.FollowedBy (located.map Located.statement)
      (Processor.initial o.image options.stackSize input) :=
    hConsists.followedBy hJumps rfl rfl
      (Datapath.bounded_initial o.image.data options.stackSize input)
  refine ⟨hFollowed, ?_, ?_⟩
  · intro fault hResult
    obtain ⟨n, _, hCause⟩ := exists_cause_of_simulate hResult
    exact hFollowed.decodes n fault hCause
  · intro pc hResult
    obtain ⟨n, _, hCause⟩ := exists_cause_of_simulate hResult
    exact hFollowed.leaves n pc hCause

/-- The first jump leads behind the second, which closes a loop, and to the end of the code. -/
theorem assembled_control_flow_loop :
    let source := "section .code:\nloop:\ninp\njmz end\njmp loop\nend:"
    let located : List Located :=
      [⟨1, "section .code:", .codeHeader⟩, ⟨2, "loop:", .label "loop"⟩,
        ⟨3, "inp", .instruction "inp" none⟩,
        ⟨4, "jmz end", .instruction "jmz" (some (.symbol "end"))⟩,
        ⟨5, "jmp loop", .instruction "jmp" (some (.symbol "loop"))⟩, ⟨6, "end:", .label "end"⟩]
    let code : List Instruction :=
      [⟨0, .push, some 0⟩, ⟨1, .load, none⟩, ⟨2, .jz, some 4⟩, ⟨3, .jump, some 0⟩]
    let o : Object := ⟨⟨[0, 0], code⟩, ⟨[], [("loop", 0), ("end", 4)]⟩, 6⟩
    (assemble source false).result = .ok o ∧ readSource source.toList = .ok located ∧
      JumpsToLabels (located.map Located.statement) ∧
      o.FollowedBy (located.map Located.statement) (Processor.initial o.image 10 ['a']) := by
  have hJumps : JumpsToLabels
      [.codeHeader, .label "loop", .instruction "inp" none,
        .instruction "jmz" (some (.symbol "end")), .instruction "jmp" (some (.symbol "loop")),
        .label "end"] := by
    intro mnemonic operand hMem hJump
    simp only [List.mem_cons, List.not_mem_nil, or_false, reduceCtorEq, false_or,
      Statement.instruction.injEq] at hMem
    rcases hMem with ⟨rfl, rfl⟩ | ⟨rfl, rfl⟩ | ⟨rfl, rfl⟩
    · simp at hJump
    · exact ⟨"end", rfl, by simp, by simp⟩
    · exact ⟨"loop", rfl, by simp, by simp⟩
  have hFollowed := @assembled_control_flow
    "section .code:\nloop:\ninp\njmz end\njmp loop\nend:" false _ rfl _ rfl
  refine ⟨?_, ?_, hJumps, (hFollowed hJumps ['a'] {}).1⟩
  · rfl
  · rfl

end Assembly

end StackProcessor
