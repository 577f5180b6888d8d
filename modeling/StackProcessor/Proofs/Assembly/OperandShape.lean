import StackProcessor.Proofs.Assembly.Object
import StackProcessor.Proofs.Image.RoundTrip
import StackProcessor.Proofs.Simulation.Ending

/-!
# StackProcessor — the shape of operands

Whether a record has an operand is decided in three places: where a program is assembled
(`expansion`), where an image is read (`Instruction.hasProperArity`) and where a record is fetched
(`Instruction.operation`). All three go by the opcode. So a record that comes from one of the first
two is undecodable for a reason that has nothing to do with its shape: it declares data
(`Opcode.isDeclarative`), which no assembled record does, or it jumps below zero
(`Instruction.JumpsBelowZero`), which an assembled record does only if it is written so
(`WritesNegativeJump`).

`Image.ReportsOnFetch` says of the runs of an image that whenever one of them comes upon a record
that does not decode, it has just fetched this record, and reports it for one of these two reasons.

## Results
- `expansion_shape` : what the records of an instruction look like.
- `Object.ConsistsOf.jumpsBelowZero_iff` : which assembled records jump below zero.
- `Image.reportsOnFetch_of_hasProperArity` : what a run reports on undecodable records.
- `operand_shapes_agree` : assembled and loaded images, and their runs.
-/

namespace StackProcessor

namespace Assembly

-- ---------------------------------------------------------------------------
-- Assembled records
-- ---------------------------------------------------------------------------

theorem plainRecord_shape {mnemonic : String} {operand : Option Operand}
    {record : Opcode × Option Argument} (h : plainRecord mnemonic operand = .ok record) :
    record.1.isDeclarative = false ∧ record.1.takesOperand = record.2.isSome := by
  unfold plainRecord at h
  split at h
  · cases h
  · split at h
    · cases h
    · rename_i hExecutable
      have hPlain := Bool.not_eq_true _ ▸ hExecutable
      split at h
      · rename_i hTakes
        obtain ⟨a, _, rfl⟩ := exists_of_map_eq_ok h
        exact ⟨hPlain, hTakes⟩
      · cases h
      · cases h
      · rename_i hTakes
        cases h
        exact ⟨hPlain, hTakes⟩

/-- All records of an instruction can be executed, and have an operand if their opcode takes one. -/
theorem expansion_shape {mnemonic : String} {operand : Option Operand}
    {records : List (Opcode × Option Argument)} (h : expansion mnemonic operand = .ok records)
    {r : Opcode × Option Argument} (hMem : r ∈ records) :
    r.1.isDeclarative = false ∧ r.1.takesOperand = r.2.isSome := by
  by_cases hInput : mnemonic = "inp"
  · subst hInput
    cases operand <;> cases h
    simp only [List.mem_cons, List.not_mem_nil, or_false] at hMem
    rcases hMem with rfl | rfl <;> exact ⟨rfl, rfl⟩
  · by_cases hOutput : mnemonic = "out"
    · subst hOutput
      cases operand <;> cases h
      simp only [List.mem_cons, List.not_mem_nil, or_false] at hMem
      rcases hMem with rfl | rfl <;> exact ⟨rfl, rfl⟩
    · rw [expansion, shorthand?_eq_none hInput hOutput] at h
      obtain ⟨record, hRecord, rfl⟩ := exists_of_map_eq_ok h
      rw [List.mem_singleton.mp hMem]
      exact plainRecord_shape hRecord

/-- Record `i` belongs to a jump that is written with a negative integer. -/
def WritesNegativeJump (ss : List Statement) (i : Nat) : Prop :=
  ∃ before mnemonic n after, ss = before ++ .instruction mnemonic (some (.integer n)) :: after ∧
    (mnemonic = "jmp" ∨ mnemonic = "jmz") ∧ n.value < 0 ∧ i = recordCount before

namespace Object

variable {o : Object} {ss : List Statement}

theorem ConsistsOf.isSome_value (h : o.ConsistsOf ss) {r : Opcode × Option Argument}
    (hMem : r ∈ ss.flatMap Statement.records) :
    (r.2.bind (Argument.value o.symbols)).isSome = r.2.isSome := by
  rcases r with ⟨opcode, _ | _ | name⟩
  · rfl
  · rfl
  · exact h.resolvable name (List.mem_map.mpr ⟨_, hMem, rfl⟩)

theorem ConsistsOf.shape (h : o.ConsistsOf ss) {i : Nat} {inst : Instruction}
    (hInst : o.image.code[i]? = some inst) :
    inst.opcode.isDeclarative = false ∧ inst.hasProperArity = true := by
  obtain ⟨before, mnemonic, operand, after, j, r, rfl, _, hRecord, rfl⟩ :=
    h.exists_instruction hInst
  obtain ⟨records, hExpansion⟩ := h.expandable mnemonic operand (by simp)
  have hHere := List.mem_of_getElem? hRecord
  rw [← expansion_eq_records hExpansion] at hHere
  obtain ⟨hExecutable, hTakes⟩ := expansion_shape hExpansion hHere
  have hMem : r ∈ (before ++ Statement.instruction mnemonic operand :: after).flatMap
      Statement.records :=
    List.mem_flatMap.mpr ⟨_, by simp, List.mem_of_getElem? hRecord⟩
  refine ⟨hExecutable, beq_iff_eq.mpr ?_⟩
  rw [hTakes, ← h.isSome_value hMem]

theorem ConsistsOf.getElem?_code_jump (h : o.ConsistsOf ss) {before after : List Statement}
    {mnemonic : String} {n : IntegerLiteral}
    (hSplit : ss = before ++ .instruction mnemonic (some (.integer n)) :: after)
    (hJump : mnemonic = "jmp" ∨ mnemonic = "jmz") :
    ∃ inst, o.image.code[recordCount before]? = some inst ∧
      (inst.opcode = .jump ∨ inst.opcode = .jz) ∧
      ∃ target, inst.arg = some target ∧ target.toInt = n.value := by
  obtain ⟨records, hExpansion⟩ := h.expandable mnemonic (some (.integer n)) (by simp [hSplit])
  have hWord := toInt_wrap_of_expansion hExpansion
  rcases hJump with rfl | rfl
  · exact ⟨_, h.getElem?_code hSplit (j := 0) rfl, Or.inl rfl, Word.wrap n.value, rfl, hWord⟩
  · exact ⟨_, h.getElem?_code hSplit (j := 0) rfl, Or.inr rfl, Word.wrap n.value, rfl, hWord⟩

/-- Only what is written as a negative integer is a jump below zero. -/
theorem ConsistsOf.jumpsBelowZero_iff (h : o.ConsistsOf ss) {i : Nat} {inst : Instruction}
    (hInst : o.image.code[i]? = some inst) :
    (∃ target, inst.JumpsBelowZero target) ↔ WritesNegativeJump ss i := by
  constructor
  · rintro ⟨target, hJump, hArg, hNegative⟩
    obtain ⟨before, mnemonic, operand, after, hSplit, hMnemonic, hPlace, hValue⟩ :=
      h.exists_jump hInst hJump
    rw [hArg] at hValue
    cases operand with
    | none => cases hValue
    | some operand =>
      cases operand with
      | integer n =>
        obtain ⟨records, hExpansion⟩ :=
          h.expandable mnemonic (some (.integer n)) (by simp [hSplit])
        have hWord := toInt_wrap_of_expansion hExpansion
        cases hValue
        exact ⟨before, mnemonic, n, after, hSplit, hMnemonic, by omega, hPlace⟩
      | symbol name =>
        -- addresses are not negative
        have hNonneg := h.resolve_nonneg hValue.symm
        omega
  · rintro ⟨before, mnemonic, n, after, hSplit, hMnemonic, hNegative, rfl⟩
    obtain ⟨other, hOther, hJump, target, hArg, hTarget⟩ := h.getElem?_code_jump hSplit hMnemonic
    rw [hInst] at hOther
    cases hOther
    exact ⟨target, hJump, hArg, by omega⟩

end Object

end Assembly

-- ---------------------------------------------------------------------------
-- Runs
-- ---------------------------------------------------------------------------

namespace Image

/-- Whenever a run of the image comes upon a record that does not decode, it has just fetched this
record, and what it reports is that the record declares data or jumps below zero. -/
def ReportsOnFetch (image : Image) : Prop :=
  ∀ (input : List Char) (options : Options),
    let p := Processor.initial image options.stackSize input
    (∀ n fault, (p.cycles n).cycle.cause? = some (.fault (.decode fault)) →
      ∃ inst, image.code[(p.cycles n).pc]? = some inst ∧ inst.Reports fault) ∧
    ∀ fault, (simulate image input options).result = .error (.fault (.decode fault)) →
      ∃ n inst, p.Completes n ∧ image.code[(p.cycles n).pc]? = some inst ∧ inst.Reports fault

theorem reportsOnFetch_of_hasProperArity {image : Image}
    (hShape : ∀ inst ∈ image.code, inst.hasProperArity = true) : image.ReportsOnFetch := by
  intro input options p
  have hInitial : p.datapath.Bounded :=
    Datapath.bounded_initial image.data options.stackSize input
  have hCycle : ∀ n fault, (p.cycles n).cycle.cause? = some (.fault (.decode fault)) →
      ∃ inst, image.code[(p.cycles n).pc]? = some inst ∧ inst.Reports fault := by
    intro n fault hCause
    obtain ⟨inst, hFetch, hFault⟩ :=
      Processor.decode_of_cycle (Processor.bounded_cycles hInitial n) hCause
    rw [Processor.code_cycles, ← Array.getElem?_toList] at hFetch
    have hProper := hShape inst (List.mem_of_getElem? hFetch)
    exact ⟨inst, hFetch, Instruction.reports_of_operation hProper hFault⟩
  refine ⟨hCycle, ?_⟩
  intro fault hResult
  obtain ⟨n, hComplete, hCause⟩ := exists_cause_of_simulate hResult
  obtain ⟨inst, hFetch, hReports⟩ := hCycle n fault hCause
  exact ⟨n, inst, hComplete, hFetch, hReports⟩

end Image

/-- **Operand shapes**: the records of an assembled image decode to what they say unless they are
jumps that are written with a negative integer; those of a loaded image do so unless they declare
data or jump below zero; and nothing else is ever reported by a run. -/
theorem operand_shapes_agree :
    (∀ source verbose o, (Assembly.assemble source verbose).result = .ok o →
      ∃ located, Assembly.readSource source.toList = .ok located ∧
        (∀ i inst, o.image.code[i]? = some inst →
          inst.opcode.isDeclarative = false ∧ inst.hasProperArity = true ∧
          ((∃ op, inst.operation = .ok op ∧ inst.Means op) ↔
            ¬ Assembly.WritesNegativeJump (located.map Assembly.Located.statement) i)) ∧
        o.image.ReportsOnFetch) ∧
    ∀ text image, Image.ofText text = .ok image →
      (∀ inst ∈ image.code,
        inst.hasProperArity = true ∧
        ((∃ op, inst.operation = .ok op ∧ inst.Means op) ↔
          inst.opcode.isDeclarative = false ∧ ∀ target, ¬ inst.JumpsBelowZero target)) ∧
      image.ReportsOnFetch := by
  constructor
  · intro source verbose o hAssemble
    obtain ⟨located, hRead, hConsists⟩ := Assembly.exists_consistsOf hAssemble
    refine ⟨located, hRead, ?_, Image.reportsOnFetch_of_hasProperArity ?_⟩
    · intro i inst hInst
      obtain ⟨hExecutable, hProper⟩ := hConsists.shape hInst
      refine ⟨hExecutable, hProper, ?_⟩
      rw [Instruction.exists_operation_iff hProper, ← hConsists.jumpsBelowZero_iff hInst,
        not_exists]
      exact and_iff_right hExecutable
    · intro inst hMem
      obtain ⟨i, hInst⟩ := List.getElem?_of_mem hMem
      exact (hConsists.shape hInst).2
  · intro text image hText
    have hShape := (Image.wellFormed_of_ofText hText).1
    refine ⟨?_, Image.reportsOnFetch_of_hasProperArity hShape⟩
    intro inst hMem
    have hProper := hShape inst hMem
    exact ⟨hProper, Instruction.exists_operation_iff hProper⟩

/-- A jump that is written below zero, and an image with a declaration among its records. -/
theorem operand_shapes_agree_below_zero :
    let source := "section .code:\npsh 0\njmz -3\nhlt"
    let code : List Instruction := [⟨0, .push, some 0⟩, ⟨1, .jz, some (-3)⟩, ⟨2, .halt, none⟩]
    let o : Assembly.Object := ⟨⟨[0, 0], code⟩, ⟨[], []⟩, 4⟩
    let image : Image := ⟨[], [⟨7, .number, some 1⟩]⟩
    (Assembly.assemble source false).result = .ok o ∧ o.image.ReportsOnFetch ∧
      Image.ofText image.render = .ok image ∧ image.ReportsOnFetch := by
  have hImage : Image.Representable ⟨[], [⟨7, .number, some 1⟩]⟩ := ⟨by decide, by decide⟩
  have hText := Image.ofText_render hImage
  refine ⟨?_, ?_, hText, ?_⟩
  · rfl
  · obtain ⟨_, _, _, hReports⟩ := operand_shapes_agree.1
      "section .code:\npsh 0\njmz -3\nhlt" false
      ⟨⟨[0, 0], [⟨0, .push, some 0⟩, ⟨1, .jz, some (-3)⟩, ⟨2, .halt, none⟩]⟩, ⟨[], []⟩, 4⟩ rfl
    exact hReports
  · exact (operand_shapes_agree.2 _ _ hText).2

end StackProcessor
