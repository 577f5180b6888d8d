import StackProcessor.Proofs.Assembly.CodeGeneration
import StackProcessor.Proofs.Assembly.Readings
import StackProcessor.Proofs.Isa.Decoding

/-!
# StackProcessor — assembled objects

`Object.ConsistsOf o ss` says what the object of a program consists of, statement by statement. Each
declaration has its cells in the memory, behind those of the ports, and each instruction its records
in the code, with operands that resolve; the symbol tables list the sites of the labels and of the
variables (`labelSites`, `variableSites`). Objects that sources assemble to are of this kind. What
other modules say of assembled code and data they say of an object that consists of statements.

`Filled` is the part of it that concerns the memory, as the first pass builds it; the part that
concerns the code and the tables is `Layout.Placed`.

## Results
- `Layout.filled_placeAll` : the memory that the first pass builds.
- `exists_passes` : what the two passes have done.
- `consistsOf_of_result` : the object of a program that assembles.
- `exists_consistsOf` : the object of a source text that assembles.
- `Object.ConsistsOf.exists_instruction` : where a record comes from.
- `Object.ConsistsOf.exists_jump` : where a jump comes from.
-/

namespace StackProcessor.Assembly

-- ---------------------------------------------------------------------------
-- The memory of the first pass
-- ---------------------------------------------------------------------------

/-- Every declaration has cells. -/
def Declarable (ss : List Statement) : Prop :=
  ∀ kind name value, .declaration kind name value ∈ ss →
    ∃ cells, declaredCells kind value = .ok cells

namespace Layout

/-- The memory is that of a program that consists of these statements. -/
structure Filled (ss : List Statement) (l : Layout) : Prop where
  data : l.data.toList = List.replicate Word.portCells 0 ++ ss.flatMap Statement.cells
  declarable : Declarable ss

theorem filled_empty : Filled [] empty where
  data := by simp [empty]
  declarable := fun _ _ _ hMem => absurd hMem List.not_mem_nil

theorem Filled.append_one {ss : List Statement} {s : Statement} {l l' : Layout} (h : Filled ss l)
    (hData : l'.data.toList = l.data.toList ++ s.cells)
    (hDeclarable : ∀ kind name value, s = .declaration kind name value →
      ∃ cells, declaredCells kind value = .ok cells) : Filled (ss ++ [s]) l' where
  data := by
    rw [hData, h.data, List.append_assoc, List.flatMap_append, List.flatMap_singleton]
  declarable := by
    intro kind name value hMem
    rcases List.mem_append.mp hMem with hBefore | hHere
    · exact h.declarable kind name value hBefore
    · exact hDeclarable kind name value (List.mem_singleton.mp hHere).symm

theorem data_of_declare {l l' : Layout} {name : String} {cells : List Word}
    (h : l.declare name cells = .ok l') : l'.data.toList = l.data.toList ++ cells := by
  unfold declare at h
  split at h
  · cases h
  · split at h
    · cases h
    · cases h
      simp

theorem data_of_mark {l l' : Layout} {name : String} (h : l.mark name = .ok l') :
    l'.data = l.data := by
  unfold mark at h
  split at h
  · cases h
  · split at h
    · cases h
    · cases h
      rfl

theorem filled_place {ss : List Statement} {s : Statement} {l l' : Layout} (h : Filled ss l)
    {line : Nat} (hPlace : l.place line s = .ok l') : Filled (ss ++ [s]) l' := by
  unfold place at hPlace
  split at hPlace
  · cases hPlace
    exact h.append_one (List.append_nil _).symm (by simp)
  · cases hPlace
  · cases hPlace
    exact h.append_one (List.append_nil _).symm (by simp)
  · rename_i kind name value _
    obtain ⟨cells, hCells, hDeclare⟩ := exists_of_bind_eq_ok hPlace
    refine h.append_one ?_ ?_
    · rw [data_of_declare hDeclare, Statement.cells, hCells]
    · rintro _ _ _ ⟨rfl, rfl, rfl⟩
      exact ⟨cells, hCells⟩
  · cases hPlace
  · refine h.append_one ?_ (by simp)
    rw [data_of_mark hPlace]
    exact (List.append_nil _).symm
  · obtain ⟨records, _, rfl⟩ := exists_of_map_eq_ok hPlace
    exact h.append_one (List.append_nil _).symm (by simp)
  · cases hPlace

theorem filled_placeAll {ss : List Statement} {l l' : Layout} (h : Filled ss l)
    {located : List Located} (hPlace : l.placeAll located = (l', none)) :
    Filled (ss ++ located.map Located.statement) l' :=
  placeAll_induction filled_place h hPlace

end Layout

-- ---------------------------------------------------------------------------
-- Objects
-- ---------------------------------------------------------------------------

namespace Object

/-- The object consists of the cells and the records of these statements. -/
structure ConsistsOf (o : Object) (ss : List Statement) : Prop where
  data : o.image.data = List.replicate Word.portCells 0 ++ ss.flatMap Statement.cells
  declarable : Declarable ss
  code : o.image.code = numbered o.symbols 0 (ss.flatMap Statement.records)
  expandable : Expandable ss
  resolvable : ∀ name, some (.symbol name) ∈ (ss.flatMap Statement.records).map Prod.snd →
    (o.symbols.resolve name).isSome = true
  labelTable : o.symbols.labelTable.Lists (labelSites ss)
  variableTable : o.symbols.variableTable.Lists (variableSites ss)

theorem consistsOf_of_passes {ss : List Statement} {l : Layout} (hPlaced : Layout.Placed ss l)
    (hFilled : Layout.Filled ss l) {code : List Instruction}
    (hCode : resolveAll l.symbols 0 l.code.toList = (code, none)) (lines : Nat) :
    ConsistsOf ⟨⟨l.data.toList, code⟩, l.symbols, lines⟩ ss := by
  obtain ⟨hNumbered, hResolved⟩ := resolveAll_eq hCode
  have hContents : l.code.toList.map (fun p => (p.opcode, p.argument)) =
      ss.flatMap Statement.records := hPlaced.code
  refine
    { data := hFilled.data
      declarable := hFilled.declarable
      code := ?_
      expandable := hPlaced.expandable
      resolvable := ?_
      labelTable := hPlaced.labelTable
      variableTable := hPlaced.variableTable }
  · rwa [hContents] at hNumbered
  · intro name hMem
    refine hResolved name ?_
    rwa [← hContents, List.map_map] at hMem

end Object

/-- The two passes over a program that assembles. -/
theorem exists_passes {lines : Nat} {located : List Located} {o : Object}
    (h : (assembleStatements lines located).result = .ok o) :
    ∃ layout code, Layout.empty.placeAll located = (layout, none) ∧
      resolveAll layout.symbols 0 layout.code.toList = (code, none) ∧
      o = ⟨⟨layout.data.toList, code⟩, layout.symbols, lines⟩ := by
  unfold assembleStatements at h
  split at h
  · cases h
  · rename_i layout hPlace
    cases hCode : resolveAll layout.symbols 0 layout.code.toList with
    | mk code error? =>
      rw [hCode] at h
      cases error? with
      | some e => cases h
      | none =>
        cases h
        exact ⟨layout, code, hPlace, hCode, rfl⟩

/-- What a program assembles to consists of its statements. -/
theorem consistsOf_of_result {lines : Nat} {located : List Located} {o : Object}
    (h : (assembleStatements lines located).result = .ok o) :
    o.ConsistsOf (located.map Located.statement) := by
  obtain ⟨layout, code, hPlace, hCode, rfl⟩ := exists_passes h
  have hPlaced := Layout.placed_placeAll Layout.placed_empty hPlace
  have hFilled := Layout.filled_placeAll Layout.filled_empty hPlace
  rw [List.nil_append] at hPlaced hFilled
  exact Object.consistsOf_of_passes hPlaced hFilled hCode lines

/-- What a source text assembles to consists of the statements of the text. -/
theorem exists_consistsOf {source : String} {verbose : Bool} {o : Object}
    (h : (assemble source verbose).result = .ok o) :
    ∃ located, readSource source.toList = .ok located ∧
      o.ConsistsOf (located.map Located.statement) := by
  obtain ⟨located, hRead, hResult⟩ := result_assemble_eq_ok_iff.mp h
  exact ⟨located, hRead, consistsOf_of_result hResult⟩

/-- Only the two instructions that are called so give jumps. -/
theorem Statement.jump_of_records {mnemonic : String} {operand : Option Operand} {j : Nat}
    {r : Opcode × Option Argument} (h : (instruction mnemonic operand).records[j]? = some r)
    (hJump : r.1 = .jump ∨ r.1 = .jz) :
    (mnemonic = "jmp" ∨ mnemonic = "jmz") ∧ j = 0 ∧ r.2 = operand.map Operand.meaning := by
  by_cases hInput : mnemonic = "inp"
  · subst hInput
    have hMem : r ∈ [(Opcode.push, some (Argument.word 0)), (.load, none)] :=
      List.mem_of_getElem? h
    simp only [List.mem_cons, List.not_mem_nil, or_false] at hMem
    rcases hMem with rfl | rfl <;> simp at hJump
  · by_cases hOutput : mnemonic = "out"
    · subst hOutput
      have hMem : r ∈ [(Opcode.push2, some (Argument.word 1)), (.pop, none)] :=
        List.mem_of_getElem? h
      simp only [List.mem_cons, List.not_mem_nil, or_false] at hMem
      rcases hMem with rfl | rfl <;> simp at hJump
    · -- no shorthand, and so one record with the opcode of the mnemonic
      rw [records, if_neg hInput, if_neg hOutput] at h
      split at h
      · rename_i opcode hOpcode
        have hMnemonic := Opcode.mnemonic_of_ofMnemonic? hOpcode
        rw [List.getElem?_singleton] at h
        split at h
        · rename_i hFirst
          cases h
          refine ⟨?_, hFirst, rfl⟩
          rcases hJump with rfl | rfl
          · exact Or.inl hMnemonic.symm
          · exact Or.inr hMnemonic.symm
        · cases h
      · cases h

theorem Symbols.lookup_of_resolve {symbols : Symbols} {name : String} {a : Word}
    (h : symbols.resolve name = some a) :
    symbols.variableTable.lookup name = some a ∨ symbols.labelTable.lookup name = some a := by
  unfold resolve at h
  cases hVariable : symbols.variableTable.lookup name with
  | none =>
    rw [hVariable] at h
    exact Or.inr h
  | some b =>
    rw [hVariable] at h
    exact Or.inl h

namespace Object

variable {o : Object} {ss : List Statement}

theorem ConsistsOf.length_code (h : o.ConsistsOf ss) : o.image.code.length = recordCount ss := by
  rw [h.code, length_numbered, recordCount]

/-- A record comes from one instruction, and stands behind the records of what is before. -/
theorem ConsistsOf.exists_instruction (h : o.ConsistsOf ss) {i : Nat} {inst : Instruction}
    (hInst : o.image.code[i]? = some inst) :
    ∃ before mnemonic operand after j r, ss = before ++ .instruction mnemonic operand :: after ∧
      i = recordCount before + j ∧
      (Statement.instruction mnemonic operand).records[j]? = some r ∧
      inst = ⟨i, r.1, r.2.bind (Argument.value o.symbols)⟩ := by
  rw [h.code, getElem?_numbered] at hInst
  obtain ⟨r, hRecord, hEq⟩ := Option.map_eq_some_iff.mp hInst
  obtain ⟨before, s, after, j, hSplit, hPlace, hHere⟩ := exists_split_of_getElem?_flatMap hRecord
  cases s with
  | instruction mnemonic operand =>
    refine ⟨before, mnemonic, operand, after, j, r, hSplit, hPlace, hHere, ?_⟩
    rw [← hEq, Nat.zero_add]
  | _ => cases hHere

theorem ConsistsOf.getElem?_code (h : o.ConsistsOf ss) {before after : List Statement}
    {s : Statement} (hSplit : ss = before ++ s :: after) {j : Nat}
    {r : Opcode × Option Argument} (hRecord : s.records[j]? = some r) :
    o.image.code[recordCount before + j]? =
      some ⟨recordCount before + j, r.1, r.2.bind (Argument.value o.symbols)⟩ := by
  have hLess : j < s.records.length := (List.getElem?_eq_some_iff.mp hRecord).1
  rw [h.code, getElem?_numbered, hSplit, recordCount,
    getElem?_flatMap_of_split before s after hLess, hRecord, Nat.zero_add]
  rfl

/-- A jump in the code comes from a jump in the program. -/
theorem ConsistsOf.exists_jump (h : o.ConsistsOf ss) {i : Nat} {inst : Instruction}
    (hInst : o.image.code[i]? = some inst) (hJump : inst.opcode = .jump ∨ inst.opcode = .jz) :
    ∃ before mnemonic operand after, ss = before ++ .instruction mnemonic operand :: after ∧
      (mnemonic = "jmp" ∨ mnemonic = "jmz") ∧ i = recordCount before ∧
      inst.arg = (operand.map Operand.meaning).bind (Argument.value o.symbols) := by
  obtain ⟨before, mnemonic, operand, after, j, r, hSplit, hPlace, hRecord, rfl⟩ :=
    h.exists_instruction hInst
  obtain ⟨hMnemonic, rfl, hOperand⟩ := Statement.jump_of_records hRecord hJump
  exact ⟨before, mnemonic, operand, after, hSplit, hMnemonic, hPlace, by rw [hOperand]⟩

theorem ConsistsOf.resolve_nonneg (h : o.ConsistsOf ss) {name : String} {a : Word}
    (hResolve : o.symbols.resolve name = some a) : 0 ≤ a.toInt := by
  rcases Symbols.lookup_of_resolve hResolve with hVariable | hLabel
  · obtain ⟨n, _, hAddress⟩ := h.variableTable.exists_of_lookup hVariable
    omega
  · obtain ⟨n, _, hAddress⟩ := h.labelTable.exists_of_lookup hLabel
    omega

end Object

end StackProcessor.Assembly
