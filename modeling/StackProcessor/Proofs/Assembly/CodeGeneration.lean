import StackProcessor.Assembly.Object
import StackProcessor.Proofs.Assembly.Placement

/-!
# StackProcessor — generated code

`Generates ss o` states what the code and the symbols of an object must be for the statements `ss`:
the records of the statements behind one another (`Statement.records`), numbered from zero, every
operand with its word (`Argument.value`), and every label with the number of the records before it
(`recordCount`). A name is looked up among the variables first, and no label leads between the two
records of `inp` and `out` (`label_outside`).

The second pass, `resolveAll`, numbers the records that the first pass has placed and replaces every
name by its address. The address depends on the finished tables only, and so not on the order of
definition and use; if the pass stops nowhere, its records are `numbered`.

## Results
- `resolveAll_eq` : the second pass numbers the records and resolves their operands.
- `assemble_generates` : the code and the symbols of a program that assembles.
-/

namespace StackProcessor.Assembly

-- ---------------------------------------------------------------------------
-- The second pass
-- ---------------------------------------------------------------------------

/-- The word of an argument. -/
def Argument.value (symbols : Symbols) : Argument → Option Word
  | word w => some w
  | symbol name => symbols.resolve name

/-- Records with their operands, numbered from `start`. -/
def numbered (symbols : Symbols) (start : Nat) (records : List (Opcode × Option Argument)) :
    List Instruction :=
  (records.zipIdx start).map fun r => ⟨r.2, r.1.1, r.1.2.bind (Argument.value symbols)⟩

theorem Placeholder.resolve_eq {symbols : Symbols} {p : Placeholder} {arg : Option Word}
    (h : p.resolve symbols = .ok arg) :
    arg = p.argument.bind (Argument.value symbols) ∧
      ∀ name, p.argument = some (.symbol name) → (symbols.resolve name).isSome = true := by
  unfold resolve at h
  split at h
  · rename_i hArgument
    cases h
    rw [hArgument]
    exact ⟨rfl, nofun⟩
  · rename_i w hArgument
    cases h
    rw [hArgument]
    exact ⟨rfl, nofun⟩
  · rename_i name hArgument
    split at h
    · rename_i w hResolve
      cases h
      rw [hArgument]
      refine ⟨hResolve.symm, ?_⟩
      rintro _ ⟨rfl⟩
      rw [hResolve]
      rfl
    · cases h

/-- The second pass numbers the records and gives all of them their operands. -/
theorem resolveAll_eq {symbols : Symbols} {start : Nat} {ps : List Placeholder}
    {code : List Instruction} (h : resolveAll symbols start ps = (code, none)) :
    code = numbered symbols start (ps.map fun p => (p.opcode, p.argument)) ∧
      ∀ name, some (.symbol name) ∈ ps.map Placeholder.argument →
        (symbols.resolve name).isSome = true := by
  induction ps generalizing start code with
  | nil =>
    cases h
    exact ⟨rfl, fun _ hMem => absurd hMem List.not_mem_nil⟩
  | cons p rest ih =>
    rw [resolveAll] at h
    split at h
    · cases h
    · rename_i arg hArg
      obtain ⟨hCode, hError⟩ := Prod.mk.inj h
      have hPair : resolveAll symbols (start + 1) rest =
          ((resolveAll symbols (start + 1) rest).1, none) := Prod.ext rfl hError
      obtain ⟨hRest, hResolved⟩ := ih hPair
      obtain ⟨hValue, hName⟩ := Placeholder.resolve_eq hArg
      refine ⟨?_, ?_⟩
      · rw [← hCode, hRest, hValue]
        simp [numbered]
      · intro name hMem
        rcases List.mem_cons.mp hMem with hHere | hLater
        · exact hName name hHere.symm
        · exact hResolved name hLater

theorem getElem?_numbered (symbols : Symbols) (start : Nat)
    (records : List (Opcode × Option Argument)) (i : Nat) :
    (numbered symbols start records)[i]? =
      records[i]?.map fun r => ⟨start + i, r.1, r.2.bind (Argument.value symbols)⟩ := by
  simp [numbered, List.getElem?_zipIdx, Function.comp_def]

-- ---------------------------------------------------------------------------
-- Both passes
-- ---------------------------------------------------------------------------

/-- The number of records that statements stand for. -/
def recordCount (ss : List Statement) : Nat := (ss.flatMap Statement.records).length

theorem recordCount_append (before after : List Statement) :
    recordCount (before ++ after) = recordCount before + recordCount after := by
  simp [recordCount]

theorem sum_length_records (ss : List Statement) :
    (ss.map fun s => s.records.length).sum = recordCount ss := by
  simp [recordCount, List.length_flatMap]

theorem recordCount_singleton (s : Statement) : recordCount [s] = s.records.length := by
  simp [recordCount]

/-- The code and the symbols are those that the statements ask for. -/
structure Generates (ss : List Statement) (o : Object) : Prop where
  /-- The code is the expansion of one instruction after the other, with words for operands. -/
  code : o.image.code.map (fun inst => (inst.opcode, inst.arg)) =
    (ss.flatMap Statement.records).map fun r => (r.1, r.2.bind (Argument.value o.symbols))
  index : ∀ i (inst : Instruction), o.image.code[i]? = some inst → inst.index = i
  /-- An instruction that is no shorthand stands for one record. -/
  single : ∀ mnemonic operand, .instruction mnemonic operand ∈ ss →
    mnemonic ≠ "inp" → mnemonic ≠ "out" →
    ∃ opcode, Opcode.ofMnemonic? mnemonic = some opcode ∧
      (Statement.instruction mnemonic operand).records =
        [(opcode, operand.map Operand.meaning)]
  literal : ∀ mnemonic n, .instruction mnemonic (some (.integer n)) ∈ ss →
    (Word.wrap n.value).toInt = n.value
  labelNames : o.symbols.labelTable.names = ss.filterMap Statement.labelName?
  labelNames_nodup : o.symbols.labelTable.names.Nodup
  label_address : ∀ before name after, ss = before ++ .label name :: after →
    ∃ a, o.symbols.labelTable.lookup name = some a ∧ a.toInt = recordCount before
  label_le : ∀ name a, o.symbols.labelTable.lookup name = some a →
    0 ≤ a.toInt ∧ a.toInt ≤ o.image.code.length
  /-- No label leads between the two records of a shorthand. -/
  label_outside : ∀ before mnemonic operand after,
    ss = before ++ .instruction mnemonic operand :: after → mnemonic = "inp" ∨ mnemonic = "out" →
    ∀ name a, o.symbols.labelTable.lookup name = some a → a.toInt ≠ recordCount before + 1
  variableNames : o.symbols.variableTable.names = ss.filterMap Statement.variableName?
  variableNames_nodup : o.symbols.variableTable.names.Nodup
  variable_address : ∀ before kind name value after,
    ss = before ++ .declaration kind name value :: after →
    ∃ a, o.symbols.variableTable.lookup name = some a ∧
      a.toInt = Word.portCells + (before.flatMap Statement.cells).length
  /-- A name stands for the variable of that name, and for the label if there is no variable. -/
  operand : ∀ name, some (.symbol name) ∈ (ss.flatMap Statement.records).map Prod.snd →
    ∃ a, o.symbols.resolve name = some a ∧
      if name ∈ ss.filterMap Statement.variableName? then
        o.symbols.variableTable.lookup name = some a
      else o.symbols.labelTable.lookup name = some a

/-- A label of the program is found, with the number of the records before it. -/
theorem exists_lookup_label {ss : List Statement} {t : SymbolTable} (h : t.Lists (labelSites ss))
    {before after : List Statement} {s : Statement} {name : String}
    (hSplit : ss = before ++ s :: after) (hName : s.labelName? = some name) :
    ∃ a, t.lookup name = some a ∧ a.toInt = recordCount before := by
  have hSite : (name, recordCount before) ∈ labelSites ss := by
    refine (mem_sites_iff Statement.labelName? _ 0 ss name _).mpr
      ⟨before, s, after, hSplit, hName, ?_⟩
    rw [sum_length_records, Nat.zero_add]
  exact h.lookup hSite

/-- A variable of the program is found, with the number of the cells before it. -/
theorem exists_lookup_variable {ss : List Statement} {t : SymbolTable}
    (h : t.Lists (variableSites ss)) {before after : List Statement} {s : Statement} {name : String}
    (hSplit : ss = before ++ s :: after) (hName : s.variableName? = some name) :
    ∃ a, t.lookup name = some a ∧
      a.toInt = Word.portCells + (before.flatMap Statement.cells).length := by
  have hSite : (name, Word.portCells + (before.flatMap Statement.cells).length) ∈
      variableSites ss := by
    refine (mem_sites_iff Statement.variableName? _ Word.portCells ss name _).mpr
      ⟨before, s, after, hSplit, hName, ?_⟩
    rw [List.length_flatMap]
  obtain ⟨a, hLookup, hAddress⟩ := h.lookup hSite
  exact ⟨a, hLookup, hAddress.trans (Int.natCast_add _ _)⟩

/-- A label is found, and its number is that of its site. -/
theorem exists_site_of_lookup {ss : List Statement} {t : SymbolTable} (h : t.Lists (labelSites ss))
    {name : String} {a : Word} (hLookup : t.lookup name = some a) :
    ∃ before after, ss = before ++ .label name :: after ∧ a.toInt = recordCount before := by
  obtain ⟨n, hMem, hAddress⟩ := h.exists_of_lookup hLookup
  obtain ⟨before, s, after, hSplit, hLabel, hNumber⟩ :=
    (mem_sites_iff Statement.labelName? _ 0 ss name n).mp hMem
  rw [sum_length_records] at hNumber
  cases s with
  | label other =>
    cases hLabel
    refine ⟨before, after, hSplit, ?_⟩
    rw [hAddress, hNumber]
    omega
  | _ => cases hLabel

/-- Where a label and a shorthand stand in one program, the label leads to the front of the
shorthand, to what is before or to what is behind it. -/
theorem recordCount_ne_of_split {before after before' after' : List Statement} {name : String}
    {s : Statement} (hSplit : before ++ .label name :: after = before' ++ s :: after')
    (hLong : s.records.length = 2) : recordCount before ≠ recordCount before' + 1 := by
  rcases List.append_eq_append_iff.mp hSplit with ⟨c, hBefore', _⟩ | ⟨c, hBefore, hRest⟩
  · -- the label stands first
    rw [hBefore', recordCount_append]
    omega
  · cases c with
    | nil =>
      rw [List.nil_append] at hRest
      cases hRest
      cases hLong
    | cons x c =>
      -- all records of the shorthand come before the label
      have hHere : s = x := (List.cons.inj hRest).1
      have hCons : recordCount (x :: c) = s.records.length + recordCount c := by
        rw [hHere, ← recordCount_singleton, ← recordCount_append]
        rfl
      rw [hBefore, recordCount_append, hCons]
      omega

theorem length_records_shorthand {mnemonic : String} (h : mnemonic = "inp" ∨ mnemonic = "out")
    (operand : Option Operand) : (Statement.instruction mnemonic operand).records.length = 2 := by
  rcases h with rfl | rfl <;> rfl

theorem length_numbered (symbols : Symbols) (start : Nat)
    (records : List (Opcode × Option Argument)) :
    (numbered symbols start records).length = records.length := by
  simp [numbered]

/-- A name that resolves stands for the variable of that name, or else for the label. -/
theorem Symbols.resolve_eq {symbols : Symbols} {name : String}
    (h : (symbols.resolve name).isSome = true) :
    ∃ a, symbols.resolve name = some a ∧
      if name ∈ symbols.variableTable.names then symbols.variableTable.lookup name = some a
      else symbols.labelTable.lookup name = some a := by
  obtain ⟨a, hResolve⟩ := Option.isSome_iff_exists.mp h
  refine ⟨a, hResolve, ?_⟩
  by_cases hVariable : name ∈ symbols.variableTable.names
  · rw [if_pos hVariable]
    have hDefines := (SymbolTable.defines_iff_mem_names symbols.variableTable name).mpr hVariable
    obtain ⟨b, hLookup⟩ := Option.isSome_iff_exists.mp hDefines
    rw [resolve, hLookup] at hResolve
    rw [hLookup]
    exact hResolve
  · rw [if_neg hVariable]
    have hLookup := SymbolTable.lookup_eq_none hVariable
    rw [resolve, hLookup] at hResolve
    exact hResolve

/-- The two passes together. -/
theorem generates_of_passes {ss : List Statement} {l : Layout} (h : Layout.Placed ss l)
    {code : List Instruction} (hCode : resolveAll l.symbols 0 l.code.toList = (code, none))
    (lines : Nat) : Generates ss ⟨⟨l.data.toList, code⟩, l.symbols, lines⟩ := by
  obtain ⟨hNumbered, hResolved⟩ := resolveAll_eq hCode
  have hContents : l.code.toList.map (fun p => (p.opcode, p.argument)) =
      ss.flatMap Statement.records := h.code
  have hArguments : l.code.toList.map Placeholder.argument =
      (ss.flatMap Statement.records).map Prod.snd := by
    rw [← hContents, List.map_map]
    rfl
  rw [hContents] at hNumbered
  have hLength : code.length = recordCount ss := by rw [hNumbered, length_numbered, recordCount]
  have hVariables : l.symbols.variableTable.names = ss.filterMap Statement.variableName? := by
    rw [h.variableTable.names, variableSites, names_sites]
  refine
    { code := ?_
      index := ?_
      single := ?_
      literal := ?_
      labelNames := ?_
      labelNames_nodup := h.labelTable.nodup
      label_address := ?_
      label_le := ?_
      label_outside := ?_
      variableNames := hVariables
      variableNames_nodup := h.variableTable.nodup
      variable_address := ?_
      operand := ?_ }
  · -- the records, one by one
    show code.map _ = _
    apply List.ext_getElem?
    intro i
    rw [hNumbered, List.getElem?_map, getElem?_numbered, List.getElem?_map]
    cases (ss.flatMap Statement.records)[i]? <;> rfl
  · intro i inst hInst
    have hInst' : code[i]? = some inst := hInst
    rw [hNumbered, getElem?_numbered] at hInst'
    obtain ⟨r, _, rfl⟩ := Option.map_eq_some_iff.mp hInst'
    exact Nat.zero_add i
  · -- an instruction that was placed has an expansion
    intro mnemonic operand hMem hInput hOutput
    obtain ⟨records, hExpansion⟩ := h.expandable mnemonic operand hMem
    rw [← expansion_eq_records hExpansion]
    exact records_of_expansion hExpansion hInput hOutput
  · intro mnemonic n hMem
    obtain ⟨records, hExpansion⟩ := h.expandable mnemonic _ hMem
    exact toInt_wrap_of_expansion hExpansion
  · show l.symbols.labelTable.names = _
    rw [h.labelTable.names, labelSites, names_sites]
  · exact fun before name after hSplit => exists_lookup_label h.labelTable hSplit rfl
  · -- the records before a label are no more than all records
    intro name a hLookup
    obtain ⟨before, after, hSplit, hAddress⟩ := exists_site_of_lookup h.labelTable hLookup
    have hSum : recordCount ss = recordCount before + recordCount (.label name :: after) := by
      rw [hSplit, recordCount_append]
    show 0 ≤ a.toInt ∧ a.toInt ≤ code.length
    omega
  · intro before' mnemonic operand after' hSplit' hShorthand name a hLookup
    obtain ⟨before, after, hSplit, hAddress⟩ := exists_site_of_lookup h.labelTable hLookup
    have hNe := recordCount_ne_of_split (hSplit.symm.trans hSplit')
      (length_records_shorthand hShorthand operand)
    omega
  · exact fun before kind name value after hSplit =>
      exists_lookup_variable h.variableTable hSplit rfl
  · -- every name that an operand has was resolved
    intro name hMem
    rw [← hArguments] at hMem
    have hResolve := Symbols.resolve_eq (hResolved name hMem)
    rwa [hVariables] at hResolve

/-- **Code generation**: the object that a source text assembles to has the code and the symbols
that the statements of the text ask for. -/
theorem assemble_generates {source : String} {verbose : Bool} {o : Object}
    (h : (assemble source verbose).result = .ok o) :
    ∃ located, readSource source.toList = .ok located ∧
      Generates (located.map Located.statement) o := by
  unfold assemble at h
  simp only at h
  split at h
  · cases h
  · rename_i located hRead
    refine ⟨located, hRead, ?_⟩
    have hResult : (assembleStatements (countLines source.toList) located).result = .ok o := by
      cases verbose <;> exact h
    unfold assembleStatements at hResult
    split at hResult
    · cases hResult
    · rename_i layout hPlace
      have hPlaced := Layout.placed_placeAll Layout.placed_empty hPlace
      rw [List.nil_append] at hPlaced
      cases hCode : resolveAll layout.symbols 0 layout.code.toList with
      | mk code error? =>
        rw [hCode] at hResult
        cases error? with
        | some e => cases hResult
        | none =>
          cases hResult
          exact generates_of_passes hPlaced hCode _

/-- The jump goes forward over a shorthand, and `x` names a variable as well as a label. -/
theorem assemble_generates_shadowed :
    let source := "section .data:\nnum x 5\nsection .code:\njmp end\nx:\ninp\npsh x\nend:\nhlt"
    let code : List Instruction := [⟨0, .jump, some 4⟩, ⟨1, .push, some 0⟩, ⟨2, .load, none⟩,
      ⟨3, .push, some 2⟩, ⟨4, .halt, none⟩]
    let o : Object := ⟨⟨[0, 0, 5], code⟩, ⟨[("x", 2)], [("x", 1), ("end", 4)]⟩, 9⟩
    (assemble source false).result = .ok o ∧
      ∃ located, readSource source.toList = .ok located ∧
        Generates (located.map Located.statement) o := by
  refine ⟨?_, @assemble_generates _ false _ ?_⟩
  · rfl
  · rfl

end StackProcessor.Assembly
