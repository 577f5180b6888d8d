import StackProcessor.Proofs.Assembly.FirstError
import StackProcessor.Proofs.Assembly.Grammar

/-!
# StackProcessor — programs

The program of a text is the row of statements on its lines: `Holds lines program`, by `Reads` line
by line. It decides what the text assembles to: where a statement stands, and how its line is
written, matters for messages only. So two texts with the same program both assemble or both do not,
and to the same image with the same names, since statements leave no choice of these
(`Object.ConsistsOf.unique`).

## Results
- `readSource_iff_holds` : a text is read as the program that its lines hold.
- `Object.ConsistsOf.unique` : statements leave no choice of the image or of the names.
- `exists_result_of_same_statements` : a program that assembles does so wherever it stands.
- `exists_object_of_holds` : a text that holds a program without an error assembles.
- `exists_assemble_of_holds` : and so does one that holds a program that assembles.
-/

namespace StackProcessor.Assembly

-- ---------------------------------------------------------------------------
-- The program of a text
-- ---------------------------------------------------------------------------

/-- The lines hold the statements of this program, in order. -/
def Holds (lines : List (List Char)) (program : List Statement) : Prop :=
  ∃ readings, List.Forall₂ Reads lines readings ∧ readings.filterMap id = program

theorem holds_cons_iff {line : List Char} {lines : List (List Char)} {program : List Statement} :
    Holds (line :: lines) program ↔
      ∃ reading others, Reads line reading ∧ Holds lines others ∧
        program = reading.toList ++ others := by
  constructor
  · rintro ⟨_, hReadings, rfl⟩
    obtain ⟨reading, readings, hReads, hOthers, rfl⟩ := List.forall₂_cons_left_iff.mp hReadings
    exact ⟨reading, _, hReads, ⟨readings, hOthers, rfl⟩, filterMap_cons_eq id _ _⟩
  · rintro ⟨reading, _, hReads, ⟨readings, hOthers, rfl⟩, rfl⟩
    exact ⟨reading :: readings, .cons hReads hOthers, filterMap_cons_eq id _ _⟩

theorem holds_nil : Holds [] [] := ⟨[], .nil, rfl⟩

theorem Holds.cons {line : List Char} {lines : List (List Char)} {s : Statement}
    {program : List Statement} (hReads : Reads line (some s)) (h : Holds lines program) :
    Holds (line :: lines) (s :: program) :=
  holds_cons_iff.mpr ⟨_, program, hReads, h, rfl⟩

/-- Lines go on holding what they hold if each of them does. -/
theorem Holds.cons_imp {line line' : List Char} {lines lines' : List (List Char)}
    {program : List Statement} (h : Holds (line :: lines) program)
    (hLine : ∀ {reading}, Reads line reading → Reads line' reading)
    (hLines : ∀ {others}, Holds lines others → Holds lines' others) :
    Holds (line' :: lines') program := by
  obtain ⟨reading, others, hReads, hOthers, hProgram⟩ := holds_cons_iff.mp h
  exact holds_cons_iff.mpr ⟨reading, others, hLine hReads, hLines hOthers, hProgram⟩

/-- A text is read as the program that its lines hold. -/
theorem readSource_iff_holds {source : List Char} {program : List Statement} :
    (∃ located, readSource source = .ok located ∧ located.map Located.statement = program) ↔
      Holds ((LineEnd.cut source).map Prod.fst) program := by
  have hChars : (Line.ofSource source).map Line.chars = (LineEnd.cut source).map Prod.fst :=
    map_chars_arrange _ _
  have hLines : ∀ l ∈ Line.ofSource source, OnOneLine l.chars := fun l hMem =>
    onOneLine_of_cuts (map_chars_ofSource source) l.chars (List.mem_map_of_mem hMem)
  rw [← hChars]
  constructor
  · rintro ⟨located, hRead, rfl⟩
    obtain ⟨found, hFound, hLocated⟩ := exists_of_bind_eq_ok hRead
    cases hLocated
    exact ⟨_, (mapM_read_iff hLines).mp ⟨found, hFound, rfl⟩, (map_statement_filterMap found).symm⟩
  · rintro ⟨readings, hReadings, rfl⟩
    obtain ⟨found, hFound, rfl⟩ := (mapM_read_iff hLines).mpr hReadings
    refine ⟨found.filterMap id, ?_, map_statement_filterMap found⟩
    rw [readSource, hFound]
    rfl

-- ---------------------------------------------------------------------------
-- The object of a program
-- ---------------------------------------------------------------------------

/-- Sites leave no choice of the table. -/
theorem SymbolTable.Lists.unique {t t' : SymbolTable} {expected : List (String × Nat)}
    (h : t.Lists expected) (h' : t'.Lists expected) : t' = t := by
  have hInjective : Function.Injective fun p : String × Word => (p.1, p.2.toInt) := by
    rintro ⟨name, address⟩ ⟨name', address'⟩ hSame
    obtain ⟨hName, hAddress⟩ := Prod.mk.inj hSame
    exact Prod.ext hName (Int32.toInt_inj.mp hAddress)
  exact List.map_injective_iff.mpr hInjective (h'.entries.trans h.entries.symm)

/-- Statements leave no choice of the image or of the names. -/
theorem Object.ConsistsOf.unique {o o' : Object} {ss : List Statement} (h : o.ConsistsOf ss)
    (h' : o'.ConsistsOf ss) : o'.image = o.image ∧ o'.symbols = o.symbols := by
  obtain ⟨⟨data, code⟩, ⟨variableTable, labelTable⟩, lines⟩ := o
  obtain ⟨⟨data', code'⟩, ⟨variableTable', labelTable'⟩, lines'⟩ := o'
  obtain rfl : variableTable' = variableTable := h.variableTable.unique h'.variableTable
  obtain rfl : labelTable' = labelTable := h.labelTable.unique h'.labelTable
  obtain rfl : data' = data := h'.data.trans h.data.symm
  obtain rfl : code' = code := h'.code.trans h.code.symm
  exact ⟨rfl, rfl⟩

/-- A program that assembles has no error. -/
theorem allAdmissible_and_closedIn {located : List Located} {lines : Nat} {o : Object}
    (h : (assembleStatements lines located).result = .ok o) :
    AllAdmissible (located.map Located.statement) ∧
      ClosedIn (located.map Located.statement) located := by
  refine (firstError_or_closed located).resolve_left ?_
  rintro ⟨e, hFirst⟩
  rw [result_of_firstError lines hFirst] at h
  cases h

/-- Whether all references are to names does not depend on where the statements stand. -/
theorem closedIn_iff {program : List Statement} {located : List Located} :
    ClosedIn program located ↔ ∀ s ∈ located.map Located.statement, ∀ name,
      s.reference? = some name → Names program name := by
  rw [List.forall_mem_map]
  rfl

/-- A program that assembles does so wherever its statements stand, and to the same image. -/
theorem exists_result_of_same_statements {located located' : List Located}
    (hSame : located'.map Located.statement = located.map Located.statement) {lines : Nat}
    {o : Object} (h : (assembleStatements lines located).result = .ok o) (lines' : Nat) :
    ∃ o', (assembleStatements lines' located').result = .ok o' ∧ o'.image = o.image ∧
      o'.symbols = o.symbols := by
  obtain ⟨hAll, hClosed⟩ := allAdmissible_and_closedIn h
  rw [closedIn_iff] at hClosed
  obtain ⟨o', h'⟩ := exists_result_of_closed lines' (hSame ▸ hAll)
    (closedIn_iff.mpr (hSame ▸ hClosed))
  exact ⟨o', h', (consistsOf_of_result h).unique (hSame ▸ consistsOf_of_result h')⟩

/-- A text assembles if it holds a program without an error. -/
theorem exists_object_of_holds {source : String} {program : List Statement}
    (hHolds : Holds ((LineEnd.cut source.toList).map Prod.fst) program)
    (hAll : AllAdmissible program)
    (hClosed : ∀ s ∈ program, ∀ name, s.reference? = some name → Names program name)
    (verbose : Bool) : ∃ o, (assemble source verbose).result = .ok o ∧ o.ConsistsOf program := by
  obtain ⟨located, hRead, rfl⟩ := readSource_iff_holds.mpr hHolds
  obtain ⟨o, hResult⟩ :=
    exists_result_of_closed (countLines source.toList) hAll (closedIn_iff.mpr hClosed)
  exact ⟨o, result_assemble_eq_ok_iff.mpr ⟨located, hRead, hResult⟩, consistsOf_of_result hResult⟩

/-- A text assembles if it holds a program that does, and to the same image. -/
theorem exists_assemble_of_holds {source : String} {located : List Located}
    (hHolds : Holds ((LineEnd.cut source.toList).map Prod.fst) (located.map Located.statement))
    {lines : Nat} {o : Object} (h : (assembleStatements lines located).result = .ok o)
    (verbose : Bool) :
    ∃ o', (assemble source verbose).result = .ok o' ∧ o'.image = o.image ∧
      o'.symbols = o.symbols := by
  obtain ⟨located', hRead, hSame⟩ := readSource_iff_holds.mpr hHolds
  obtain ⟨o', h', hObject⟩ :=
    exists_result_of_same_statements hSame h (countLines source.toList)
  exact ⟨o', result_assemble_eq_ok_iff.mpr ⟨located', hRead, h'⟩, hObject⟩

end StackProcessor.Assembly
