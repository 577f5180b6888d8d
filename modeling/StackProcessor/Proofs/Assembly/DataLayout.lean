import StackProcessor.Proofs.Assembly.Object
import StackProcessor.Proofs.Isa.Decoding

/-!
# StackProcessor — the layout of the data

A declaration declares a name and the numbers that its cells hold at the start: `Declared`, which
`Statement.declared?` reads off the statement without the assembler. `Tiles o ds` states that the
memory of the object holds the cells of the declarations `ds` behind one another, in the order in
which they are written. The first starts behind the two cells of the ports and the last ends with
the memory, so that every other cell is in the range of exactly one of them (`Occupies`).

That the ranges are disjoint and cover the memory follows from where they start (`Arranged`): the
address of a variable is the `extent` of what is declared before it.

## Results
- `Declared.end_le_of_splits` : of two declarations, one ends before the other starts.
- `Statement.declared_cases` : the cells of a declaration hold what is declared, if all declarations
  of the program are `Declarable`.
- `Object.Arranged.occupied_iff` : the cells that belong to variables.
- `assemble_tiles` : the memory and the variables of a program that assembles.
-/

namespace StackProcessor.Assembly

-- ---------------------------------------------------------------------------
-- What is declared
-- ---------------------------------------------------------------------------

/-- A name with the numbers that its cells hold at the start. -/
structure Declared where
  name : String
  contents : List Int
  deriving DecidableEq, Repr

/-- What a declaration of one of the three kinds declares: a number, the code points of a text with
a zero behind them, or a row of zeros. -/
def Statement.declared? : Statement → Option Declared
  | declaration "num" name (.integer n) => some ⟨name, [n.value]⟩
  | declaration "str" name (.text chars) =>
    some ⟨name, chars.map (fun c => (c.toNat : Int)) ++ [0]⟩
  | declaration "buf" name (.integer n) =>
    if 0 ≤ n.value then some ⟨name, List.replicate n.value.toNat 0⟩ else none
  | _ => none

namespace Declared

/-- The number of cells that declarations take. -/
def extent (ds : List Declared) : Nat := (ds.flatMap Declared.contents).length

theorem extent_append (before after : List Declared) :
    extent (before ++ after) = extent before + extent after := by
  simp [extent]

theorem extent_cons (d : Declared) (rest : List Declared) :
    extent (d :: rest) = d.contents.length + extent rest := by
  simp [extent]

/-- Of two declarations in a program, one ends before the other starts. -/
theorem end_le_of_splits {before before' after after' : List Declared} {d e : Declared}
    (h : before ++ d :: after = before' ++ e :: after') :
    d = e ∨ extent before + d.contents.length ≤ extent before' ∨
      extent before' + e.contents.length ≤ extent before := by
  rcases List.append_eq_append_iff.mp h with ⟨c, hBefore', hRest⟩ | ⟨c, hBefore, hRest⟩
  · cases c with
    | nil => exact Or.inl (List.cons.inj hRest).1
    | cons x c =>
      refine Or.inr (Or.inl ?_)
      rw [hBefore', extent_append, (List.cons.inj hRest).1, extent_cons]
      omega
  · cases c with
    | nil => exact Or.inl (List.cons.inj hRest).1.symm
    | cons x c =>
      refine Or.inr (Or.inr ?_)
      rw [hBefore, extent_append, (List.cons.inj hRest).1, extent_cons]
      omega

end Declared

-- ---------------------------------------------------------------------------
-- The cells of a declaration
-- ---------------------------------------------------------------------------

theorem cells_of_zeros {length : Word} {cells : List Word} (h : zeros length = .ok cells) :
    0 ≤ length.toInt ∧ cells.map Int32.toInt = List.replicate length.toInt.toNat 0 := by
  unfold zeros at h
  split at h
  · cases h
  · rename_i hNonneg
    cases h
    refine ⟨?_, by simp⟩
    rw [Int32.lt_iff_toInt_lt] at hNonneg
    exact Int.not_lt.mp hNonneg

theorem contents_of_declaredCells {kind : String} {value : Literal} {cells : List Word}
    (h : declaredCells kind value = .ok cells) (name : String) :
    (Statement.declaration kind name value).declared? = some ⟨name, cells.map Int32.toInt⟩ := by
  unfold declaredCells at h
  split at h
  · -- a number
    rename_i n hKind
    obtain rfl : kind = "num" := (Opcode.mnemonic_of_ofMnemonic? hKind).symm
    obtain ⟨w, hWord, rfl⟩ := exists_of_map_eq_ok h
    rw [List.map_singleton, (word_of_literal hWord).2]
    rfl
  · -- a text
    rename_i chars hKind
    obtain rfl : kind = "str" := (Opcode.mnemonic_of_ofMnemonic? hKind).symm
    cases h
    simp [Statement.declared?, Word.toInt_ofChar]
  · -- a row of zeros
    rename_i n hKind
    obtain rfl : kind = "buf" := (Opcode.mnemonic_of_ofMnemonic? hKind).symm
    obtain ⟨w, hWord, hZeros⟩ := exists_of_bind_eq_ok h
    obtain ⟨hNonneg, hCells⟩ := cells_of_zeros hZeros
    rw [(word_of_literal hWord).2] at hNonneg hCells
    rw [hCells]
    exact if_pos hNonneg
  all_goals cases h

namespace Statement

/-- A statement of a program either declares what its cells hold, or has no cells. -/
theorem declared_cases {ss : List Statement} (h : Declarable ss) {s : Statement} (hMem : s ∈ ss) :
    (∃ d, s.declared? = some d ∧ s.variableName? = some d.name ∧
      s.cells.map Int32.toInt = d.contents) ∨
    (s.declared? = none ∧ s.variableName? = none ∧ s.cells = []) := by
  cases s with
  | declaration kind name value =>
    obtain ⟨cells, hCells⟩ := h kind name value hMem
    refine Or.inl ⟨_, contents_of_declaredCells hCells name, rfl, ?_⟩
    rw [Statement.cells, hCells]
  | _ => exact Or.inr ⟨rfl, rfl, rfl⟩

end Statement

theorem Declarable.subset {ss ss' : List Statement} (h : Declarable ss) (hSubset : ss' ⊆ ss) :
    Declarable ss' :=
  fun kind name value hMem => h kind name value (hSubset hMem)

/-- The cells of a program hold what its declarations declare, and these are its variables. -/
theorem contents_of_declarable {ss : List Statement} (h : Declarable ss) :
    (ss.flatMap Statement.cells).map Int32.toInt =
        (ss.filterMap Statement.declared?).flatMap Declared.contents ∧
      ss.filterMap Statement.variableName? =
        (ss.filterMap Statement.declared?).map Declared.name := by
  induction ss with
  | nil => exact ⟨rfl, rfl⟩
  | cons s rest ih =>
    obtain ⟨hContents, hNames⟩ := ih (h.subset (List.subset_cons_self s rest))
    rcases Statement.declared_cases h List.mem_cons_self with
      ⟨d, hDeclared, hName, hCells⟩ | ⟨hDeclared, hName, hCells⟩
    · rw [List.flatMap_cons, List.map_append, hCells, hContents, List.filterMap_cons_some hDeclared,
        List.filterMap_cons_some hName, hNames]
      exact ⟨rfl, rfl⟩
    · rw [List.flatMap_cons, hCells, List.nil_append, hContents,
        List.filterMap_cons_none hDeclared, List.filterMap_cons_none hName, hNames]
      exact ⟨rfl, rfl⟩

theorem length_cells {ss : List Statement} (h : Declarable ss) :
    (ss.flatMap Statement.cells).length = Declared.extent (ss.filterMap Statement.declared?) := by
  rw [Declared.extent, ← (contents_of_declarable h).1, List.length_map]

-- ---------------------------------------------------------------------------
-- Addresses
-- ---------------------------------------------------------------------------

namespace Object

variable {o : Object} {ss : List Statement}

/-- A variable has the address of the first cell behind what is declared before it. -/
theorem ConsistsOf.variable_address (h : o.ConsistsOf ss) {before after : List Declared}
    {d : Declared} (hSplit : ss.filterMap Statement.declared? = before ++ d :: after) :
    ∃ a, o.symbols.variableTable.lookup d.name = some a ∧
      a.toInt = 2 + Declared.extent before := by
  obtain ⟨front, back, rfl, hFront, hBack⟩ := List.filterMap_eq_append_iff.mp hSplit
  obtain ⟨headers, s, rest, rfl, hHeaders, hDeclared, _⟩ := List.filterMap_eq_cons_iff.mp hBack
  have hMem : s ∈ front ++ (headers ++ s :: rest) := by simp
  have hName : s.variableName? = some d.name := by
    rcases Statement.declared_cases h.declarable hMem with ⟨d', hHere, hName, _⟩ | ⟨hNone, _⟩
    · rw [hDeclared] at hHere
      cases hHere
      exact hName
    · rw [hDeclared] at hNone
      cases hNone
  -- the cells before are those of the declarations before
  have hBefore : (front ++ headers).filterMap Statement.declared? = before := by
    rw [List.filterMap_append, hFront, List.filterMap_eq_nil_iff.mpr hHeaders, List.append_nil]
  have hSubset : front ++ headers ⊆ front ++ (headers ++ s :: rest) := by
    rw [← List.append_assoc]
    exact List.subset_append_left _ _
  have hCount := length_cells (h.declarable.subset hSubset)
  rw [hBefore] at hCount
  obtain ⟨a, hLookup, hAddress⟩ :=
    exists_lookup_variable h.variableTable (List.append_assoc _ _ _).symm hName
  rw [hCount] at hAddress
  exact ⟨a, hLookup, hAddress⟩

-- ---------------------------------------------------------------------------
-- The memory, tiled
-- ---------------------------------------------------------------------------

/-- The cell belongs to the variable. -/
def Occupies (o : Object) (d : Declared) (cell : Nat) : Prop :=
  ∃ a, o.symbols.variableTable.lookup d.name = some a ∧
    a.toInt ≤ cell ∧ cell < a.toInt + d.contents.length

/-- The memory and the variables are those of these declarations, without a gap. -/
structure Tiles (o : Object) (ds : List Declared) : Prop where
  /-- Two cells for the ports, and then what is declared. -/
  memory : o.image.data.map Int32.toInt = [0, 0] ++ ds.flatMap Declared.contents
  names : o.symbols.variableTable.names = ds.map Declared.name
  nodup : (ds.map Declared.name).Nodup
  address : ∀ before d after, ds = before ++ d :: after →
    ∃ a, o.symbols.variableTable.lookup d.name = some a ∧
      a.toInt = 2 + (before.flatMap Declared.contents).length
  /-- The cells from the address of a variable on hold what is declared of it. -/
  holds : ∀ d ∈ ds, ∃ a, o.symbols.variableTable.lookup d.name = some a ∧
    2 ≤ a.toInt ∧ a.toInt + d.contents.length ≤ o.image.data.length ∧
    ((o.image.data.map Int32.toInt).drop a.toInt.toNat).take d.contents.length = d.contents
  disjoint : ∀ d ∈ ds, ∀ e ∈ ds, ∀ cell, o.Occupies d cell → o.Occupies e cell → d = e
  covered : ∀ cell : Nat, (∃ d ∈ ds, o.Occupies d cell) ↔ 2 ≤ cell ∧ cell < o.image.data.length

/-- Every variable has the address that the declarations before it leave. -/
def Arranged (o : Object) (ds : List Declared) : Prop :=
  ∀ before d after, ds = before ++ d :: after →
    ∃ a, o.symbols.variableTable.lookup d.name = some a ∧ a.toInt = 2 + Declared.extent before

section

variable {ds : List Declared}

/-- What belongs to a variable lies where its declaration stands. -/
theorem Arranged.exists_split (h : o.Arranged ds) {d : Declared} (hMem : d ∈ ds) {cell : Nat}
    (hOf : o.Occupies d cell) :
    ∃ before after, ds = before ++ d :: after ∧ 2 + Declared.extent before ≤ cell ∧
      cell < 2 + Declared.extent before + d.contents.length := by
  obtain ⟨a, hLookup, hLow, hHigh⟩ := hOf
  obtain ⟨before, after, hSplit⟩ := List.append_of_mem hMem
  obtain ⟨b, hFound, hPlace⟩ := h before d after hSplit
  rw [hLookup] at hFound
  cases hFound
  exact ⟨before, after, hSplit, by omega, by omega⟩

theorem Arranged.eq_of_occupies (h : o.Arranged ds) {d e : Declared} (hD : d ∈ ds) (hE : e ∈ ds)
    {cell : Nat} (hOfD : o.Occupies d cell) (hOfE : o.Occupies e cell) : d = e := by
  obtain ⟨before, after, hSplit, hLow, hHigh⟩ := h.exists_split hD hOfD
  obtain ⟨before', after', hSplit', hLow', hHigh'⟩ := h.exists_split hE hOfE
  rcases Declared.end_le_of_splits (hSplit.symm.trans hSplit') with hSame | hOrder | hOrder
  · exact hSame
  · omega
  · omega

theorem Arranged.occupied_iff (h : o.Arranged ds)
    (hLength : o.image.data.length = 2 + Declared.extent ds) (cell : Nat) :
    (∃ d ∈ ds, o.Occupies d cell) ↔ 2 ≤ cell ∧ cell < o.image.data.length := by
  constructor
  · rintro ⟨d, hMem, hOf⟩
    obtain ⟨before, after, hSplit, hLow, hHigh⟩ := h.exists_split hMem hOf
    rw [hSplit, Declared.extent_append, Declared.extent_cons] at hLength
    omega
  · rintro ⟨hLow, hHigh⟩
    -- the cell is one of those that are declared
    have hLess : cell - 2 < (ds.flatMap Declared.contents).length := by
      show cell - 2 < Declared.extent ds
      omega
    obtain ⟨before, d, after, j, hSplit, hPlace, hHere⟩ :=
      exists_split_of_getElem?_flatMap (List.getElem?_eq_getElem hLess)
    obtain ⟨a, hLookup, hStart⟩ := h before d after hSplit
    have hInside : j < d.contents.length := (List.getElem?_eq_some_iff.mp hHere).1
    rw [← Declared.extent] at hPlace
    have hMem : d ∈ ds := by simp [hSplit]
    exact ⟨d, hMem, a, hLookup, by omega, by omega⟩

theorem Arranged.holds (h : o.Arranged ds)
    (hMemory : o.image.data.map Int32.toInt = [0, 0] ++ ds.flatMap Declared.contents)
    (hLength : o.image.data.length = 2 + Declared.extent ds) {d : Declared} (hMem : d ∈ ds) :
    ∃ a, o.symbols.variableTable.lookup d.name = some a ∧
      2 ≤ a.toInt ∧ a.toInt + d.contents.length ≤ o.image.data.length ∧
      ((o.image.data.map Int32.toInt).drop a.toInt.toNat).take d.contents.length = d.contents := by
  obtain ⟨before, after, hSplit⟩ := List.append_of_mem hMem
  obtain ⟨a, hLookup, hPlace⟩ := h before d after hSplit
  have hTotal : Declared.extent ds =
      Declared.extent before + (d.contents.length + Declared.extent after) := by
    rw [hSplit, Declared.extent_append, Declared.extent_cons]
  have hFront : a.toInt.toNat = ([0, 0] ++ before.flatMap Declared.contents).length := by
    rw [List.length_append]
    show a.toInt.toNat = 2 + Declared.extent before
    omega
  refine ⟨a, hLookup, by omega, by omega, ?_⟩
  rw [hMemory, hSplit, List.flatMap_append, List.flatMap_cons, ← List.append_assoc, hFront,
    List.drop_left, List.take_left]

end

theorem ConsistsOf.tiles (h : o.ConsistsOf ss) :
    o.Tiles (ss.filterMap Statement.declared?) := by
  obtain ⟨hContents, hNames⟩ := contents_of_declarable h.declarable
  have hMemory : o.image.data.map Int32.toInt =
      [0, 0] ++ (ss.filterMap Statement.declared?).flatMap Declared.contents := by
    rw [h.data, List.map_append, hContents]
    rfl
  have hLength : o.image.data.length = 2 + Declared.extent (ss.filterMap Statement.declared?) := by
    rw [← List.length_map Int32.toInt, hMemory, List.length_append]
    rfl
  have hTable : o.symbols.variableTable.names =
      (ss.filterMap Statement.declared?).map Declared.name := by
    rw [h.variableTable.names, variableSites, names_sites, hNames]
  have hArranged : o.Arranged (ss.filterMap Statement.declared?) :=
    fun before d after hSplit => h.variable_address hSplit
  exact
    { memory := hMemory
      names := hTable
      nodup := hTable ▸ h.variableTable.nodup
      address := hArranged
      holds := fun d hMem => hArranged.holds hMemory hLength hMem
      disjoint := fun d hD e hE cell => hArranged.eq_of_occupies hD hE
      covered := hArranged.occupied_iff hLength }

end Object

/-- **Data layout**: every declaration of a program that assembles declares something, and what the
declarations declare lies behind one another in the memory. -/
theorem assemble_tiles {source : String} {verbose : Bool} {o : Object}
    (h : (assemble source verbose).result = .ok o) :
    ∃ located, readSource source.toList = .ok located ∧
      (∀ kind name value, .declaration kind name value ∈ located.map Located.statement →
        ∃ contents,
          (Statement.declaration kind name value).declared? = some ⟨name, contents⟩) ∧
      o.Tiles ((located.map Located.statement).filterMap Statement.declared?) := by
  obtain ⟨located, hRead, hConsists⟩ := exists_consistsOf h
  refine ⟨located, hRead, ?_, hConsists.tiles⟩
  intro kind name value hMem
  obtain ⟨cells, hCells⟩ := hConsists.declarable kind name value hMem
  exact ⟨_, contents_of_declaredCells hCells name⟩

/-- An empty row of zeros, a text with a semicolon, an empty text and a negative number. -/
theorem assemble_tiles_texts :
    let source := "section .data:\nbuf e 0\nstr t \"a;π\"\nstr z \"\"\nbuf b 2\nnum n -5 ; five\n"
    let o : Object :=
      ⟨⟨[0, 0, 97, 59, 960, 0, 0, 0, 0, -5], []⟩,
        ⟨[("e", 2), ("t", 2), ("z", 6), ("b", 7), ("n", 9)], []⟩, 7⟩
    (assemble source false).result = .ok o ∧
      ∃ located, readSource source.toList = .ok located ∧
        (∀ kind name value, .declaration kind name value ∈ located.map Located.statement →
          ∃ contents,
            (Statement.declaration kind name value).declared? = some ⟨name, contents⟩) ∧
        o.Tiles ((located.map Located.statement).filterMap Statement.declared?) := by
  refine ⟨?_, @assemble_tiles _ false _ ?_⟩
  · rfl
  · rfl

end StackProcessor.Assembly
