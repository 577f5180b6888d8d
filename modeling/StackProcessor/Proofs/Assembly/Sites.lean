import StackProcessor.Assembly.Layout
import StackProcessor.Proofs.Basic

/-!
# StackProcessor — places in a program

What the statements of a program contribute, read off the program alone: the records that its
instructions stand for (`Statement.records`), the cells of its declarations (`Statement.cells`), and
the `sites` of its labels and variables. The site of a name is counted by what stands before the
statement that has the name, with a size for each statement: the records for labels, the cells for
variables. A symbol table `Lists` sites if it gives every name the number of its site, in order, and
no name twice.

## Results
- `mem_sites_iff` : a site is counted by the statements before it.
- `SymbolTable.Lists.define` : a new name, at the end. Its address has to be the number of its site,
  which it is as long as that is a word.
- `SymbolTable.Lists.lookup` : a name that is listed is found, with its number.
-/

namespace StackProcessor.Assembly

-- ---------------------------------------------------------------------------
-- What a statement contributes
-- ---------------------------------------------------------------------------

/-- An operand, as it stands in a record: an integer is a word, a name is left to be resolved. -/
def Operand.meaning : Operand → Argument
  | integer n => .word (Word.wrap n.value)
  | symbol name => .symbol name

namespace Statement

/-- The records that a statement stands for: two for an input or output, one for any other
instruction, none otherwise. -/
def records : Statement → List (Opcode × Option Argument)
  | instruction mnemonic operand =>
    if mnemonic = "inp" then [(.push, some (.word 0)), (.load, none)]
    else if mnemonic = "out" then [(.push2, some (.word 1)), (.pop, none)]
    else
      match Opcode.ofMnemonic? mnemonic with
      | some opcode => [(opcode, operand.map Operand.meaning)]
      | none => []
  | _ => []

/-- The memory cells that a statement declares. -/
def cells : Statement → List Word
  | declaration kind _ value =>
    match declaredCells kind value with
    | .ok cells => cells
    | .error _ => []
  | _ => []

/-- The name of a label. -/
def labelName? : Statement → Option String
  | label name => some name
  | _ => none

/-- The name of a variable. -/
def variableName? : Statement → Option String
  | declaration _ name _ => some name
  | _ => none

end Statement

-- ---------------------------------------------------------------------------
-- Sites
-- ---------------------------------------------------------------------------

section

variable (name? : Statement → Option String) (size : Statement → Nat)

/-- The names in a program with the numbers of their sites: what stands before, counted from
`start`. -/
def sites (start : Nat) : List Statement → List (String × Nat)
  | [] => []
  | s :: rest => (name? s).toList.map (·, start) ++ sites (start + size s) rest

theorem sites_append (start : Nat) (before after : List Statement) :
    sites name? size start (before ++ after) =
      sites name? size start before ++
        sites name? size (start + (before.map size).sum) after := by
  induction before generalizing start with
  | nil => simp [sites]
  | cons s rest ih =>
    have hSum : start + size s + (rest.map size).sum = start + ((s :: rest).map size).sum := by
      rw [List.map_cons, List.sum_cons]
      omega
    rw [List.cons_append, sites, ih, hSum, sites, List.append_assoc]

theorem names_sites (start : Nat) (ss : List Statement) :
    (sites name? size start ss).map Prod.fst = ss.filterMap name? := by
  induction ss generalizing start with
  | nil => rfl
  | cons s rest ih =>
    rw [sites, List.map_append, ih]
    cases hName : name? s with
    | none => simp [hName]
    | some name => simp [hName]

/-- A site is counted by the statements before it. -/
theorem mem_sites_iff (start : Nat) (ss : List Statement) (name : String) (n : Nat) :
    (name, n) ∈ sites name? size start ss ↔
      ∃ before s after, ss = before ++ s :: after ∧ name? s = some name ∧
        n = start + (before.map size).sum := by
  constructor
  · intro hMem
    induction ss generalizing start with
    | nil => exact absurd hMem List.not_mem_nil
    | cons s rest ih =>
      rw [sites] at hMem
      rcases List.mem_append.mp hMem with hHere | hLater
      · obtain ⟨other, hOther, hPair⟩ := List.mem_map.mp hHere
        cases hPair
        exact ⟨[], s, rest, rfl, Option.mem_toList.mp hOther, rfl⟩
      · obtain ⟨before, s', after, rfl, hName, hNumber⟩ := ih (start + size s) hLater
        refine ⟨s :: before, s', after, rfl, hName, ?_⟩
        rw [hNumber, List.map_cons, List.sum_cons]
        omega
  · rintro ⟨before, s, after, rfl, hName, rfl⟩
    rw [sites_append, sites, hName]
    exact List.mem_append_right _ (List.mem_append_left _ (List.mem_singleton.mpr rfl))

end

-- ---------------------------------------------------------------------------
-- Tables of sites
-- ---------------------------------------------------------------------------

namespace SymbolTable

/-- The table gives each name the number of its site, in order, and no name occurs twice. -/
structure Lists (t : SymbolTable) (expected : List (String × Nat)) : Prop where
  entries : t.map (fun p => (p.1, p.2.toInt)) = expected.map fun p => (p.1, (p.2 : Int))
  nodup : t.names.Nodup

theorem lists_nil : Lists [] [] := ⟨rfl, List.nodup_nil⟩

theorem Lists.names {t : SymbolTable} {expected : List (String × Nat)} (h : t.Lists expected) :
    t.names = expected.map Prod.fst := by
  have hNames := congrArg (List.map Prod.fst) h.entries
  simpa [SymbolTable.names, Function.comp_def] using hNames

theorem defines_iff_mem_names (t : SymbolTable) (name : String) :
    t.defines name = true ↔ name ∈ t.names := by
  unfold defines SymbolTable.names
  rw [List.lookup_isSome_iff, List.mem_map]
  constructor
  · rintro ⟨p, hMem, hName⟩
    exact ⟨p, hMem, (beq_iff_eq.mp hName).symm⟩
  · rintro ⟨p, hMem, rfl⟩
    exact ⟨p, hMem, beq_self_eq_true p.1⟩

/-- A name that is new is put at the end. -/
theorem Lists.define {t : SymbolTable} {expected : List (String × Nat)} (h : t.Lists expected)
    {name : String} (hNew : ¬ t.defines name = true) {address : Word} {n : Nat}
    (hAddress : address.toInt = n) : (t.define name address).Lists (expected ++ [(name, n)]) where
  entries := by
    rw [SymbolTable.define, List.map_append, List.map_append, h.entries, List.map_singleton,
      List.map_singleton, hAddress]
  nodup := by
    rw [defines_iff_mem_names] at hNew
    have hNames : (t.define name address).names = t.names ++ [name] := by
      simp [SymbolTable.define, SymbolTable.names]
    rw [hNames, List.nodup_append]
    refine ⟨h.nodup, by simp, ?_⟩
    intro a ha b hb hEq
    rw [List.mem_singleton.mp hb] at hEq
    exact hNew (hEq ▸ ha)

theorem lookup_of_mem {t : SymbolTable} (h : t.names.Nodup) {name : String} {address : Word}
    (hMem : (name, address) ∈ t) : t.lookup name = some address := by
  induction t with
  | nil => exact absurd hMem List.not_mem_nil
  | cons p rest ih =>
    have hNodup : p.1 ∉ SymbolTable.names rest ∧ (SymbolTable.names rest).Nodup :=
      List.nodup_cons.mp h
    rcases List.mem_cons.mp hMem with rfl | hLater
    · exact List.lookup_cons_self
    · -- an entry further on has another name than this one
      have hNe : (name == p.1) = false := by
        apply beq_eq_false_iff_ne.mpr
        rintro rfl
        exact hNodup.1 (List.mem_map.mpr ⟨(p.1, address), hLater, rfl⟩)
      rw [List.lookup_cons, hNe]
      exact ih hNodup.2 hLater

/-- A name that is listed is found, with the number of its site. -/
theorem Lists.lookup {t : SymbolTable} {expected : List (String × Nat)} (h : t.Lists expected)
    {name : String} {n : Nat} (hMem : (name, n) ∈ expected) :
    ∃ address, t.lookup name = some address ∧ address.toInt = n := by
  have hEntry : (name, (n : Int)) ∈ t.map fun p => (p.1, p.2.toInt) := by
    rw [h.entries]
    exact List.mem_map.mpr ⟨(name, n), hMem, rfl⟩
  obtain ⟨⟨other, address⟩, hFound, hPair⟩ := List.mem_map.mp hEntry
  obtain ⟨rfl, hAddress⟩ := Prod.mk.inj hPair
  exact ⟨address, lookup_of_mem h.nodup hFound, hAddress⟩

/-- What is found is the number of a site. -/
theorem Lists.exists_of_lookup {t : SymbolTable} {expected : List (String × Nat)}
    (h : t.Lists expected) {name : String} {address : Word}
    (hLookup : t.lookup name = some address) : ∃ n, (name, n) ∈ expected ∧ address.toInt = n := by
  obtain ⟨before, after, hSplit, _⟩ := List.lookup_eq_some_iff.mp hLookup
  have hEntry : (name, address.toInt) ∈ expected.map fun p => (p.1, (p.2 : Int)) := by
    rw [← h.entries, hSplit]
    simp
  obtain ⟨⟨other, n⟩, hFound, hPair⟩ := List.mem_map.mp hEntry
  obtain ⟨rfl, hNumber⟩ := Prod.mk.inj hPair
  exact ⟨n, hFound, hNumber.symm⟩

/-- A name that is not defined is not found. -/
theorem lookup_eq_none {t : SymbolTable} {name : String} (h : name ∉ t.names) :
    t.lookup name = none := by
  rw [← defines_iff_mem_names, defines] at h
  cases hLookup : t.lookup name with
  | none => rfl
  | some address =>
    rw [hLookup] at h
    exact absurd rfl h

end SymbolTable

end StackProcessor.Assembly
