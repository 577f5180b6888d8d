import StackProcessor.Proofs.Assembly.Placement
import StackProcessor.Proofs.Isa.Decoding

/-!
# StackProcessor — declarations and instructions that are possible

`Declares` and `Instructs` say which kinds of declarations have which values, and which mnemonics
stand with an operand (`operandMnemonics`), without (`bareMnemonics`), or for two records
(`shorthands`); every number has to be a word (`IntegerLiteral.InRange`). What is not possible so is
refused for one cause, by `Undeclarable` and `Uninstructable`, which have a constructor for each
`StatementError` that can be told from the statement alone. What is possible has memory cells
(`declaredCells`) or records (`expansion`).

## Results
- `declares_or_undeclarable`, `instructs_or_uninstructable` : what is not possible has a cause.
- `exists_declaredCells`, `declaredCells_of_undeclarable` : the cells of a declaration.
- `exists_expansion`, `expansion_of_uninstructable` : the records of an instruction.
-/

namespace StackProcessor.Assembly

-- ---------------------------------------------------------------------------
-- Declarations and instructions
-- ---------------------------------------------------------------------------

/-- The integer is a word. -/
def IntegerLiteral.InRange (n : IntegerLiteral) : Prop :=
  Word.least ≤ n.value ∧ n.value ≤ Word.greatest

/-- The mnemonics of declarations. -/
def declarationMnemonics : List String := ["num", "str", "buf"]

/-- A declaration of this kind may have this value. -/
inductive Declares : String → Literal → Prop where
  | number {n : IntegerLiteral} : n.InRange → Declares "num" (.integer n)
  | string (chars : List Char) : Declares "str" (.text chars)
  | buffer {n : IntegerLiteral} : n.InRange → 0 ≤ n.value → Declares "buf" (.integer n)

/-- A declaration of this kind cannot have this value. -/
inductive Undeclarable : String → Literal → StatementError → Prop where
  | unknown {kind : String} (value : Literal) : kind ∉ declarationMnemonics →
    Undeclarable kind value (.unknownDeclaration kind)
  | text {kind : String} (chars : List Char) : kind = "num" ∨ kind = "buf" →
    Undeclarable kind (.text chars) (.unsuitableValue kind (.text chars))
  | integer (n : IntegerLiteral) :
    Undeclarable "str" (.integer n) (.unsuitableValue "str" (.integer n))
  | range {kind : String} {n : IntegerLiteral} : kind = "num" ∨ kind = "buf" → ¬n.InRange →
    Undeclarable kind (.integer n) (.outOfRange n)
  | negative {n : IntegerLiteral} : n.InRange → n.value < 0 →
    Undeclarable "buf" (.integer n) .negativeLength

/-- The mnemonics that stand for two instructions. -/
def shorthands : List String := ["inp", "out"]

/-- The mnemonics that need an operand. -/
def operandMnemonics : List String := ["jmp", "jmz", "psh", "psh2"]

/-- The mnemonics that stand alone. -/
def bareMnemonics : List String :=
  ["hlt", "pop", "get", "drp", "dup", "inc", "add", "div", "mod"]

/-- An instruction may be written so. -/
inductive Instructs : String → Option Operand → Prop where
  | bare {mnemonic : String} : mnemonic ∈ shorthands ++ bareMnemonics → Instructs mnemonic none
  | integer {mnemonic : String} {n : IntegerLiteral} : mnemonic ∈ operandMnemonics → n.InRange →
    Instructs mnemonic (some (.integer n))
  | symbol {mnemonic : String} (name : String) : mnemonic ∈ operandMnemonics →
    Instructs mnemonic (some (.symbol name))

/-- An instruction cannot be written so. -/
inductive Uninstructable : String → Option Operand → StatementError → Prop where
  | shorthand {mnemonic : String} (operand : Operand) : mnemonic ∈ shorthands →
    Uninstructable mnemonic (some operand) (.shorthandOperand mnemonic)
  | unknown {mnemonic : String} (operand : Option Operand) :
    mnemonic ∉ shorthands ++ bareMnemonics ++ operandMnemonics ++ declarationMnemonics →
    Uninstructable mnemonic operand (.unknownInstruction mnemonic)
  | declarative {mnemonic : String} (operand : Option Operand) :
    mnemonic ∈ declarationMnemonics →
    Uninstructable mnemonic operand (.declarativeInstruction mnemonic)
  | missing {mnemonic : String} : mnemonic ∈ operandMnemonics →
    Uninstructable mnemonic none (.missingOperand mnemonic)
  | unexpected {mnemonic : String} (operand : Operand) : mnemonic ∈ bareMnemonics →
    Uninstructable mnemonic (some operand) (.unexpectedOperand mnemonic)
  | range {mnemonic : String} {n : IntegerLiteral} : mnemonic ∈ operandMnemonics → ¬n.InRange →
    Uninstructable mnemonic (some (.integer n)) (.outOfRange n)

theorem declares_or_undeclarable (kind : String) (value : Literal) :
    Declares kind value ∨ ∃ cause, Undeclarable kind value cause := by
  by_cases hKind : kind ∈ declarationMnemonics
  · cases value with
    | text chars =>
      simp only [declarationMnemonics, List.mem_cons, List.not_mem_nil, or_false] at hKind
      rcases hKind with rfl | rfl | rfl
      · exact Or.inr ⟨_, .text chars (Or.inl rfl)⟩
      · exact Or.inl (.string chars)
      · exact Or.inr ⟨_, .text chars (Or.inr rfl)⟩
    | integer n =>
      simp only [declarationMnemonics, List.mem_cons, List.not_mem_nil, or_false] at hKind
      by_cases hRange : n.InRange
      · rcases hKind with rfl | rfl | rfl
        · exact Or.inl (.number hRange)
        · exact Or.inr ⟨_, .integer n⟩
        · rcases Int.lt_or_le n.value 0 with hNegative | hLength
          · exact Or.inr ⟨_, .negative hRange hNegative⟩
          · exact Or.inl (.buffer hRange hLength)
      · rcases hKind with rfl | rfl | rfl
        · exact Or.inr ⟨_, .range (Or.inl rfl) hRange⟩
        · exact Or.inr ⟨_, .integer n⟩
        · exact Or.inr ⟨_, .range (Or.inr rfl) hRange⟩
  · exact Or.inr ⟨_, .unknown value hKind⟩

theorem instructs_or_uninstructable (mnemonic : String) (operand : Option Operand) :
    Instructs mnemonic operand ∨ ∃ cause, Uninstructable mnemonic operand cause := by
  by_cases hKnown :
      mnemonic ∈ shorthands ++ bareMnemonics ++ operandMnemonics ++ declarationMnemonics
  · rcases List.mem_append.mp hKnown with hKnown | hDeclares
    · rcases List.mem_append.mp hKnown with hAlone | hOperand
      · cases operand with
        | none => exact Or.inl (.bare hAlone)
        | some operand =>
          rcases List.mem_append.mp hAlone with hShorthand | hBare
          · exact Or.inr ⟨_, .shorthand operand hShorthand⟩
          · exact Or.inr ⟨_, .unexpected operand hBare⟩
      · rcases operand with _ | n | name
        · exact Or.inr ⟨_, .missing hOperand⟩
        · by_cases hRange : n.InRange
          · exact Or.inl (.integer hOperand hRange)
          · exact Or.inr ⟨_, .range hOperand hRange⟩
        · exact Or.inl (.symbol name hOperand)
    · exact Or.inr ⟨_, .declarative operand hDeclares⟩
  · exact Or.inr ⟨_, .unknown operand hKnown⟩

-- ---------------------------------------------------------------------------
-- Mnemonics and opcodes
-- ---------------------------------------------------------------------------

theorem mem_mnemonics_iff (p : Opcode → Bool) {mnemonic : String} :
    mnemonic ∈ (Opcode.all.filter p).map Opcode.mnemonic ↔
      ∃ op : Opcode, p op = true ∧ op.mnemonic = mnemonic := by
  simp [Opcode.mem_all]

theorem mem_declarationMnemonics_iff {mnemonic : String} :
    mnemonic ∈ declarationMnemonics ↔
      ∃ op : Opcode, op.isDeclarative = true ∧ op.mnemonic = mnemonic :=
  mem_mnemonics_iff Opcode.isDeclarative

theorem mem_operandMnemonics_iff {mnemonic : String} :
    mnemonic ∈ operandMnemonics ↔ ∃ op : Opcode,
      op.isDeclarative = false ∧ op.takesOperand = true ∧ op.mnemonic = mnemonic := by
  refine (mem_mnemonics_iff fun op => !op.isDeclarative && op.takesOperand).trans ?_
  simp only [Bool.and_eq_true, Bool.not_eq_true', and_assoc]

theorem mem_bareMnemonics_iff {mnemonic : String} :
    mnemonic ∈ bareMnemonics ↔ ∃ op : Opcode,
      op.isDeclarative = false ∧ op.takesOperand = false ∧ op.mnemonic = mnemonic := by
  refine (mem_mnemonics_iff fun op => !op.isDeclarative && !op.takesOperand).trans ?_
  simp only [Bool.and_eq_true, Bool.not_eq_true', and_assoc]

theorem mnemonic_mem (op : Opcode) :
    op.mnemonic ∈ shorthands ++ bareMnemonics ++ operandMnemonics ++ declarationMnemonics := by
  cases op <;> decide

/-- The mnemonic of an opcode is no shorthand. -/
theorem expansion_mnemonic (op : Opcode) (operand : Option Operand) :
    expansion op.mnemonic operand =
      (plainRecord op.mnemonic operand).map fun record => [record] := by
  cases op <;> rfl

theorem plainRecord_mnemonic {op : Opcode} (h : op.isDeclarative = false)
    (operand : Option Operand) :
    plainRecord op.mnemonic operand =
      match op.takesOperand, operand with
      | true, some operand => operand.argument.map fun a => (op, some a)
      | true, none => .error (.missingOperand op.mnemonic)
      | false, some _ => .error (.unexpectedOperand op.mnemonic)
      | false, none => .ok (op, none) := by
  rw [plainRecord, Opcode.ofMnemonic?_mnemonic]
  simp only [h]
  rfl

-- ---------------------------------------------------------------------------
-- Cells and records
-- ---------------------------------------------------------------------------

theorem IntegerLiteral.word_of_inRange {n : IntegerLiteral} (h : n.InRange) :
    n.word = .ok (Word.wrap n.value) := by
  have hWord : Word.ofInt? n.value = some (Word.wrap n.value) := if_pos h
  rw [word, hWord]

theorem IntegerLiteral.word_of_not_inRange {n : IntegerLiteral} (h : ¬n.InRange) :
    n.word = .error (.outOfRange n) := by
  have hNone : Word.ofInt? n.value = none := if_neg h
  rw [word, hNone]

theorem wrap_neg_iff {n : IntegerLiteral} (h : n.InRange) :
    Word.wrap n.value < 0 ↔ n.value < 0 := by
  rw [Int32.lt_iff_toInt_lt, Word.toInt_wrap h.1 h.2]
  rfl

/-- A declaration that is possible has cells. -/
theorem exists_declaredCells {kind : String} {value : Literal} (h : Declares kind value) :
    ∃ cells, declaredCells kind value = .ok cells := by
  cases h with
  | @number n hRange =>
    refine ⟨[Word.wrap n.value], ?_⟩
    show n.word.map (fun w => [w]) = _
    rw [IntegerLiteral.word_of_inRange hRange]
    rfl
  | string chars => exact ⟨_, rfl⟩
  | @buffer n hRange hLength =>
    have hNonneg : ¬Word.wrap n.value < 0 := fun h =>
      Int.not_lt.mpr hLength ((wrap_neg_iff hRange).mp h)
    refine ⟨List.replicate (Word.wrap n.value).toInt.toNat 0, ?_⟩
    show n.word.bind zeros = _
    rw [IntegerLiteral.word_of_inRange hRange]
    exact if_neg hNonneg

/-- One that is not possible has none. -/
theorem declaredCells_of_undeclarable {kind : String} {value : Literal} {cause : StatementError}
    (h : Undeclarable kind value cause) : declaredCells kind value = .error cause := by
  cases h with
  | unknown value hKind =>
    have hOther : ∀ op : Opcode, op.isDeclarative = true → Opcode.ofMnemonic? kind ≠ some op := by
      rintro op hDeclarative hFound
      obtain rfl := Opcode.mnemonic_of_ofMnemonic? hFound
      exact hKind (mem_declarationMnemonics_iff.mpr ⟨op, hDeclarative, rfl⟩)
    unfold declaredCells
    split
    all_goals first
      | rfl
      | exact absurd ‹_› (hOther _ rfl)
  | text chars hKind => rcases hKind with rfl | rfl <;> rfl
  | integer n => rfl
  | @range _ n hKind hRange =>
    rcases hKind with rfl | rfl
    · show n.word.map (fun w => [w]) = _
      rw [IntegerLiteral.word_of_not_inRange hRange]
      rfl
    · show n.word.bind zeros = _
      rw [IntegerLiteral.word_of_not_inRange hRange]
      rfl
  | @negative n hRange hNegative =>
    show n.word.bind zeros = _
    rw [IntegerLiteral.word_of_inRange hRange]
    exact if_pos ((wrap_neg_iff hRange).mpr hNegative)

/-- An instruction that is possible has records. -/
theorem exists_expansion {mnemonic : String} {operand : Option Operand}
    (h : Instructs mnemonic operand) : ∃ records, expansion mnemonic operand = .ok records := by
  cases h with
  | bare hAlone =>
    rcases List.mem_append.mp hAlone with hShorthand | hBare
    · simp only [shorthands, List.mem_cons, List.not_mem_nil, or_false] at hShorthand
      rcases hShorthand with rfl | rfl <;> exact ⟨_, rfl⟩
    · obtain ⟨op, hDeclarative, hTakes, rfl⟩ := mem_bareMnemonics_iff.mp hBare
      refine ⟨[(op, none)], ?_⟩
      rw [expansion_mnemonic, plainRecord_mnemonic hDeclarative, hTakes]
      rfl
  | @integer n hOperand hRange =>
    obtain ⟨op, hDeclarative, hTakes, rfl⟩ := mem_operandMnemonics_iff.mp hOperand
    refine ⟨[(op, some (.word (Word.wrap n.value)))], ?_⟩
    rw [expansion_mnemonic, plainRecord_mnemonic hDeclarative, hTakes]
    show ((n.word.map _).map _).map _ = _
    rw [IntegerLiteral.word_of_inRange hRange]
    rfl
  | symbol name hOperand =>
    obtain ⟨op, hDeclarative, hTakes, rfl⟩ := mem_operandMnemonics_iff.mp hOperand
    refine ⟨[(op, some (.symbol name))], ?_⟩
    rw [expansion_mnemonic, plainRecord_mnemonic hDeclarative, hTakes]
    rfl

/-- One that is not possible has none. -/
theorem expansion_of_uninstructable {mnemonic : String} {operand : Option Operand}
    {cause : StatementError} (h : Uninstructable mnemonic operand cause) :
    expansion mnemonic operand = .error cause := by
  cases h with
  | shorthand operand hShorthand =>
    simp only [shorthands, List.mem_cons, List.not_mem_nil, or_false] at hShorthand
    rcases hShorthand with rfl | rfl <;> rfl
  | unknown operand hUnknown =>
    have hNone : Opcode.ofMnemonic? mnemonic = none := by
      cases hFound : Opcode.ofMnemonic? mnemonic with
      | none => rfl
      | some op =>
        obtain rfl := Opcode.mnemonic_of_ofMnemonic? hFound
        exact absurd (mnemonic_mem op) hUnknown
    have hInput : mnemonic ≠ "inp" := fun h => hUnknown (h ▸ by decide)
    have hOutput : mnemonic ≠ "out" := fun h => hUnknown (h ▸ by decide)
    rw [expansion, shorthand?_eq_none hInput hOutput]
    show (plainRecord mnemonic operand).map _ = _
    rw [plainRecord, hNone]
    rfl
  | declarative operand hDeclares =>
    obtain ⟨op, hDeclarative, rfl⟩ := mem_declarationMnemonics_iff.mp hDeclares
    rw [expansion_mnemonic, plainRecord, Opcode.ofMnemonic?_mnemonic]
    simp only [hDeclarative]
    rfl
  | missing hOperand =>
    obtain ⟨op, hDeclarative, hTakes, rfl⟩ := mem_operandMnemonics_iff.mp hOperand
    rw [expansion_mnemonic, plainRecord_mnemonic hDeclarative, hTakes]
    rfl
  | unexpected operand hBare =>
    obtain ⟨op, hDeclarative, hTakes, rfl⟩ := mem_bareMnemonics_iff.mp hBare
    rw [expansion_mnemonic, plainRecord_mnemonic hDeclarative, hTakes]
    rfl
  | @range n hOperand hRange =>
    obtain ⟨op, hDeclarative, hTakes, rfl⟩ := mem_operandMnemonics_iff.mp hOperand
    rw [expansion_mnemonic, plainRecord_mnemonic hDeclarative, hTakes]
    show ((n.word.map _).map _).map _ = _
    rw [IntegerLiteral.word_of_not_inRange hRange]
    rfl

-- ---------------------------------------------------------------------------
-- Not both
-- ---------------------------------------------------------------------------

theorem Declares.not_undeclarable {kind : String} {value : Literal} {cause : StatementError}
    (h : Declares kind value) : ¬Undeclarable kind value cause := by
  intro hCause
  obtain ⟨cells, hCells⟩ := exists_declaredCells h
  rw [declaredCells_of_undeclarable hCause] at hCells
  cases hCells

theorem Instructs.not_uninstructable {mnemonic : String} {operand : Option Operand}
    {cause : StatementError} (h : Instructs mnemonic operand) :
    ¬Uninstructable mnemonic operand cause := by
  intro hCause
  obtain ⟨records, hRecords⟩ := exists_expansion h
  rw [expansion_of_uninstructable hCause] at hRecords
  cases hRecords

end StackProcessor.Assembly
