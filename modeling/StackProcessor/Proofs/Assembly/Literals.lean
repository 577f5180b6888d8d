import Mathlib.Data.Nat.Digits.Defs
import StackProcessor.Proofs.Assembly.Written
import StackProcessor.Proofs.Json.Numeral

/-!
# StackProcessor — integers in the source

An `IntegerLiteral` is written with any number of digits, and zeros in front do not matter: its
`value` is what the digits stand for in base ten. Where it becomes a word of the image, a
`NumberPlace`, it is the operand of an instruction that takes one or the value of a `num`. With a
literal that is `InRange` there a text may assemble, and then the word in the image is the value of
the literal; with any other it does not.

It makes no difference to the rest of the text which word it is. Two statements are `Alike` if they
make the same difference to what is allowed behind them: the names they define, the cells and
records they take, and the name they refer to. So if the text assembles with one literal in the
place, it assembles with every other that is in range.

## Results
- `IntegerLiteral.value_eq` : the number that digits stand for.
- `exists_result_of_alike` : a statement may be exchanged for one that makes the same difference.
- `NumberPlace.found` : the word in the image.
- `NumberPlace.settled` : which texts with an integer in this place assemble, if one of them does.
-/

namespace StackProcessor.Assembly

-- ---------------------------------------------------------------------------
-- Digits
-- ---------------------------------------------------------------------------

namespace IntegerLiteral

/-- What a character stands for as a digit. -/
def digitValue (d : Char) : Nat := d.toNat - 48

theorem ofDigitChars_eq_ofDigits (digits : List Char) :
    Nat.ofDigitChars 10 digits 0 = Nat.ofDigits 10 (digits.map digitValue).reverse := by
  induction digits with
  | nil => rfl
  | cons d rest ih =>
    rw [Nat.ofDigitChars_cons, Nat.ofDigitChars_eq_ofDigitChars_zero, ih, List.map_cons,
      Nat.ofDigits_reverse_cons, List.length_map, Nat.mul_zero, Nat.zero_add, Nat.add_comm]
    rfl

/-- The number that an integer stands for: each digit counts ten times as much as the next. -/
theorem value_eq (n : IntegerLiteral) :
    n.value = (if n.negative then -1 else 1) *
      (Nat.ofDigits 10 (n.digits.map digitValue).reverse : Nat) := by
  rw [value, ofDigitChars_eq_ofDigits]
  cases n.negative <;> simp

/-- An integer as it is written: without zeros in front. -/
def ofInt (v : Int) : IntegerLiteral := ⟨decide (v < 0), Nat.toDigits 10 v.natAbs⟩

theorem spelling_ofInt (v : Int) : (ofInt v).spelling = (toString v).toList := by
  by_cases hNegative : v < 0
  · obtain ⟨k, rfl, hPos⟩ : ∃ k : Nat, v = -(k : Int) ∧ 0 < k := ⟨v.natAbs, by omega, by omega⟩
    rw [Json.Number.toList_toString_neg hPos, ofInt, spelling, decide_eq_true hNegative, if_pos rfl,
      Int.natAbs_neg, Int.natAbs_natCast]
  · obtain ⟨k, rfl⟩ : ∃ k : Nat, v = k := ⟨v.natAbs, by omega⟩
    rw [Json.Number.toList_toString_ofNat, ofInt, spelling, decide_eq_false hNegative,
      if_neg Bool.false_ne_true, Int.natAbs_natCast]

theorem value_ofInt (v : Int) : (ofInt v).value = v := by
  have hDigits : Nat.ofDigitChars 10 (Nat.toDigits 10 v.natAbs) 0 = v.natAbs :=
    Nat.ofDigitChars_ten_toDigits
  simp only [ofInt, value, hDigits, decide_eq_true_eq]
  omega

theorem inRange_ofInt (w : Word) : (ofInt w.toInt).InRange := by
  have hLow := Int32.le_toInt w
  have hHigh := Int32.toInt_lt w
  rw [InRange, value_ofInt, Word.least, Word.greatest]
  omega

theorem isDigit_ofInt (v : Int) : ∀ d ∈ (ofInt v).digits, d.isDigit = true :=
  fun _ hMem => Json.isDigit_of_mem_toDigits hMem

/-- The literal has no digit too many and no sign too many. -/
structure IsShortest (n : IntegerLiteral) : Prop where
  isDigit : ∀ d ∈ n.digits, d.isDigit = true
  ne_nil : n.digits ≠ []
  /-- No zero stands in front of other digits. -/
  length_of_zero : n.digits.head? = some '0' → n.digits.length = 1
  /-- No minus sign stands in front of zero. -/
  value_ne_zero : n.negative = true → n.value ≠ 0

theorem isShortest_ofInt (v : Int) : (ofInt v).IsShortest where
  isDigit := isDigit_ofInt v
  ne_nil := Nat.toDigits_ne_nil
  length_of_zero := Json.length_toDigits_of_head?_eq_zero
  value_ne_zero hNegative := by
    have hBelow : v < 0 := of_decide_eq_true hNegative
    rw [value_ofInt]
    omega

theorem IsShortest.eq_minus_or_isDigit {n : IntegerLiteral} (h : n.IsShortest) {c : Char}
    (hMem : c ∈ n.spelling) : c = '-' ∨ c.isDigit = true := by
  unfold spelling at hMem
  split at hMem
  · exact (List.mem_cons.mp hMem).imp_right (h.isDigit c)
  · exact .inr (h.isDigit c hMem)

theorem IsShortest.exists_isDigit {n : IntegerLiteral} (h : n.IsShortest) :
    ∃ d ∈ n.spelling, d.isDigit = true := by
  obtain ⟨d, hMem⟩ := List.exists_mem_of_ne_nil _ h.ne_nil
  refine ⟨d, ?_, h.isDigit d hMem⟩
  unfold spelling
  split
  · exact List.mem_cons_of_mem _ hMem
  · exact hMem

/-- What is written for an integer holds nothing but digits and a minus sign. -/
theorem notMem_toString (v : Int) {c : Char} (hMinus : c ≠ '-') (hDigit : c.isDigit = false) :
    c ∉ (toString v).toList := by
  rw [← spelling_ofInt]
  intro hMem
  rcases (isShortest_ofInt v).eq_minus_or_isDigit hMem with hIsMinus | hIsDigit
  · exact hMinus hIsMinus
  · rw [hDigit] at hIsDigit
    cases hIsDigit

theorem exists_isDigit_mem_toString (v : Int) :
    ∃ d ∈ (toString v).toList, d.isDigit = true := by
  rw [← spelling_ofInt]
  exact (isShortest_ofInt v).exists_isDigit

theorem onOneLine_ofInt (v : Int) : OnOneLine (toString v).toList := by
  intro c hMem
  by_contra hEnd
  rcases isLineEnd_iff.mp (Bool.not_eq_false _ ▸ hEnd) with rfl | rfl
  · exact notMem_toString v (by decide) (by decide) hMem
  · exact notMem_toString v (by decide) (by decide) hMem

end IntegerLiteral

theorem onOneLine_toString (n : Nat) : OnOneLine (toString n).toList := by
  rw [Json.Number.toList_toString_nat, ← Json.Number.toList_toString_ofNat]
  exact IntegerLiteral.onOneLine_ofInt n

-- ---------------------------------------------------------------------------
-- Statements that make the same difference
-- ---------------------------------------------------------------------------

/-- The statements make the same difference to what is allowed behind them. -/
structure Statement.Alike (s s' : Statement) : Prop where
  header : s = .codeHeader ↔ s' = .codeHeader
  variableName : s.variableName? = s'.variableName?
  labelName : s.labelName? = s'.labelName?
  extent : Declared.extent s.declared?.toList = Declared.extent s'.declared?.toList
  records : s.records.length = s'.records.length
  reference : s.reference? = s'.reference?

theorem dataEnd_append (before after : List Statement) :
    dataEnd (before ++ after) =
      dataEnd before + Declared.extent (after.filterMap Statement.declared?) := by
  rw [dataEnd, List.filterMap_append, Declared.extent_append, dataEnd, Nat.add_assoc]

section

variable {s s' : Statement} (h : s.Alike s') {before after : List Statement}

include h

theorem Statement.Alike.mem_codeHeader_iff :
    .codeHeader ∈ before ++ s' :: after ↔ .codeHeader ∈ before ++ s :: after := by
  rw [List.mem_append, List.mem_append, List.mem_cons, List.mem_cons, eq_comm, ← h.header, eq_comm]

theorem Statement.Alike.variableNames_eq :
    (before ++ s' :: after).filterMap Statement.variableName? =
      (before ++ s :: after).filterMap Statement.variableName? := by
  rw [List.filterMap_append, List.filterMap_append, filterMap_cons_eq, filterMap_cons_eq,
    h.variableName]

theorem Statement.Alike.labelNames_eq :
    (before ++ s' :: after).filterMap Statement.labelName? =
      (before ++ s :: after).filterMap Statement.labelName? := by
  rw [List.filterMap_append, List.filterMap_append, filterMap_cons_eq, filterMap_cons_eq,
    h.labelName]

theorem Statement.Alike.dataEnd_eq :
    dataEnd (before ++ s' :: after) = dataEnd (before ++ s :: after) := by
  rw [dataEnd_append, dataEnd_append, filterMap_cons_eq, filterMap_cons_eq,
    Declared.extent_append, Declared.extent_append, h.extent]

theorem Statement.Alike.recordCount_eq :
    recordCount (before ++ s' :: after) = recordCount (before ++ s :: after) := by
  rw [List.append_cons before s', List.append_cons before s, recordCount_append,
    recordCount_append, recordCount_append, recordCount_append, recordCount_singleton,
    recordCount_singleton, h.records]

/-- What is allowed behind one of them is allowed behind the other. -/
theorem Admissible.of_alike {t : Statement} (hAllowed : Admissible (before ++ s :: after) t) :
    Admissible (before ++ s' :: after) t := by
  cases hAllowed with
  | dataHeader hData => exact .dataHeader (mt h.mem_codeHeader_iff.mp hData)
  | codeHeader => exact .codeHeader
  | declaration hData hDeclares hNew hSpace =>
    exact .declaration (mt h.mem_codeHeader_iff.mp hData) hDeclares
      (h.variableNames_eq ▸ hNew) (h.dataEnd_eq ▸ hSpace)
  | label hCode hNew hSpace =>
    exact .label (h.mem_codeHeader_iff.mpr hCode) (h.labelNames_eq ▸ hNew)
      (h.recordCount_eq ▸ hSpace)
  | instruction hCode hInstructs =>
    exact .instruction (h.mem_codeHeader_iff.mpr hCode) hInstructs

theorem AllAdmissible.of_alike (hHere : Admissible before s → Admissible before s')
    (hAll : AllAdmissible (before ++ s :: after)) : AllAdmissible (before ++ s' :: after) := by
  intro front t back hSplit
  -- the statement stands before the exchanged one, is the exchanged one, or stands behind it
  rcases List.append_eq_append_iff.mp hSplit with ⟨c, rfl, hRest⟩ | ⟨c, rfl, hRest⟩
  · cases c with
    | nil =>
      cases hRest
      rw [List.append_nil]
      exact hHere (hAll before s after rfl)
    | cons x c =>
      cases hRest
      exact (hAll (before ++ s :: c) t back (by simp)).of_alike h
  · cases c with
    | nil =>
      cases hRest
      rw [List.append_nil] at hHere hAll
      exact hHere (hAll front s after rfl)
    | cons x c =>
      cases hRest
      exact hAll front t (c ++ s :: after) (by simp)

/-- A statement may be exchanged for one that makes the same difference, if that is allowed in its
place. -/
theorem exists_result_of_alike (hHere : Admissible before s → Admissible before s')
    {located located' : List Located}
    (hStatements : located.map Located.statement = before ++ s :: after)
    (hStatements' : located'.map Located.statement = before ++ s' :: after) {lines : Nat}
    {o : Object} (hResult : (assembleStatements lines located).result = .ok o) (lines' : Nat) :
    ∃ o', (assembleStatements lines' located').result = .ok o' := by
  obtain ⟨hAll, hClosed⟩ := allAdmissible_and_closedIn hResult
  rw [closedIn_iff, hStatements] at hClosed
  rw [hStatements] at hAll
  refine exists_result_of_closed lines' (hStatements' ▸ hAll.of_alike h hHere) ?_
  rw [closedIn_iff, hStatements']
  intro t hMem name hReference
  rw [Names, h.variableNames_eq, h.labelNames_eq]
  rcases List.mem_append.mp hMem with hBefore | hRest
  · exact hClosed t (List.mem_append_left _ hBefore) name hReference
  · rcases List.mem_cons.mp hRest with rfl | hAfter
    · exact hClosed s (by simp) name (h.reference.trans hReference)
    · exact hClosed t (by simp [hAfter]) name hReference

end

-- ---------------------------------------------------------------------------
-- Integers that become words of the image
-- ---------------------------------------------------------------------------

/-- Where an integer stands that becomes a word of the image. -/
inductive NumberPlace where
  /-- Behind the mnemonic of an instruction. -/
  | operand (op : Opcode) (hOperand : op.mnemonic ∈ operandMnemonics)
  /-- Behind the name of a variable. -/
  | cell (name : String)

namespace NumberPlace

/-- The tokens of a line with the integer in this place. -/
def tokens (n : IntegerLiteral) : NumberPlace → List Token
  | operand op _ => [.name op.mnemonic, .integer n]
  | cell name => [.name "num", .name name, .integer n]

/-- The statement on such a line. -/
def statement (n : IntegerLiteral) : NumberPlace → Statement
  | operand op _ => .instruction op.mnemonic (some (.integer n))
  | cell name => .declaration "num" name (.integer n)

/-- The header of the section to which such a line belongs. -/
def header : NumberPlace → String
  | operand _ _ => "section .code:"
  | cell _ => "section .data:"

/-- The statement on the line of the header. -/
def opening : NumberPlace → Statement
  | operand _ _ => .codeHeader
  | cell _ => .dataHeader

/-- The word is what the statement in this place, behind these statements, has put into the image:
the operand of its record, or the cell at the address of its variable. -/
def Yields (o : Object) (before : List Statement) (w : Word) : NumberPlace → Prop
  | operand op _ => o.image.code[recordCount before]? = some ⟨recordCount before, op, some w⟩
  | cell name => ∃ a, o.symbols.variableTable.lookup name = some a ∧ a.toInt = dataEnd before ∧
      o.image.data[a.toInt.toNat]? = some w

section

variable {place : NumberPlace} {n n' : IntegerLiteral}

theorem alike (place : NumberPlace) (n n' : IntegerLiteral) :
    (place.statement n).Alike (place.statement n') := by
  cases place with
  | operand op hOperand =>
    refine ⟨by simp [statement], rfl, rfl, rfl, ?_, rfl⟩
    rw [statement, statement, records_mnemonic, records_mnemonic]
    rfl
  | cell name => exact ⟨by simp [statement], rfl, rfl, rfl, rfl, rfl⟩

/-- An operand is written behind a blank. -/
theorem hasTokens_operand (op : Opcode) (hOperand : op.mnemonic ∈ operandMnemonics)
    (hSome : n.digits ≠ []) (hDigits : ∀ d ∈ n.digits, d.isDigit = true) :
    HasTokens (op.mnemonic.toList ++ ' ' :: n.spelling) ((operand op hOperand).tokens n) := by
  have hMnemonic : (Token.name op.mnemonic).Begins (op.mnemonic.toList ++ ' ' :: n.spelling)
      (' ' :: n.spelling) :=
    readName_eq_some_iff.mp (by cases op <;> rfl)
  have hInteger : (Token.integer n).Begins (n.spelling ++ []) [] :=
    .integer hSome hDigits nofun
  rw [List.append_nil] at hInteger
  exact @HasTokens.cons [] _ _ _ _ nofun hMnemonic
    (@HasTokens.cons [' '] _ _ _ _ (by decide) hInteger (.none trailer_nil))

/-- A line with the integer in this place holds the statement. -/
theorem reads {line : List Char} (hLine : OnOneLine line)
    (hTokens : HasTokens line (place.tokens n)) : Reads line (some (place.statement n)) := by
  cases place with
  | operand op hOperand =>
    refine reads_of_tokens hLine hTokens (.instruction op.mnemonic (.integer n)) ?_
    cases op <;> decide
  | cell name =>
    exact reads_of_tokens hLine hTokens (.declaration "num" name (.integer n)) (by decide)

theorem reads_header (place : NumberPlace) :
    Reads place.header.toList (some place.opening) := by
  cases place with
  | operand op hOperand => exact reads_codeHeader
  | cell name => exact reads_dataHeader

section

variable {before : List Statement}

/-- Behind the header alone, a word is allowed. -/
theorem admissible_alone (place : NumberPlace) (hRange : n.InRange) :
    Admissible [] place.opening ∧ Admissible [place.opening] (place.statement n) := by
  cases place with
  | operand op hOperand =>
    exact ⟨.codeHeader, .instruction List.mem_cons_self (.integer hOperand hRange)⟩
  | cell name =>
    have hData : Statement.codeHeader ∉ [.dataHeader] := by decide
    have hSpace : (dataEnd [.dataHeader] : Int) ≤ Word.greatest := by decide
    exact ⟨.dataHeader List.not_mem_nil,
      .declaration hData (.number hRange) List.not_mem_nil hSpace⟩

theorem reference_eq_none (place : NumberPlace) :
    ∀ s ∈ [place.opening, place.statement n], s.reference? = none := by
  cases place <;> simp [opening, statement, Statement.reference?]

/-- Where one word is allowed, every word is. -/
theorem admissible_of_inRange (hRange : n.InRange)
    (h : Admissible before (place.statement n')) : Admissible before (place.statement n) := by
  cases place with
  | operand op hOperand =>
    cases h with
    | instruction hCode => exact .instruction hCode (.integer hOperand hRange)
  | cell name =>
    cases h with
    | declaration hData _ hNew hSpace => exact .declaration hData (.number hRange) hNew hSpace

/-- Where a word is allowed, an integer that is none is refused for that. -/
theorem refused_of_not_inRange (hRange : ¬n.InRange)
    (h : Admissible before (place.statement n')) :
    Refused before (place.statement n) (.outOfRange n) := by
  cases place with
  | operand op hOperand =>
    cases h with
    | instruction hCode => exact .uninstructable hCode (.range hOperand hRange)
  | cell name =>
    cases h with
    | declaration hData => exact .undeclarable hData (.range (Or.inl rfl) hRange)

/-- Only words are allowed. -/
theorem inRange_of_admissible (h : Admissible before (place.statement n)) : n.InRange := by
  by_contra hRange
  exact h.not_refused (refused_of_not_inRange hRange h)

/-- The word in the image is the integer of the source. -/
theorem yields {after : List Statement} {o : Object} (hRange : n.InRange)
    (h : o.ConsistsOf (before ++ place.statement n :: after)) :
    place.Yields o before (Word.wrap n.value) := by
  cases place with
  | operand op hOperand =>
    have hRecord : (Statement.instruction op.mnemonic (some (.integer n))).records[0]? =
        some (op, some (.word (Word.wrap n.value))) := by
      rw [records_mnemonic]
      rfl
    exact h.getElem?_code rfl hRecord
  | cell name =>
    have hSplit : (before ++ Statement.declaration "num" name (.integer n) :: after).filterMap
        Statement.declared? = before.filterMap Statement.declared? ++
          ⟨name, [n.value]⟩ :: after.filterMap Statement.declared? := by
      rw [List.filterMap_append]
      rfl
    obtain ⟨a, hLookup, hAddress⟩ := h.variable_address hSplit
    have hCells : ((cell name).statement n).cells = [Word.wrap n.value] := by
      have hDeclared : declaredCells "num" (.integer n) = .ok [Word.wrap n.value] := by
        show n.word.map (fun w => [w]) = _
        rw [IntegerLiteral.word_of_inRange hRange]
        rfl
      rw [statement, Statement.cells, hDeclared]
    have hLength := length_cells (h.declarable.subset (List.subset_append_left before _))
    have hPlace :
        a.toInt.toNat = Word.portCells + ((before.flatMap Statement.cells).length + 0) := by
      rw [hAddress, hLength]
      exact Int.toNat_natCast (2 + Declared.extent _)
    refine ⟨a, hLookup, hAddress, ?_⟩
    rw [hPlace, h.data, List.getElem?_append_right (by simp), List.length_replicate,
      Nat.add_sub_cancel_left, getElem?_flatMap_of_split _ _ _ (by simp [hCells]), hCells]
    rfl

end

-- ---------------------------------------------------------------------------
-- Texts with an integer
-- ---------------------------------------------------------------------------

section

variable {source : String} {before after : List (List Char)} {line : List Char}
  (hCuts : Cuts source.toList (before ++ line :: after)) (hTokens : HasTokens line (place.tokens n))

include hCuts hTokens

/-- What the text holds, given what the other lines hold. -/
theorem holds_iff {program : List Statement} :
    Holds ((LineEnd.cut source.toList).map Prod.fst) program ↔
      ∃ front back, Holds before front ∧ Holds after back ∧
        program = front ++ place.statement n :: back := by
  have hLine : OnOneLine line := onOneLine_of_cuts hCuts line (by simp)
  have hReads := reads hLine hTokens
  rw [← cuts_iff.mp hCuts, holds_append_iff]
  constructor
  · rintro ⟨front, _, hFront, hRest, rfl⟩
    obtain ⟨reading, back, hReading, hBack, rfl⟩ := holds_cons_iff.mp hRest
    obtain rfl := hReading.unique hLine hReads
    exact ⟨front, back, hFront, hBack, rfl⟩
  · rintro ⟨front, back, hFront, hBack, rfl⟩
    exact ⟨front, _, hFront, .cons hReads hBack, rfl⟩

/-- The program of a text that assembles. -/
theorem exists_program {verbose : Bool} {o : Object}
    (h : (assemble source verbose).result = .ok o) :
    ∃ front back located, Holds before front ∧ Holds after back ∧
      located.map Located.statement = front ++ place.statement n :: back ∧
      (assembleStatements (countLines source.toList) located).result = .ok o := by
  obtain ⟨located, hRead, hResult⟩ := result_assemble_eq_ok_iff.mp h
  obtain ⟨front, back, hFront, hBack, hProgram⟩ :=
    (holds_iff hCuts hTokens).mp (readSource_iff_holds.mp ⟨located, hRead, rfl⟩)
  exact ⟨front, back, located, hFront, hBack, hProgram, hResult⟩

/-- The word that is found in the image, if the text assembles. -/
theorem found {verbose : Bool} {o : Object} (h : (assemble source verbose).result = .ok o) :
    n.InRange ∧ ∃ front w, Holds before front ∧ w.toInt = n.value ∧ place.Yields o front w := by
  obtain ⟨front, back, located, hFront, _, hProgram, hResult⟩ := exists_program hCuts hTokens h
  obtain ⟨hAll, _⟩ := allAdmissible_and_closedIn hResult
  have hRange := inRange_of_admissible (hAll front _ back hProgram)
  have hConsists := consistsOf_of_result hResult
  rw [hProgram] at hConsists
  exact ⟨hRange, front, _, hFront, Word.toInt_wrap hRange.1 hRange.2, yields hRange hConsists⟩

/-- If the text assembles with some integer in the place, it does so with any word, and is refused
for any integer that is none. -/
theorem settled {source' : String} {line' : List Char}
    (hCuts' : Cuts source'.toList (before ++ line' :: after))
    (hTokens' : HasTokens line' (place.tokens n')) {verbose : Bool} {o' : Object}
    (h : (assemble source' verbose).result = .ok o') :
    (n.InRange → ∃ o, (assemble source verbose).result = .ok o) ∧
      (¬n.InRange → ∃ number text, (assemble source verbose).result =
        .error (.badStatement number text (.outOfRange n))) := by
  obtain ⟨front, back, located', hFront, hBack, hProgram', hResult'⟩ :=
    exists_program hCuts' hTokens' h
  obtain ⟨located, hRead, hProgram⟩ := readSource_iff_holds.mpr
    ((holds_iff hCuts hTokens).mpr ⟨front, back, hFront, hBack, rfl⟩)
  constructor
  · intro hRange
    obtain ⟨o, hResult⟩ := exists_result_of_alike (place.alike n' n) (admissible_of_inRange hRange)
      hProgram' hProgram hResult' (countLines source.toList)
    exact ⟨o, result_assemble_eq_ok_iff.mpr ⟨located, hRead, hResult⟩⟩
  · intro hRange
    obtain ⟨hAll, _⟩ := allAdmissible_and_closedIn hResult'
    rw [hProgram'] at hAll
    have hRefused := refused_of_not_inRange hRange (hAll front _ back rfl)
    obtain ⟨done, rest, rfl, hDone, hRest⟩ := List.map_eq_append_iff.mp hProgram
    obtain ⟨s, others, rfl, hStatement, _⟩ := List.map_eq_cons_iff.mp hRest
    rw [← hDone] at hAll hRefused
    rw [← hStatement] at hRefused
    refine ⟨s.line, s.text, ?_⟩
    rw [result_assemble, hRead]
    exact result_of_firstError _ (.statement rfl hAll.of_append hRefused)

/-- There is an error if the integer is no word. -/
theorem exists_error (hRange : ¬n.InRange) (verbose : Bool) :
    ∃ e, (assemble source verbose).result = .error e := by
  cases h : (assemble source verbose).result with
  | error e => exact ⟨e, rfl⟩
  | ok o => exact absurd (found hCuts hTokens h).1 hRange

end

/-- With a word in the place, the line needs nothing but a header before it. -/
theorem exists_object_alone {source : String} {line : List Char}
    (hCuts : Cuts source.toList [place.header.toList, line])
    (hTokens : HasTokens line (place.tokens n)) (hRange : n.InRange) (verbose : Bool) :
    ∃ o, (assemble source verbose).result = .ok o := by
  have hHeader : Holds [place.header.toList] [place.opening] :=
    .cons place.reads_header holds_nil
  have hHolds := (@holds_iff place n _ [_] [] _ hCuts hTokens _).mpr
    ⟨_, _, hHeader, holds_nil, rfl⟩
  obtain ⟨hOpening, hHere⟩ := place.admissible_alone hRange
  have hAll := (allAdmissible_nil.append_one hOpening).append_one hHere
  obtain ⟨o, hResult, _⟩ := exists_object_of_holds hHolds hAll
    (fun s hMem name hReference => by simp [place.reference_eq_none s hMem] at hReference) verbose
  exact ⟨o, hResult⟩

end

end NumberPlace

end StackProcessor.Assembly
