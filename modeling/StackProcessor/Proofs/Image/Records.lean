import StackProcessor.Proofs.Image.RoundTrip
import StackProcessor.Proofs.Isa.Decoding

/-!
# StackProcessor — which values are records

`j.IsRecordOf inst` says that a value has the shape of a record (`Shows`), names an opcode by its
mnemonic, and has an operand, which is a word, exactly if the opcode takes one. If it is no record,
there is a first fault, `RecordFault`: its shape, its opcode, the range of its operand, and then
whether there should be one. The two descriptions do not speak of reading; what is read is exactly
the instruction or the fault. The integers in a value that was read are in range (`Json.InRange`),
which is the hypothesis throughout.

## Results
- `RawRecord.ofJson?_eq_some_iff` : `ofJson? j = some r ↔ j.Shows r`.
- `Instruction.ofJson_eq_ok_iff`, `Instruction.ofJson_eq_error_iff` : a record and its first fault.
- `Json.RecordFault.blames` : how the fault of a record is reported, by the position in the code or
  by the number that the record carries.
-/

namespace StackProcessor

namespace Json

-- ---------------------------------------------------------------------------
-- Descriptions
-- ---------------------------------------------------------------------------

/-- The value lists an index, an opcode and perhaps an operand: an object has them under their keys
and has no other keys, an array has them one behind the other. -/
inductive Lists : Json → Json → Json → Option Json → Prop where
  | object {members : List (String × Json)} {index opcode : Json} :
    (∀ member ∈ members, member.1 = "index" ∨ member.1 = "opcode" ∨ member.1 = "arg") →
    members.lookup "index" = some index → members.lookup "opcode" = some opcode →
    Lists (.object members) index opcode (members.lookup "arg")
  | pair (index opcode : Json) : Lists (.array [index, opcode]) index opcode none
  | triple (index opcode arg : Json) : Lists (.array [index, opcode, arg]) index opcode (some arg)

/-- What is written for an operand: nothing or `null` if there is none, otherwise an integer of 64
bits with a sign. -/
inductive WritesArg : Option Json → Option Int → Prop where
  | absent : WritesArg none none
  | null : WritesArg (some .null) none
  | integer {n : Int} : -2 ^ 63 ≤ n → n < 2 ^ 63 → WritesArg (some (.number (.integer n))) (some n)

/-- The value has the shape of a record and says this. -/
def Shows (j : Json) (r : RawRecord) : Prop :=
  ∃ arg, j.Lists (naturalJson r.index) (.string r.mnemonic) arg ∧ r.index < 2 ^ 64 ∧
    WritesArg arg r.arg

/-- The value is a record of this instruction: the opcode goes by its mnemonic, and there is an
operand, which is a word, exactly if the opcode takes one. -/
def IsRecordOf (j : Json) (inst : Instruction) : Prop :=
  j.Shows inst.raw ∧ inst.hasProperArity = true

/-- What is wrong first with the value at this position of the code. -/
inductive RecordFault (position : Nat) (j : Json) : LoadFault → Prop where
  | shape : (∀ r, ¬ j.Shows r) → RecordFault position j (.badRecord position)
  | opcode {r : RawRecord} : j.Shows r → (∀ op : Opcode, op.mnemonic ≠ r.mnemonic) →
    RecordFault position j (.unknownOpcode r.index r.mnemonic)
  | range {index : Nat} {op : Opcode} {n : Int} : j.Shows ⟨index, op.mnemonic, some n⟩ →
    ¬ (-2 ^ 31 ≤ n ∧ n < 2 ^ 31) → RecordFault position j (.argOutOfRange position n)
  | missing {index : Nat} {op : Opcode} : j.Shows ⟨index, op.mnemonic, none⟩ →
    op.takesOperand = true → RecordFault position j (.missingArg index op)
  | surplus {index : Nat} {op : Opcode} {w : Word} : j.Shows ⟨index, op.mnemonic, some w.toInt⟩ →
    op.takesOperand = false → RecordFault position j (.surplusArg index op)

end Json

open Json (Lists WritesArg Shows IsRecordOf RecordFault)

-- ---------------------------------------------------------------------------
-- Parts of a record
-- ---------------------------------------------------------------------------

theorem Json.natural?_eq_some_iff {j : Json} {n : Nat} :
    j.natural? = some n ↔ j = naturalJson n := by
  constructor
  · intro h
    unfold natural? integer? at h
    split at h
    · rename_i k hInteger
      split at hInteger
      · cases hInteger
        split at h
        · cases h
          rw [naturalJson, Int.toNat_of_nonneg ‹0 ≤ k›]
        · cases h
      · cases hInteger
    · cases h
  · rintro rfl
    exact natural?_naturalJson n

theorem Opcode.ofMnemonic?_eq_some_iff {s : String} {op : Opcode} :
    ofMnemonic? s = some op ↔ op.mnemonic = s :=
  ⟨mnemonic_of_ofMnemonic?, fun h => h ▸ ofMnemonic?_mnemonic op⟩

theorem Opcode.ofMnemonic?_eq_none_iff {s : String} :
    ofMnemonic? s = none ↔ ∀ op : Opcode, op.mnemonic ≠ s := by
  simp only [Option.eq_none_iff_forall_ne_some, ne_eq, ofMnemonic?_eq_some_iff]

namespace RawRecord

theorem arg?_eq_some_iff {arg : Option Json} (h : ∀ j ∈ arg, j.InRange) {a : Option Int} :
    arg? (arg.getD .null) = some a ↔ WritesArg arg a := by
  constructor
  · intro hRead
    cases arg with
    | none =>
      cases hRead
      exact .absent
    | some j =>
      rw [Option.getD_some] at hRead
      unfold arg? at hRead
      split at hRead
      · cases hRead
        exact .null
      · rename_i n
        have hRange : Json.IntegerInRange n := by
          cases h _ rfl with
          | number hNumber => exact hNumber
        split at hRead
        · rename_i hLess
          cases hRead
          unfold Json.IntegerInRange at hRange
          exact .integer hRange.1 (by omega)
        · cases hRead
      · cases hRead
  · intro hWrites
    cases hWrites with
    | absent => rfl
    | null => rfl
    | integer _ hLess =>
      rw [Option.getD_some, arg?, if_pos (by omega)]

theorem eq_string_of_string? {j : Json} {s : String} (h : j.string? = some s) : j = .string s := by
  cases j with
  | string t =>
    cases h
    rfl
  | _ => cases h

theorem keys_contains_iff (key : String) :
    keys.contains key = true ↔ key = "index" ∨ key = "opcode" ∨ key = "arg" := by
  simp [keys]

/-- The record that is made up of an index, an opcode and perhaps an operand. -/
def ofParts? (index opcode : Json) (arg : Option Json) : Option RawRecord := do
  let index ← index.natural?
  let mnemonic ← opcode.string?
  let arg ← arg? (arg.getD .null)
  some ⟨index, mnemonic, arg⟩

theorem ofParts?_eq_some_iff {index opcode : Json} {arg : Option Json}
    (h : ∀ j ∈ arg, j.InRange) {r : RawRecord} :
    ofParts? index opcode arg = some r ↔
      index = naturalJson r.index ∧ opcode = .string r.mnemonic ∧ WritesArg arg r.arg := by
  constructor
  · intro hParts
    obtain ⟨n, hIndex, hParts⟩ := Option.bind_eq_some_iff.mp hParts
    obtain ⟨mnemonic, hOpcode, hParts⟩ := Option.bind_eq_some_iff.mp hParts
    obtain ⟨a, hArg, hParts⟩ := Option.bind_eq_some_iff.mp hParts
    cases hParts
    exact ⟨Json.natural?_eq_some_iff.mp hIndex, eq_string_of_string? hOpcode,
      (arg?_eq_some_iff h).mp hArg⟩
  · rintro ⟨rfl, rfl, hArg⟩
    simp [ofParts?, natural?_naturalJson, Json.string?, (arg?_eq_some_iff h).mpr hArg]

/-- A record is read from what the value lists. -/
theorem ofJson?_eq_some_iff_lists {j : Json} {r : RawRecord} :
    ofJson? j = some r ↔
      ∃ index opcode arg, j.Lists index opcode arg ∧ ofParts? index opcode arg = some r := by
  constructor
  · intro hRaw
    unfold ofJson? at hRaw
    split at hRaw
    · rename_i members
      split at hRaw
      · rename_i hKeys
        obtain ⟨index, hIndex, hRaw⟩ := Option.bind_eq_some_iff.mp hRaw
        obtain ⟨n, hNatural, hRaw⟩ := Option.bind_eq_some_iff.mp hRaw
        obtain ⟨opcode, hOpcode, hRaw⟩ := Option.bind_eq_some_iff.mp hRaw
        have hOnly : ∀ member ∈ members,
            member.1 = "index" ∨ member.1 = "opcode" ∨ member.1 = "arg" := by
          intro member hMem
          exact (keys_contains_iff member.1).mp (List.all_eq_true.mp hKeys member hMem)
        refine ⟨index, opcode, _, .object hOnly hIndex hOpcode, ?_⟩
        exact Option.bind_eq_some_iff.mpr ⟨n, hNatural, hRaw⟩
      · cases hRaw
    · exact ⟨_, _, _, .pair _ _, hRaw⟩
    · exact ⟨_, _, _, .triple _ _ _, hRaw⟩
    · cases hRaw
  · rintro ⟨index, opcode, arg, hLists, hParts⟩
    cases hLists with
    | @object members _ _ hOnly hIndex hOpcode =>
      have hKeys : (members.all fun member => keys.contains member.1) = true :=
        List.all_eq_true.mpr fun member hMem => (keys_contains_iff member.1).mpr (hOnly member hMem)
      rw [ofJson?, if_pos hKeys, hIndex, hOpcode]
      exact hParts
    | pair => exact hParts
    | triple => exact hParts

theorem inRange_of_lists {j : Json} (h : j.InRange) {index opcode : Json} {arg : Option Json}
    (hLists : j.Lists index opcode arg) : ∀ value ∈ arg, value.InRange := by
  intro value hValue
  cases hLists with
  | object _ _ _ =>
    obtain ⟨before, after, rfl, _⟩ := List.lookup_eq_some_iff.mp hValue
    cases h with
    | object hAll => exact hAll ("arg", value) (by simp)
  | pair => cases hValue
  | triple =>
    cases hValue
    cases h with
    | array hItems => exact hItems value (by simp)

/-- Which values have the shape of a record, and what they say. -/
theorem ofJson?_eq_some_iff {j : Json} (h : j.InRange) {r : RawRecord} :
    ofJson? j = some r ↔ j.Shows r := by
  constructor
  · intro hRaw
    have hIndexLess := index_lt_of_ofJson? h hRaw
    obtain ⟨index, opcode, arg, hLists, hParts⟩ := ofJson?_eq_some_iff_lists.mp hRaw
    obtain ⟨rfl, rfl, hArg⟩ := (ofParts?_eq_some_iff (inRange_of_lists h hLists)).mp hParts
    exact ⟨arg, hLists, hIndexLess, hArg⟩
  · rintro ⟨arg, hLists, _, hArg⟩
    refine ofJson?_eq_some_iff_lists.mpr ⟨_, _, arg, hLists, ?_⟩
    exact (ofParts?_eq_some_iff (inRange_of_lists h hLists)).mpr ⟨rfl, rfl, hArg⟩

end RawRecord

theorem Word.ofInt?_eq_none_iff {n : Int} : ofInt? n = none ↔ ¬ (-2 ^ 31 ≤ n ∧ n < 2 ^ 31) := by
  unfold ofInt? least greatest
  split
  · rename_i hRange
    exact iff_of_false (by simp) (by omega)
  · rename_i hRange
    exact iff_of_true rfl (by omega)

-- ---------------------------------------------------------------------------
-- Records
-- ---------------------------------------------------------------------------

/-- A record that names no opcode, one whose operand is no word, or one that says what some
instruction says. -/
inductive RawRecord.Read (position : Nat) : RawRecord → Except LoadFault Instruction → Prop where
  | opcode {r : RawRecord} : (∀ op : Opcode, op.mnemonic ≠ r.mnemonic) →
    Read position r (.error (.unknownOpcode r.index r.mnemonic))
  | range {index : Nat} {op : Opcode} {n : Int} : ¬ (-2 ^ 31 ≤ n ∧ n < 2 ^ 31) →
    Read position ⟨index, op.mnemonic, some n⟩ (.error (.argOutOfRange position n))
  | proper {inst : Instruction} : inst.hasProperArity = true → Read position inst.raw (.ok inst)
  | improper {inst : Instruction} {fault : LoadFault} : inst.arityFault? = some fault →
    Read position inst.raw (.error fault)

theorem RawRecord.read_instruction (position : Nat) (r : RawRecord) :
    Read position r (r.instruction position) := by
  obtain ⟨index, mnemonic, arg⟩ := r
  rcases hOp : Opcode.ofMnemonic? mnemonic with _ | op
  · have hRead : instruction position ⟨index, mnemonic, arg⟩ =
        .error (.unknownOpcode index mnemonic) := by
      simp only [instruction, hOp]
    rw [hRead]
    exact .opcode (r := ⟨index, mnemonic, arg⟩) (Opcode.ofMnemonic?_eq_none_iff.mp hOp)
  · obtain rfl := Opcode.mnemonic_of_ofMnemonic? hOp
    by_cases hWord : ∃ w : Option Word, arg = w.map Int32.toInt
    · obtain ⟨w, rfl⟩ := hWord
      have hRaw : (⟨index, op.mnemonic, w.map Int32.toInt⟩ : RawRecord) =
          (⟨index, op, w⟩ : Instruction).raw := rfl
      rw [hRaw, Instruction.instruction_raw]
      split
      · rename_i fault hArity
        exact .improper hArity
      · rename_i hArity
        exact .proper ((Instruction.arityFault?_eq_none_iff _).mp hArity)
    · -- there is an operand, and it is not the number of a word
      cases arg with
      | none => exact absurd ⟨none, rfl⟩ hWord
      | some n =>
        rcases hInt : Word.ofInt? n with _ | w
        · have hRead : instruction position ⟨index, op.mnemonic, some n⟩ =
              .error (.argOutOfRange position n) := by
            simp only [instruction, hOp, word, hInt]
            rfl
          rw [hRead]
          exact .range (Word.ofInt?_eq_none_iff.mp hInt)
        · refine absurd ⟨some w, ?_⟩ hWord
          rw [Option.map_some, Word.toInt_of_ofInt? hInt]

namespace Instruction

/-- Which values are records of an instruction. -/
theorem ofJson_eq_ok_iff {position : Nat} {j : Json} (h : j.InRange) {inst : Instruction} :
    ofJson position j = .ok inst ↔ j.IsRecordOf inst := by
  constructor
  · intro hRead
    unfold ofJson at hRead
    split at hRead
    · cases hRead
    · rename_i r hRaw
      have hResult := r.read_instruction position
      rw [hRead] at hResult
      cases hResult with
      | proper hProper => exact ⟨(RawRecord.ofJson?_eq_some_iff h).mp hRaw, hProper⟩
  · rintro ⟨hShows, hProper⟩
    have hRaw := (RawRecord.ofJson?_eq_some_iff h).mpr hShows
    simp only [ofJson, hRaw, instruction_raw, inst.arityFault?_eq_none_iff.mpr hProper]

theorem recordFault_of_arityFault? {position : Nat} {j : Json} {inst : Instruction}
    (hShows : j.Shows inst.raw) {fault : LoadFault} (hArity : inst.arityFault? = some fault) :
    j.RecordFault position fault := by
  obtain ⟨index, op, arg⟩ := inst
  unfold arityFault? at hArity
  split at hArity
  · rename_i hTakes hArg
    obtain rfl : arg = none := hArg
    cases hArity
    exact .missing hShows hTakes
  · rename_i w hTakes hArg
    obtain rfl : arg = some w := hArg
    cases hArity
    exact .surplus hShows hTakes
  · cases hArity

/-- What is reported of a value that is no record. -/
theorem ofJson_eq_error_iff {position : Nat} {j : Json} (h : j.InRange) {fault : LoadFault} :
    ofJson position j = .error fault ↔ j.RecordFault position fault := by
  constructor
  · intro hRead
    unfold ofJson at hRead
    split at hRead
    · rename_i hRaw
      cases hRead
      refine .shape fun r hShows => ?_
      rw [(RawRecord.ofJson?_eq_some_iff h).mpr hShows] at hRaw
      cases hRaw
    · rename_i r hRaw
      have hShows := (RawRecord.ofJson?_eq_some_iff h).mp hRaw
      have hResult := r.read_instruction position
      rw [hRead] at hResult
      cases hResult with
      | opcode hNone => exact .opcode hShows hNone
      | range hRange => exact .range hShows hRange
      | improper hArity => exact recordFault_of_arityFault? hShows hArity
  · intro hFault
    -- for all but the shape, what the value shows is what is read of it
    cases hFault with
    | shape hNone =>
      rcases hRaw : RawRecord.ofJson? j with _ | r
      · simp only [ofJson, hRaw]
      · exact absurd ((RawRecord.ofJson?_eq_some_iff h).mp hRaw) (hNone r)
    | opcode hShows hNone =>
      have hRaw := (RawRecord.ofJson?_eq_some_iff h).mpr hShows
      simp only [ofJson, hRaw, RawRecord.instruction, Opcode.ofMnemonic?_eq_none_iff.mpr hNone]
    | range hShows hRange =>
      have hRaw := (RawRecord.ofJson?_eq_some_iff h).mpr hShows
      simp only [ofJson, hRaw, RawRecord.instruction, Opcode.ofMnemonic?_mnemonic, RawRecord.word,
        Word.ofInt?_eq_none_iff.mpr hRange]
      rfl
    | @missing index op hShows hTakes =>
      have hRaw := (RawRecord.ofJson?_eq_some_iff h).mpr hShows
      have hArity : arityFault? ⟨index, op, none⟩ = some (.missingArg index op) := by
        simp only [arityFault?, hTakes]
      have hRead := instruction_raw position ⟨index, op, none⟩
      rw [hArity] at hRead
      simp only [ofJson, hRaw]
      exact hRead
    | @surplus index op w hShows hTakes =>
      have hRaw := (RawRecord.ofJson?_eq_some_iff h).mpr hShows
      have hArity : arityFault? ⟨index, op, some w⟩ = some (.surplusArg index op) := by
        simp only [arityFault?, hTakes]
      have hRead := instruction_raw position ⟨index, op, some w⟩
      rw [hArity] at hRead
      simp only [ofJson, hRaw]
      exact hRead

end Instruction

-- ---------------------------------------------------------------------------
-- Reports
-- ---------------------------------------------------------------------------

/-- The fault is reported of the value at this position: what the value says is at fault under the
index it carries, its form under its position. -/
inductive LoadFault.Blames (position : Nat) (j : Json) (fault : LoadFault) : Prop where
  | contents {r : RawRecord} {reason : String} : fault.isDecodeFault = true → j.Shows r →
    fault.message = undecodable r.index reason → Blames position j fault
  | form (tail : String) : fault.isDecodeFault = false →
    fault.message = "malformed machine code: " ++ (s!"instruction #{position}" ++ tail) →
    Blames position j fault

theorem LoadFault.message_of_contents {fault : LoadFault} (h : fault.isDecodeFault = true) :
    fault.message = fault.detail := if_pos h

theorem LoadFault.message_of_form {fault : LoadFault} (h : fault.isDecodeFault = false) :
    fault.message = "malformed machine code: " ++ fault.detail := by
  rw [message, h]
  rfl

theorem Json.RecordFault.blames {position : Nat} {j : Json} {fault : LoadFault}
    (h : j.RecordFault position fault) : fault.Blames position j := by
  cases h with
  | shape =>
    refine .form "" rfl ?_
    rw [LoadFault.message_of_form rfl, String.append_empty]
    rfl
  | opcode hShows => exact .contents rfl hShows (LoadFault.message_of_contents rfl)
  | @range _ _ n =>
    refine .form s!": arg {n} exceeds word range" rfl ?_
    rw [LoadFault.message_of_form rfl]
    refine congrArg ("malformed machine code: " ++ ·) ?_
    rw [← String.append_assoc, ← String.append_assoc]
    rfl
  | missing hShows => exact .contents rfl hShows (LoadFault.message_of_contents rfl)
  | surplus hShows => exact .contents rfl hShows (LoadFault.message_of_contents rfl)

end StackProcessor
