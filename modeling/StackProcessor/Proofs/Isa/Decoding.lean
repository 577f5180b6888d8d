import StackProcessor.Image.Basic
import StackProcessor.Proofs.Basic

/-!
# StackProcessor — records that can be executed

A record that decodes gives an operation of its own opcode, with its own operand (`Means`, by
`Operation.payload?`). A record that has an operand exactly when its opcode takes one
(`Instruction.hasProperArity`, which is the hypothesis throughout) fails to decode for two reasons
only: it declares data, or it `JumpsBelowZero`.

## Results
- `Instruction.means_of_operation` : the operation says what the record says.
- `Instruction.exists_operation_iff` : a record with a proper operand decodes if and only if it is
  no declaration and no jump below zero.
- `Instruction.reports_of_operation` : otherwise the fault is the one that it `Reports`.
-/

namespace StackProcessor

theorem Opcode.mnemonic_of_ofMnemonic? {s : String} {op : Opcode} (h : ofMnemonic? s = some op) :
    op.mnemonic = s := by
  have hFound := List.find?_some h
  exact beq_iff_eq.mp hFound

namespace Operation

/-- The operand that an operation carries, as a number. -/
def payload? : Operation → Option Int
  | jump target | jz target => some target
  | push v | push2 v => some v.toInt
  | _ => none

theorem target_of_nonneg {w : Word} (h : 0 ≤ w.toInt) : target w = .ok w.toInt.toNat := by
  have hNot : ¬ w < 0 := by
    intro hLess
    have hNegative : w.toInt < 0 := Int32.lt_iff_toInt_lt.mp hLess
    omega
  rw [target, if_neg hNot]

theorem target_of_neg {w : Word} (h : w.toInt < 0) : target w = .error (.negativeTarget w) := by
  have hLess : w < 0 := Int32.lt_iff_toInt_lt.mpr h
  rw [target, if_pos hLess]

/-- What is decoded is a target that is not negative. -/
theorem toInt_of_target {w : Word} {n : Nat} (h : target w = .ok n) : w.toInt = n := by
  rcases Int.lt_or_le w.toInt 0 with hNegative | hNonneg
  · rw [target_of_neg hNegative] at h
    cases h
  · rw [target_of_nonneg hNonneg] at h
    cases h
    omega

theorem opcode_payload?_of_decode {op : Opcode} {arg : Option Word} {operation : Operation}
    (h : decode op arg = .ok operation) :
    operation.opcode = op ∧ operation.payload? = arg.map Int32.toInt := by
  cases arg with
  | none =>
    cases op <;> cases h
    all_goals exact ⟨rfl, rfl⟩
  | some v =>
    cases op with
    | jump | jz =>
      obtain ⟨n, hTarget, rfl⟩ := exists_of_map_eq_ok h
      exact ⟨rfl, congrArg some (toInt_of_target hTarget).symm⟩
    | push | push2 =>
      cases h
      exact ⟨rfl, rfl⟩
    | _ => cases h

/-- With an operand exactly where one is taken, there are two reasons not to decode. -/
theorem decode_cases {op : Opcode} {arg : Option Word} (h : op.takesOperand = arg.isSome) :
    (op.isDeclarative = false ∧ (∀ t, op = .jump ∨ op = .jz → arg = some t → 0 ≤ t.toInt) ∧
      ∃ operation, decode op arg = .ok operation) ∨
    (op.isDeclarative = true ∧ decode op arg = .error (.declaration op)) ∨
    ∃ t, (op = .jump ∨ op = .jz) ∧ arg = some t ∧ t.toInt < 0 ∧
      decode op arg = .error (.negativeTarget t) := by
  cases arg with
  | none =>
    -- an opcode that takes no operand is plain
    cases op <;> cases h
    all_goals exact Or.inl ⟨rfl, by simp, _, rfl⟩
  | some v =>
    cases op with
    | jump | jz =>
      rcases Int.lt_or_le v.toInt 0 with hNegative | hNonneg
      · refine Or.inr (Or.inr ⟨v, by simp, rfl, hNegative, ?_⟩)
        show (target v).map _ = _
        rw [target_of_neg hNegative]
        rfl
      · refine Or.inl ⟨rfl, ?_, ?_⟩
        · rintro _ _ ⟨rfl⟩
          exact hNonneg
        · show ∃ operation, (target v).map _ = _
          rw [target_of_nonneg hNonneg]
          exact ⟨_, rfl⟩
    | push | push2 => exact Or.inl ⟨rfl, by simp, _, rfl⟩
    | number | string | buffer => exact Or.inr (Or.inl ⟨rfl, rfl⟩)
    | _ => cases h

end Operation

namespace Instruction

/-- The operation has the opcode of the record, and its operand. -/
def Means (inst : Instruction) (op : Operation) : Prop :=
  op.opcode = inst.opcode ∧ op.payload? = inst.arg.map Int32.toInt

/-- The record is a jump to this word, which is negative. -/
def JumpsBelowZero (inst : Instruction) (target : Word) : Prop :=
  (inst.opcode = .jump ∨ inst.opcode = .jz) ∧ inst.arg = some target ∧ target.toInt < 0

/-- The fault is the one that is to be reported of the record. -/
def Reports (inst : Instruction) (fault : DecodeFault) : Prop :=
  fault.index = inst.index ∧
    ((inst.opcode.isDeclarative = true ∧
        fault.reason.message = s!"`{inst.opcode.mnemonic}` is a declaration, not an instruction") ∨
      ∃ target, inst.JumpsBelowZero target ∧
        fault.reason.message = s!"negative jump target {target.render}")

theorem means_of_operation {inst : Instruction} {op : Operation} (h : inst.operation = .ok op) :
    inst.Means op := by
  unfold operation at h
  split at h
  · rename_i decoded hDecode
    cases h
    exact Operation.opcode_payload?_of_decode hDecode
  · cases h

/-- A record with a proper operand decodes to what it says unless it declares data or jumps below
zero. -/
theorem exists_operation_iff {inst : Instruction} (h : inst.hasProperArity = true) :
    (∃ op, inst.operation = .ok op ∧ inst.Means op) ↔
      inst.opcode.isDeclarative = false ∧ ∀ target, ¬ inst.JumpsBelowZero target := by
  rcases Operation.decode_cases (beq_iff_eq.mp h) with
    ⟨hExecutable, hTarget, op, hDecode⟩ | ⟨hDeclares, hDecode⟩ |
      ⟨target, hJump, hArg, hNegative, hDecode⟩
  · have hOperation : inst.operation = .ok op := by rw [operation, hDecode]
    refine iff_of_true ⟨op, hOperation, means_of_operation hOperation⟩ ⟨hExecutable, ?_⟩
    rintro target ⟨hJump, hArg, hNegative⟩
    have hNonneg := hTarget target hJump hArg
    omega
  · refine iff_of_false ?_ ?_
    · simp [operation, hDecode]
    · simp [hDeclares]
  · refine iff_of_false ?_ ?_
    · simp [operation, hDecode]
    · rintro ⟨_, hNever⟩
      exact hNever target ⟨hJump, hArg, hNegative⟩

/-- The report on a record with a proper operand that does not decode. -/
theorem reports_of_operation {inst : Instruction} {fault : DecodeFault}
    (h : inst.hasProperArity = true) (hFault : inst.operation = .error fault) :
    inst.Reports fault := by
  unfold operation at hFault
  rcases Operation.decode_cases (beq_iff_eq.mp h) with
    ⟨_, _, op, hDecode⟩ | ⟨hDeclares, hDecode⟩ | ⟨target, hJump, hArg, hNegative, hDecode⟩
  · rw [hDecode] at hFault
    cases hFault
  · rw [hDecode] at hFault
    cases hFault
    exact ⟨rfl, Or.inl ⟨hDeclares, rfl⟩⟩
  · rw [hDecode] at hFault
    cases hFault
    exact ⟨rfl, Or.inr ⟨target, ⟨hJump, hArg, hNegative⟩, rfl⟩⟩

end Instruction

end StackProcessor
