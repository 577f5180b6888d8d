import Mathlib.Data.Int.ModEq
import StackProcessor.Isa.Operation
import StackProcessor.Proofs.Basic

/-!
# StackProcessor — registers and words

Arithmetic is done in registers of 64 bits. What does not fit into a register (`Register.Fits`) is
made explicit by operations that look for it, `Register.add`, `sub`, `div` and `rem`, and stop with
a `Trap` where there is no answer. `Word.reduce` brings a result into the word range by adding
`2 ^ 32` for as long as it lies below (`raise`), and then subtracting it for as long as it lies
above (`lower`); this never leaves the register, comes to an end for every number in it, and gives
the word that is congruent.

## Results
- `Word.wrap_eq_iff` : `wrap v = w ↔ w.toInt ≡ v [ZMOD 2 ^ 32]`.
- `Word.reduce_eq` : `reduce v = .ok (wrap v.toInt)`, so the loops compute `Word.wrap`.
-/

namespace StackProcessor

/-- Why an operation on registers has no answer. -/
inductive Trap where
  /-- The answer takes more than 64 bits. -/
  | overflow
  | zeroDivisor
  deriving DecidableEq, Repr

-- ---------------------------------------------------------------------------
-- Registers
-- ---------------------------------------------------------------------------

namespace Register

/-- The number is one of 64 bits. -/
def Fits (v : Int) : Prop := -2 ^ 63 ≤ v ∧ v < 2 ^ 63

instance (v : Int) : Decidable (Fits v) := inferInstanceAs (Decidable (_ ∧ _))

/-- The number, if it fits. -/
def keep (v : Int) : Except Trap Int64 :=
  if Fits v then .ok (Int64.ofInt v) else .error .overflow

/-- The sum, if it fits. -/
def add (a b : Int64) : Except Trap Int64 := keep (a.toInt + b.toInt)

/-- The difference, if it fits. -/
def sub (a b : Int64) : Except Trap Int64 := keep (a.toInt - b.toInt)

/-- The quotient rounded towards zero, if there is one and it fits. -/
def div (a b : Int64) : Except Trap Int64 :=
  if b = 0 then .error .zeroDivisor else keep (a.toInt.tdiv b.toInt)

/-- The remainder that belongs to the quotient. There is none without the quotient. -/
def rem (a b : Int64) : Except Trap Int64 := (div a b).map fun _ => a % b

theorem keep_of_fits {v : Int} (h : Fits v) : keep v = .ok (Int64.ofInt v) := if_pos h

theorem add_of_fits {a b : Int64} (h : Fits (a.toInt + b.toInt)) : add a b = .ok (a + b) := by
  rw [add, keep_of_fits h, Int64.ofInt_add, Int64.ofInt_toInt, Int64.ofInt_toInt]

theorem sub_of_fits {a b : Int64} (h : Fits (a.toInt - b.toInt)) : sub a b = .ok (a - b) := by
  rw [sub, keep_of_fits h, Int64.ofInt_sub, Int64.ofInt_toInt, Int64.ofInt_toInt]

theorem toInt_of_keep {v : Int} {a : Int64} (h : keep v = .ok a) : a.toInt = v := by
  unfold keep at h
  split at h
  · rename_i hFits
    cases h
    exact Int64.toInt_ofInt_of_le hFits.1 hFits.2
  · cases h

theorem div_of_fits {a b : Int64} (hDivisor : b ≠ 0) (h : Fits (a.toInt.tdiv b.toInt)) :
    div a b = .ok (a / b) := by
  have hQuotient : Int64.ofInt (a.toInt.tdiv b.toInt) = a / b := by
    rw [← Int64.toInt_inj, Int64.toInt_div, Int64.toInt_ofInt]
  rw [div, if_neg hDivisor, keep_of_fits h, hQuotient]

theorem rem_of_fits {a b : Int64} (hDivisor : b ≠ 0) (h : Fits (a.toInt.tdiv b.toInt)) :
    rem a b = .ok (a % b) := by
  rw [rem, div_of_fits hDivisor h]
  rfl

end Register

-- ---------------------------------------------------------------------------
-- Reduction
-- ---------------------------------------------------------------------------

namespace Word

/-- The number of words. -/
def modulus : Int64 := 4294967296

theorem toInt_modulus : modulus.toInt = 2 ^ 32 := by decide

theorem toInt_bounds (w : Word) : -2 ^ 31 ≤ w.toInt ∧ w.toInt < 2 ^ 31 :=
  ⟨Int32.le_toInt w, Int32.toInt_lt w⟩

/-- The reduction of a number is the one word that is congruent to it. -/
theorem wrap_eq_iff {v : Int} {w : Word} : wrap v = w ↔ w.toInt ≡ v [ZMOD 2 ^ 32] := by
  have hBounds := toInt_bounds w
  rw [wrap, Int32.ofInt_eq_iff_bmod_eq_toInt, Int.bmod_eq_iff (by decide), Int.modEq_comm,
    Int.modEq_iff_dvd]
  constructor
  · exact fun h => h.2.2
  · intro h
    exact ⟨by omega, by omega, h⟩

theorem toInt_wrap_modEq (v : Int) : (wrap v).toInt ≡ v [ZMOD 2 ^ 32] := wrap_eq_iff.mp rfl

theorem wrap_congr {v v' : Int} (h : v ≡ v' [ZMOD 2 ^ 32]) : wrap v = wrap v' :=
  wrap_eq_iff.mpr ((toInt_wrap_modEq v').trans h.symm)

/-- Adds `2 ^ 32` for as long as the number lies below the words. -/
def raise (v : Int64) : Except Trap Int64 :=
  if v.toInt < least then
    match _h : Register.add v modulus with
    | .ok w => raise w
    | .error trap => .error trap
  else .ok v
termination_by (least - v.toInt).toNat
decreasing_by
  have hSum := Register.toInt_of_keep ‹_›
  rw [toInt_modulus] at hSum
  omega

/-- Subtracts `2 ^ 32` for as long as the number lies above the words. -/
def lower (v : Int64) : Except Trap Int64 :=
  if greatest < v.toInt then
    match _h : Register.sub v modulus with
    | .ok w => lower w
    | .error trap => .error trap
  else .ok v
termination_by (v.toInt - greatest).toNat
decreasing_by
  have hDifference := Register.toInt_of_keep ‹_›
  rw [toInt_modulus] at hDifference
  omega

/-- Brings a number into the range of words. -/
def reduce (v : Int64) : Except Trap Word := do
  let raised ← raise v
  let lowered ← lower raised
  return lowered.toInt32

theorem add_modulus {v : Int64} (h : v.toInt < least) :
    Register.add v modulus = .ok (v + modulus) ∧ (v + modulus).toInt = v.toInt + 2 ^ 32 := by
  have hLow := Int64.le_toInt v
  have hFits : Register.Fits (v.toInt + modulus.toInt) := by
    rw [toInt_modulus]
    unfold least at h
    unfold Register.Fits
    omega
  have hAdd := Register.add_of_fits hFits
  refine ⟨hAdd, ?_⟩
  rw [Register.toInt_of_keep hAdd, toInt_modulus]

theorem sub_modulus {v : Int64} (h : greatest < v.toInt) :
    Register.sub v modulus = .ok (v - modulus) ∧ (v - modulus).toInt = v.toInt - 2 ^ 32 := by
  have hHigh := Int64.toInt_lt v
  have hFits : Register.Fits (v.toInt - modulus.toInt) := by
    rw [toInt_modulus]
    unfold greatest at h
    unfold Register.Fits
    omega
  have hSub := Register.sub_of_fits hFits
  refine ⟨hSub, ?_⟩
  rw [Register.toInt_of_keep hSub, toInt_modulus]

theorem raise_of_lt {v : Int64} (h : v.toInt < least) : raise v = raise (v + modulus) := by
  rw [raise, if_pos h]
  split
  · rename_i hAdd
    rw [(add_modulus h).1] at hAdd
    rw [Except.ok.inj hAdd]
  · rename_i hAdd
    rw [(add_modulus h).1] at hAdd
    cases hAdd

theorem raise_of_le {v : Int64} (h : least ≤ v.toInt) : raise v = .ok v := by
  rw [raise, if_neg (Int.not_lt.mpr h)]

theorem lower_of_lt {v : Int64} (h : greatest < v.toInt) : lower v = lower (v - modulus) := by
  rw [lower, if_pos h]
  split
  · rename_i hSub
    rw [(sub_modulus h).1] at hSub
    rw [Except.ok.inj hSub]
  · rename_i hSub
    rw [(sub_modulus h).1] at hSub
    cases hSub

theorem lower_of_le {v : Int64} (h : v.toInt ≤ greatest) : lower v = .ok v := by
  rw [lower, if_neg (Int.not_lt.mpr h)]

/-- Raising ends at a congruent number that is no longer below the words. -/
theorem exists_raise (v : Int64) :
    ∃ w, raise v = .ok w ∧ w.toInt ≡ v.toInt [ZMOD 2 ^ 32] ∧ least ≤ w.toInt := by
  by_cases hBelow : v.toInt < least
  · obtain ⟨w, hRaise, hCongruent, hLeast⟩ := exists_raise (v + modulus)
    refine ⟨w, (raise_of_lt hBelow).trans hRaise, hCongruent.trans ?_, hLeast⟩
    rw [(add_modulus hBelow).2]
    exact Int.add_modEq_right
  · rw [Int.not_lt] at hBelow
    exact ⟨v, raise_of_le hBelow, Int.ModEq.refl _, hBelow⟩
termination_by (least - v.toInt).toNat
decreasing_by
  have hSum := (add_modulus hBelow).2
  omega

/-- Lowering ends at a congruent number that is no longer above the words. It does not go below
them, because there are as many words as it subtracts. -/
theorem exists_lower {v : Int64} (h : least ≤ v.toInt) :
    ∃ w, lower v = .ok w ∧ w.toInt ≡ v.toInt [ZMOD 2 ^ 32] ∧
      least ≤ w.toInt ∧ w.toInt ≤ greatest := by
  by_cases hAbove : greatest < v.toInt
  · have hDifference := (sub_modulus hAbove).2
    have hLeast : least ≤ (v - modulus).toInt := by
      unfold least
      unfold greatest at hAbove
      omega
    obtain ⟨w, hLower, hCongruent, hBounds⟩ := exists_lower hLeast
    refine ⟨w, (lower_of_lt hAbove).trans hLower, hCongruent.trans ?_, hBounds⟩
    rw [hDifference]
    exact (Int.modEq_sub_modulus_iff.mpr (Int.ModEq.refl _)).symm
  · rw [Int.not_lt] at hAbove
    exact ⟨v, lower_of_le hAbove, Int.ModEq.refl _, h, hAbove⟩
termination_by (v.toInt - greatest).toNat
decreasing_by omega

/-- Adding and subtracting `2 ^ 32` reaches the congruent word from every number of 64 bits, and
never leaves the 64 bits on the way. -/
theorem reduce_eq (v : Int64) : reduce v = .ok (wrap v.toInt) := by
  obtain ⟨raised, hRaise, hRaised, hLeast⟩ := exists_raise v
  obtain ⟨lowered, hLower, hLowered, hWord⟩ := exists_lower hLeast
  have hKept : lowered.toInt32.toInt = lowered.toInt := by
    unfold least greatest at hWord
    rw [Int64.toInt_toInt32, Int.bmod_eq_of_le (by omega) (by omega)]
  have hReduced : wrap v.toInt = lowered.toInt32 := by
    rw [wrap_eq_iff, hKept]
    exact hLowered.trans hRaised
  rw [reduce, hRaise]
  simp only [Except.bind, bind]
  rw [hLower, hReduced]
  rfl

end Word

end StackProcessor
