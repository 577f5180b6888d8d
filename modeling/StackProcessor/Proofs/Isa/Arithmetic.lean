import Mathlib.Data.Rat.Floor
import StackProcessor.Proofs.Isa.Reduction

/-!
# StackProcessor — the arithmetic unit

`AluOp.result` is written with a division that rounds towards zero and a correction for operands of
different signs. What comes out is `Int.fdiv`, the division that rounds to the floor, with the
remainder `Int.fmod` that belongs to it. Two words are small enough for every step to stay within 64
bits: `resultChecked` is the same computation with the operations of `Register`, which stop with a
`Trap` where the true result does not fit, and it never stops. The one quotient of words that is no
word itself is that of the least word by `-1`.

`AluOp.floor` is the exact rational quotient rounded down, and `AluOp.RoundsDown` says of two words
that quotient and remainder are those of this division.

## Results
- `AluOp.resultChecked_eq` : no step leaves the 64 bits or divides by zero.
- `AluOp.toInt_result_div`, `AluOp.toInt_result_mod` : the corrections round to the floor, for every
  divisor but zero.
- `eval_floored` : the arithmetic of words, for all pairs of them.
-/

namespace StackProcessor

-- ---------------------------------------------------------------------------
-- Rounding
-- ---------------------------------------------------------------------------

/-- The floor of a quotient is its truncation, less one if that was rounded up. -/
theorem fdiv_eq_corrected {a b : Int} (hb : b ≠ 0) :
    a.fdiv b = if a.tmod b ≠ 0 ∧ ¬(a < 0 ↔ b < 0) then a.tdiv b - 1 else a.tdiv b := by
  rw [Int.fdiv_eq_tdiv]
  by_cases hExact : b ∣ a
  · simp [hExact, Int.tmod_eq_zero_of_dvd hExact]
  · have hRemainder : a.tmod b ≠ 0 := mt Int.dvd_of_tmod_eq_zero hExact
    rw [if_neg hExact]
    rcases lt_or_gt_of_ne hb with hb | hb
    · have hSign := Int.sign_eq_neg_one_of_neg hb
      by_cases ha : a < 0
      · simp [hRemainder, ha, hb, hSign, ha.not_ge, hb.not_ge]
      · simp [hRemainder, ha, hb, Int.not_lt.mp ha]
    · have hSign := Int.sign_eq_one_of_pos hb
      by_cases ha : a < 0
      · simp [hRemainder, ha, hb.le, hSign]
      · simp [hRemainder, ha, hb.le, Int.not_lt.mp ha]

/-- The remainder of the floor is that of the truncation, plus the divisor if the signs differ. -/
theorem fmod_eq_corrected {a b : Int} (hb : b ≠ 0) :
    a.fmod b =
      if a.tmod b ≠ 0 ∧ ¬(a.tmod b < 0 ↔ b < 0) then a.tmod b + b else a.tmod b := by
  rw [Int.fmod_eq_tmod]
  by_cases hExact : b ∣ a
  · simp [hExact, Int.tmod_eq_zero_of_dvd hExact]
  · have hRemainder : a.tmod b ≠ 0 := mt Int.dvd_of_tmod_eq_zero hExact
    rw [if_neg hExact]
    by_cases ha : 0 ≤ a
    · have hNonneg := Int.tmod_nonneg b ha
      rcases lt_or_gt_of_ne hb with hb | hb
      · simp [hRemainder, ha, hb, hb.not_ge, hNonneg.not_gt]
      · simp [ha, hb.le, hb.not_gt, hNonneg.not_gt]
    · have hNonpos : a.tmod b < 0 := by
        have := Int.tmod_nonneg b (Int.neg_nonneg.mpr (Int.not_le.mp ha).le)
        rw [Int.neg_tmod] at this
        omega
      rcases lt_or_gt_of_ne hb with hb | hb
      · simp [ha, hb, hb.not_ge, hNonpos, hb.le]
      · simp [hRemainder, ha, hb.le, hb.not_gt, hNonpos]

/-- The quotient of integers that is rounded down is the floor of the rational quotient. -/
theorem fdiv_eq_floor (a b : Int) : a.fdiv b = ⌊(a : ℚ) / b⌋ := by
  have hNonneg (a : Int) (b : Nat) : a.fdiv b = ⌊(a : ℚ) / (b : Int)⌋ := by
    rw [Int.fdiv_eq_ediv_of_nonneg a (Int.natCast_nonneg b), Int.cast_natCast,
      Rat.floor_intCast_div_natCast]
  obtain ⟨n, rfl | rfl⟩ := b.eq_nat_or_neg
  · exact hNonneg a n
  · have hNeg := hNonneg (-a) n
    rw [← Int.neg_neg (n : Int), Int.neg_fdiv_neg, Int.neg_neg, Int.cast_neg, neg_div] at hNeg
    rw [hNeg, Int.cast_neg, div_neg]

/-- The remainder of the floor lies on the side of zero where the divisor is, and nearer. -/
theorem fmod_bounds (a : Int) {b : Int} (hb : b ≠ 0) :
    (0 < b ∧ 0 ≤ a.fmod b ∧ a.fmod b < b) ∨ (b < 0 ∧ b < a.fmod b ∧ a.fmod b ≤ 0) := by
  rcases lt_or_gt_of_ne hb with hb | hb
  · exact .inr ⟨hb, ((Int.fdiv_fmod_unique' hb).mp ⟨rfl, rfl⟩).2⟩
  · exact .inl ⟨hb, Int.fmod_nonneg_of_pos a hb, Int.fmod_lt_of_pos a hb⟩

/-- Only the quotient of `-2 ^ 31` by `-1` leads out of the words. -/
theorem fdiv_eq_pow_iff {a b : Int} (ha : -2 ^ 31 ≤ a ∧ a < 2 ^ 31) (hb : b ≠ 0) :
    a.fdiv b = 2 ^ 31 ↔ a = -2 ^ 31 ∧ b = -1 := by
  constructor
  · intro hQuotient
    have hAbs := Int.natAbs_fdiv_le_natAbs a b
    have hDivision := Int.mul_fdiv_add_fmod a b
    have hRemainder := fmod_bounds a hb
    rw [hQuotient] at hAbs hDivision
    omega
  · rintro ⟨rfl, rfl⟩
    rfl

-- ---------------------------------------------------------------------------
-- The unit
-- ---------------------------------------------------------------------------

namespace AluOp

/-- `result`, with every operation on registers looked after. -/
def resultChecked (op : AluOp) (left right : Int64) : Except Trap Int64 :=
  match op with
  | add => Register.add right left
  | div =>
    if left = 0 then .ok zeroDivisor
    else do
      let quotient ← Register.div right left
      let remainder ← Register.rem right left
      if remainder ≠ 0 ∧ signsDiffer right left then Register.sub quotient 1 else .ok quotient
  | mod =>
    if left = 0 then .ok zeroDivisor
    else do
      let remainder ← Register.rem right left
      if remainder ≠ 0 ∧ signsDiffer remainder left then Register.add remainder left
      else .ok remainder

/-- `eval`, with every operation on registers looked after, those of the reduction included. -/
def evalChecked (op : AluOp) (left right : Word) : Except Trap Word := do
  let result ← op.resultChecked left.toInt64 right.toInt64
  Word.reduce result

theorem toInt_eq_zero_iff {a : Int64} : a.toInt = 0 ↔ a = 0 := by
  rw [← Int64.toInt_inj]
  rfl

theorem signsDiffer_iff {a b : Int64} :
    signsDiffer a b = true ↔ ¬(a.toInt < 0 ↔ b.toInt < 0) := by
  have hZero : (0 : Int64).toInt = 0 := rfl
  rw [signsDiffer, bne_iff_ne, ne_eq, decide_eq_decide, Int64.lt_iff_toInt_lt,
    Int64.lt_iff_toInt_lt, hZero]

theorem result_div_of_ne {left : Int64} (h : left ≠ 0) (right : Int64) :
    div.result left right =
      if right % left ≠ 0 ∧ signsDiffer right left then right / left - 1 else right / left :=
  if_neg h

theorem result_mod_of_ne {left : Int64} (h : left ≠ 0) (right : Int64) :
    mod.result left right =
      if right % left ≠ 0 ∧ signsDiffer (right % left) left then right % left + left
      else right % left :=
  if_neg h

section Words

variable (left right : Word)

/-- A sum of words stays far within a register. -/
theorem fits_add : Register.Fits (right.toInt64.toInt + left.toInt64.toInt) := by
  have hLeft := Word.toInt_bounds left
  have hRight := Word.toInt_bounds right
  rw [Int32.toInt_toInt64, Int32.toInt_toInt64]
  unfold Register.Fits
  omega

/-- A quotient is no further from zero than the number that is divided. -/
theorem tdiv_bounds :
    -2 ^ 31 ≤ right.toInt.tdiv left.toInt ∧ right.toInt.tdiv left.toInt ≤ 2 ^ 31 := by
  have hAbs := Int.natAbs_tdiv_le_natAbs right.toInt left.toInt
  have hRight := Word.toInt_bounds right
  omega

/-- And neither is a remainder. -/
theorem tmod_bounds :
    -2 ^ 31 ≤ right.toInt.tmod left.toInt ∧ right.toInt.tmod left.toInt ≤ 2 ^ 31 := by
  have hAbs := Int.natAbs_tmod right.toInt left.toInt
  have hLe := Nat.mod_le right.toInt.natAbs left.toInt.natAbs
  have hRight := Word.toInt_bounds right
  omega

theorem toInt_div : (right.toInt64 / left.toInt64).toInt = right.toInt.tdiv left.toInt := by
  have hBounds := tdiv_bounds left right
  rw [Int64.toInt_div, Int32.toInt_toInt64, Int32.toInt_toInt64,
    Int.bmod_eq_of_le (by omega) (by omega)]

theorem toInt_mod : (right.toInt64 % left.toInt64).toInt = right.toInt.tmod left.toInt := by
  rw [Int64.toInt_mod, Int32.toInt_toInt64, Int32.toInt_toInt64]

theorem fits_div : Register.Fits (right.toInt64.toInt.tdiv left.toInt64.toInt) := by
  have hBounds := tdiv_bounds left right
  rw [Int32.toInt_toInt64, Int32.toInt_toInt64]
  unfold Register.Fits
  omega

/-- A quotient can be corrected. -/
theorem fits_div_sub :
    Register.Fits ((right.toInt64 / left.toInt64).toInt - (1 : Int64).toInt) := by
  have hBounds := tdiv_bounds left right
  have hOne : (1 : Int64).toInt = 1 := rfl
  rw [toInt_div, hOne]
  unfold Register.Fits
  omega

/-- A remainder can be corrected. -/
theorem fits_mod_add :
    Register.Fits ((right.toInt64 % left.toInt64).toInt + left.toInt64.toInt) := by
  have hBounds := tmod_bounds left right
  have hLeft := Word.toInt_bounds left
  rw [toInt_mod, Int32.toInt_toInt64]
  unfold Register.Fits
  omega

/-- No operation of the unit leaves the registers, and none divides by zero. -/
theorem resultChecked_eq (op : AluOp) :
    op.resultChecked left.toInt64 right.toInt64 =
      .ok (op.result left.toInt64 right.toInt64) := by
  have hFits := fits_div left right
  by_cases hDivisor : left.toInt64 = 0
  · cases op with
    | add => exact Register.add_of_fits (fits_add left right)
    | div => simp only [resultChecked, result, if_pos hDivisor]
    | mod => simp only [resultChecked, result, if_pos hDivisor]
  · have hQuotient := Register.div_of_fits hDivisor hFits
    have hRemainder := Register.rem_of_fits hDivisor hFits
    cases op with
    | add => exact Register.add_of_fits (fits_add left right)
    | div =>
      rw [result_div_of_ne hDivisor]
      simp only [resultChecked, if_neg hDivisor, hQuotient, hRemainder, bind, Except.bind]
      split
      · exact Register.sub_of_fits (fits_div_sub left right)
      · rfl
    | mod =>
      rw [result_mod_of_ne hDivisor]
      simp only [resultChecked, if_neg hDivisor, hRemainder, bind, Except.bind]
      split
      · exact Register.add_of_fits (fits_mod_add left right)
      · rfl

theorem evalChecked_eq (op : AluOp) : op.evalChecked left right = .ok (op.eval left right) := by
  rw [evalChecked, resultChecked_eq]
  exact Word.reduce_eq _

theorem toInt_result_add :
    (add.result left.toInt64 right.toInt64).toInt = right.toInt + left.toInt := by
  have hSum := Register.toInt_of_keep (Register.add_of_fits (fits_add left right))
  rwa [Int32.toInt_toInt64, Int32.toInt_toInt64] at hSum

/-- A sum is brought into the word range. -/
theorem eval_add : add.eval left right = Word.wrap (right.toInt + left.toInt) := by
  rw [eval, toInt_result_add]

variable {left}

theorem toInt64_ne_zero (h : left ≠ 0) : left.toInt64 ≠ 0 := by
  intro hZero
  apply h
  rw [← Int32.toInt_inj, ← Int32.toInt_toInt64, hZero]
  rfl

theorem toInt_ne_zero (h : left ≠ 0) : left.toInt ≠ 0 :=
  mt (Int32.toInt_inj (y := 0)).mp h

/-- The quotient that is brought into the word range is the floor. -/
theorem toInt_result_div (hDivisor : left ≠ 0) :
    (div.result left.toInt64 right.toInt64).toInt = right.toInt.fdiv left.toInt := by
  have hCorrected := Register.toInt_of_keep (Register.sub_of_fits (fits_div_sub left right))
  have hRounded : right.toInt64 % left.toInt64 ≠ 0 ∧ signsDiffer right.toInt64 left.toInt64 ↔
      right.toInt.tmod left.toInt ≠ 0 ∧ ¬(right.toInt < 0 ↔ left.toInt < 0) := by
    rw [signsDiffer_iff, Ne, ← toInt_eq_zero_iff, toInt_mod, Int32.toInt_toInt64,
      Int32.toInt_toInt64]
  rw [result_div_of_ne (toInt64_ne_zero hDivisor), fdiv_eq_corrected (toInt_ne_zero hDivisor),
    apply_ite Int64.toInt, hCorrected, toInt_div]
  simp only [hRounded]
  rfl

/-- The remainder that is brought into the word range is that of the floor. -/
theorem toInt_result_mod (hDivisor : left ≠ 0) :
    (mod.result left.toInt64 right.toInt64).toInt = right.toInt.fmod left.toInt := by
  have hCorrected := Register.toInt_of_keep (Register.add_of_fits (fits_mod_add left right))
  have hRounded : right.toInt64 % left.toInt64 ≠ 0 ∧
      signsDiffer (right.toInt64 % left.toInt64) left.toInt64 ↔
      right.toInt.tmod left.toInt ≠ 0 ∧
        ¬(right.toInt.tmod left.toInt < 0 ↔ left.toInt < 0) := by
    rw [signsDiffer_iff, Ne, ← toInt_eq_zero_iff, toInt_mod, Int32.toInt_toInt64]
  rw [result_mod_of_ne (toInt64_ne_zero hDivisor), fmod_eq_corrected (toInt_ne_zero hDivisor),
    apply_ite Int64.toInt, hCorrected, toInt_mod, Int32.toInt_toInt64]
  simp only [hRounded]

end Words

/-- The exact quotient `right / left`, rounded down. -/
def floor (left right : Word) : Int := ⌊(right.toInt : ℚ) / left.toInt⌋

/-- The two divisions are the quotient and the remainder of one division, which rounds down. -/
structure RoundsDown (left right : Word) : Prop where
  /-- The quotient is the one word that is congruent to the floor … -/
  div_iff : ∀ w, w = div.eval left right ↔ w.toInt ≡ floor left right [ZMOD 2 ^ 32]
  /-- … which is a word itself but for one pair of operands … -/
  div_ne_floor_iff : (div.eval left right).toInt ≠ floor left right ↔
    right = Int32.minValue ∧ left = -1
  /-- … whose quotient is the least word again. -/
  div_overflow : right = Int32.minValue ∧ left = -1 → div.eval left right = Int32.minValue
  mod_eq : (mod.eval left right).toInt = right.toInt - left.toInt * floor left right
  mod_sign : mod.eval left right = 0 ∨ (mod.eval left right).toInt.sign = left.toInt.sign
  mod_lt : |(mod.eval left right).toInt| < |left.toInt|
  div_mul_add_mod : (div.eval left right).toInt * left.toInt + (mod.eval left right).toInt ≡
    right.toInt [ZMOD 2 ^ 32]

theorem floor_bounds (left right : Word) :
    -2 ^ 31 ≤ floor left right ∧ floor left right ≤ 2 ^ 31 := by
  have hAbs := Int.natAbs_fdiv_le_natAbs right.toInt left.toInt
  have hRight := Word.toInt_bounds right
  rw [fdiv_eq_floor] at hAbs
  unfold floor
  omega

section Divisor

variable {left : Word} (hDivisor : left ≠ 0) (right : Word)
include hDivisor

theorem eval_div : div.eval left right = Word.wrap (floor left right) := by
  rw [eval, toInt_result_div right hDivisor, fdiv_eq_floor]
  rfl

/-- The floor is a word, or it is the one number that follows the words. -/
theorem floor_eq_pow_iff :
    floor left right = 2 ^ 31 ↔ right = Int32.minValue ∧ left = -1 := by
  rw [floor, ← fdiv_eq_floor, fdiv_eq_pow_iff (Word.toInt_bounds right)
    (toInt_ne_zero hDivisor), ← Int32.toInt_inj, ← Int32.toInt_inj]
  rfl

/-- A remainder needs no reduction. -/
theorem toInt_eval_mod : (mod.eval left right).toInt = right.toInt.fmod left.toInt := by
  have hLeft := Word.toInt_bounds left
  have hBounds := fmod_bounds right.toInt (toInt_ne_zero hDivisor)
  rw [eval, toInt_result_mod right hDivisor]
  exact Word.toInt_wrap (by unfold Word.least; omega) (by unfold Word.greatest; omega)

theorem toInt_eval_mod_eq :
    (mod.eval left right).toInt = right.toInt - left.toInt * floor left right := by
  rw [toInt_eval_mod hDivisor, Int.fmod_def, fdiv_eq_floor]
  rfl

theorem roundsDown : RoundsDown left right where
  div_iff w := by
    rw [eval_div hDivisor, eq_comm, Word.wrap_eq_iff]
  div_ne_floor_iff := by
    have hBounds := floor_bounds left right
    have hWord := Int32.toInt_lt (div.eval left right)
    rw [← floor_eq_pow_iff hDivisor, eval_div hDivisor]
    rw [eval_div hDivisor] at hWord
    constructor
    · intro hReduced
      by_contra hNotPow
      apply hReduced
      exact Word.toInt_wrap (by unfold Word.least; omega) (by unfold Word.greatest; omega)
    · intro hPow
      rw [hPow] at hWord ⊢
      omega
  div_overflow hOperands := by
    rw [eval_div hDivisor, (floor_eq_pow_iff hDivisor right).mpr hOperands]
    rfl
  mod_eq := toInt_eval_mod_eq hDivisor right
  mod_sign := by
    have hBounds := fmod_bounds right.toInt (toInt_ne_zero hDivisor)
    rw [← Int32.toInt_inj, toInt_eval_mod hDivisor]
    rcases eq_or_ne (right.toInt.fmod left.toInt) 0 with hZero | hNonzero
    · exact .inl hZero
    · right
      rcases hBounds with ⟨hLeft, hNonneg, -⟩ | ⟨hLeft, -, hNonpos⟩
      · rw [Int.sign_eq_one_of_pos hLeft, Int.sign_eq_one_of_pos (by omega)]
      · rw [Int.sign_eq_neg_one_of_neg hLeft, Int.sign_eq_neg_one_of_neg (by omega)]
  mod_lt := by
    have hBounds := fmod_bounds right.toInt (toInt_ne_zero hDivisor)
    rw [toInt_eval_mod hDivisor, Int.abs_eq_natAbs, Int.abs_eq_natAbs]
    omega
  div_mul_add_mod := by
    have hQuotient := Word.toInt_wrap_modEq (floor left right)
    rw [← eval_div hDivisor] at hQuotient
    calc (div.eval left right).toInt * left.toInt + (mod.eval left right).toInt
        ≡ floor left right * left.toInt + (mod.eval left right).toInt [ZMOD 2 ^ 32] :=
          (hQuotient.mul_right _).add_right _
      _ = right.toInt := by
          rw [toInt_eval_mod_eq hDivisor]
          ring

end Divisor

end AluOp

/-- **The arithmetic of words.** A sum is the word congruent to it. A division by zero gives `-1`;
any other rounds down, and its remainder belongs to that quotient. The program gets there with
operations on 64 bits alone, none of which overflows or divides by zero. -/
theorem eval_floored (left right : Word) :
    (∀ w, w = AluOp.add.eval left right ↔ w.toInt ≡ right.toInt + left.toInt [ZMOD 2 ^ 32]) ∧
    (left = 0 → AluOp.div.eval left right = -1 ∧ AluOp.mod.eval left right = -1) ∧
    (left ≠ 0 → AluOp.RoundsDown left right) ∧
    ∀ op : AluOp, op.evalChecked left right = .ok (op.eval left right) := by
  refine ⟨?_, ?_, fun hDivisor => AluOp.roundsDown hDivisor right, AluOp.evalChecked_eq left right⟩
  · intro w
    rw [AluOp.eval, AluOp.toInt_result_add, eq_comm, Word.wrap_eq_iff]
  · rintro rfl
    exact ⟨rfl, rfl⟩

example : AluOp.div.eval 2 (-7) = -4 ∧ AluOp.mod.eval 2 (-7) = 1 := by decide

end StackProcessor
