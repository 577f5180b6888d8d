import Mathlib.Data.List.TakeWhile
import StackProcessor.Json.Token
import StackProcessor.Proofs.Basic

/-!
# StackProcessor — integers in JSON text

An integer is written in decimal digits, and reading the digits gives it back as long as it fits
into the 64 bits that a number has, with or without a sign (`IntegerInRange`). Conversely no other
integer is ever read: `Number.InRange` holds of every number that `Number.ofText?` gives.

## Results
- `Number.ofText?_toString` : `ofText? (toString n).toList = some (.integer n)` for `n` in range.
- `Number.inRange_of_ofText?` : every integer that is read is in range.
-/

namespace StackProcessor.Json

/-- An integer that a number can be: signed or unsigned, it has 64 bits. -/
def IntegerInRange (n : Int) : Prop := -2 ^ 63 ≤ n ∧ n < 2 ^ 64

/-- An integer is in range. Numbers of the other kind are not restricted. -/
def Number.InRange : Number → Prop
  | .integer n => IntegerInRange n
  | .float _ => True

-- ---------------------------------------------------------------------------
-- Decimal digits
-- ---------------------------------------------------------------------------

theorem head?_toDigits_ne_zero {n : Nat} (hn : 0 < n) : (Nat.toDigits 10 n).head? ≠ some '0' := by
  induction n using Nat.strongRecOn with
  | ind n ih =>
    by_cases hSmall : n < 10
    · rw [Nat.toDigits_of_lt_base hSmall]
      intro hHead
      have hDigit : n.digitChar = '0' := by simpa using hHead
      -- only the digit of zero is `0`
      have hZero : n = 0 := by
        have hRange := Nat.toNat_digitChar_of_lt_ten hSmall
        rw [hDigit] at hRange
        have hNat : '0'.toNat = 48 := rfl
        omega
      omega
    · -- the digits of `n / 10` stand in front
      have hFewer := ih (n / 10) (by omega) (by omega)
      obtain ⟨d, rest, hDigits⟩ := List.exists_cons_of_ne_nil
        (Nat.toDigits_ne_nil (n := n / 10) (b := 10))
      rw [hDigits] at hFewer
      rw [Nat.toDigits_of_base_le (by decide) (by omega), hDigits]
      exact hFewer

theorem length_toDigits_of_head?_eq_zero {n : Nat} (h : (Nat.toDigits 10 n).head? = some '0') :
    (Nat.toDigits 10 n).length = 1 := by
  by_cases hn : 0 < n
  · exact absurd h (head?_toDigits_ne_zero hn)
  · have hZero : n = 0 := by omega
    rw [hZero, Nat.toDigits_zero]
    rfl

theorem isDigit_of_mem_toDigits {n : Nat} {c : Char} (hc : c ∈ Nat.toDigits 10 n) :
    c.isDigit = true :=
  Nat.isDigit_of_mem_toDigits (by decide) (by decide) hc

namespace Numeral

-- ---------------------------------------------------------------------------
-- Taking digits apart
-- ---------------------------------------------------------------------------

theorem takeDigits_toDigits (n : Nat) :
    takeDigits (Nat.toDigits 10 n) = some (Nat.toDigits 10 n, []) := by
  have hTake : (Nat.toDigits 10 n).takeWhile Char.isDigit = Nat.toDigits 10 n :=
    List.takeWhile_eq_self_iff.mpr fun c hc => isDigit_of_mem_toDigits hc
  have hDrop : (Nat.toDigits 10 n).dropWhile Char.isDigit = [] :=
    List.dropWhile_eq_nil_iff.mpr fun c hc => isDigit_of_mem_toDigits hc
  simp only [takeDigits, hTake, hDrop, List.isEmpty_iff, Nat.toDigits_ne_nil, if_false]

theorem takeWhole_toDigits (n : Nat) :
    takeWhole (Nat.toDigits 10 n) = some (Nat.toDigits 10 n, []) := by
  have hLeading : ¬ ((Nat.toDigits 10 n).head? = some '0' ∧ (Nat.toDigits 10 n).length ≠ 1) := by
    rintro ⟨hHead, hLength⟩
    exact hLength (length_toDigits_of_head?_eq_zero hHead)
  simp only [takeWhole, takeDigits_toDigits, Option.bind_eq_bind, Option.bind_some, if_neg hLeading]

theorem ofUnsigned?_toDigits (negative : Bool) (n : Nat) :
    ofUnsigned? negative (Nat.toDigits 10 n) = some ⟨negative, Nat.toDigits 10 n, none, none⟩ := by
  simp only [ofUnsigned?, takeWhole_toDigits, takeFraction, takeExponent, Option.bind_eq_bind,
    Option.bind_some, List.isEmpty_nil, if_true]

theorem ofText?_toDigits (n : Nat) :
    ofText? (Nat.toDigits 10 n) = some ⟨false, Nat.toDigits 10 n, none, none⟩ := by
  unfold ofText?
  split
  · rename_i rest hDigits
    have hMinus : '-'.isDigit = true := by
      apply isDigit_of_mem_toDigits (n := n)
      rw [hDigits]
      exact List.mem_cons_self
    exact absurd hMinus (by decide)
  · exact ofUnsigned?_toDigits false n

-- ---------------------------------------------------------------------------
-- The significand
-- ---------------------------------------------------------------------------

theorem le_ofDigitChars (digits : List Char) (significand : Nat) :
    significand ≤ Nat.ofDigitChars 10 digits significand := by
  induction digits generalizing significand with
  | nil => exact Nat.le_of_eq Nat.ofDigitChars_nil.symm
  | cons d rest ih =>
    rw [Nat.ofDigitChars_cons]
    have hNext := ih (10 * significand + (d.toNat - '0'.toNat))
    omega

/-- Digits that fit are gathered to the last one. -/
theorem gather_eq_ofDigitChars {digits : List Char} {significand : Nat}
    (h : Nat.ofDigitChars 10 digits significand < 2 ^ 64) :
    gather significand digits = (Nat.ofDigitChars 10 digits significand, []) := by
  induction digits generalizing significand with
  | nil => rw [gather, Nat.ofDigitChars_nil]
  | cons d rest ih =>
    rw [Nat.ofDigitChars_cons] at h ⊢
    -- the value of all digits is no less than that of the first ones
    have hLe := le_ofDigitChars rest (10 * significand + (d.toNat - '0'.toNat))
    have hFits : 10 * significand + (d.toNat - '0'.toNat) < 1 <<< 64 := by omega
    simp only [gather, if_pos hFits]
    exact ih h

theorem gather_lt {digits : List Char} {significand : Nat} (h : significand < 2 ^ 64) :
    (gather significand digits).1 < 2 ^ 64 := by
  induction digits generalizing significand with
  | nil => exact h
  | cons d rest ih =>
    simp only [gather]
    split
    · rename_i hFits
      exact ih hFits
    · exact h

theorem gather_toDigits {n : Nat} (h : n < 2 ^ 64) : gather 0 (Nat.toDigits 10 n) = (n, []) := by
  have hValue : Nat.ofDigitChars 10 (Nat.toDigits 10 n) 0 = n := Nat.ofDigitChars_ten_toDigits
  rw [gather_eq_ofDigitChars (by omega), hValue]

theorem value?_toDigits (negative : Bool) {n : Nat} (h : n < 2 ^ 64) :
    value? ⟨negative, Nat.toDigits 10 n, none, none⟩ = some (ofSignificand negative n) := by
  simp only [value?, gather_toDigits h]

-- ---------------------------------------------------------------------------
-- Only integers in range
-- ---------------------------------------------------------------------------

theorem inRange_ofSignificand {significand : Nat} (h : significand < 2 ^ 64) (negative : Bool) :
    (ofSignificand negative significand).InRange := by
  unfold ofSignificand
  split
  · split
    -- minus zero and what is below the signed range are no integers
    · trivial
    · rename_i hSigned
      show IntegerInRange (-significand)
      unfold IntegerInRange
      omega
  · show IntegerInRange significand
    unfold IntegerInRange
    omega

theorem inRange_of_float? {negative : Bool} {significand : Nat} {exponent : Int} {n : Number}
    (h : float? negative significand exponent = some n) : n.InRange := by
  obtain ⟨x, _, rfl⟩ := Option.map_eq_some_iff.mp h
  trivial

theorem inRange_of_value? {numeral : Numeral} {n : Number} (h : numeral.value? = some n) :
    n.InRange := by
  have hGather : (gather 0 numeral.whole).1 < 2 ^ 64 := gather_lt (by decide)
  simp only [value?] at h
  split at h
  · cases h
    exact inRange_ofSignificand hGather numeral.negative
  · exact inRange_of_float? h
  · exact inRange_of_float? h

end Numeral

namespace Number

theorem inRange_of_ofText? {cs : List Char} {n : Number} (h : ofText? cs = some n) :
    n.InRange := by
  obtain ⟨numeral, _, hValue⟩ := Option.bind_eq_some_iff.mp h
  exact Numeral.inRange_of_value? hValue

-- ---------------------------------------------------------------------------
-- What is written is read
-- ---------------------------------------------------------------------------

theorem toList_toString_nat (n : Nat) : (toString n).toList = Nat.toDigits 10 n := by
  rw [Nat.toString_eq_repr, Nat.toList_repr]

theorem toList_toString_ofNat (n : Nat) : (toString (n : Int)).toList = Nat.toDigits 10 n :=
  toList_toString_nat n

theorem toList_toString_neg {n : Nat} (h : 0 < n) :
    (toString (-(n : Int))).toList = '-' :: Nat.toDigits 10 n := by
  obtain ⟨k, rfl⟩ : ∃ k, n = k + 1 := ⟨n - 1, by omega⟩
  have hText : toString (-((k + 1 : Nat) : Int)) = "-" ++ (k + 1).repr := rfl
  rw [hText, String.toList_append, Nat.toList_repr]
  rfl

theorem ofText?_toString {n : Int} (h : IntegerInRange n) :
    ofText? (toString n).toList = some (.integer n) := by
  unfold IntegerInRange at h
  by_cases hNegative : n < 0
  · obtain ⟨k, hk, hPos⟩ : ∃ k : Nat, n = -(k : Int) ∧ 0 < k := ⟨n.natAbs, by omega, by omega⟩
    subst hk
    have hSigned : ¬ (k = 0 ∨ 1 <<< 63 < k) := by omega
    rw [toList_toString_neg hPos, ofText?, Numeral.ofText?, Numeral.ofUnsigned?_toDigits]
    simp only [Option.bind_eq_bind, Option.bind_some]
    rw [Numeral.value?_toDigits true (by omega), Numeral.ofSignificand, if_pos rfl, if_neg hSigned]
  · obtain ⟨k, hk⟩ : ∃ k : Nat, n = k := ⟨n.natAbs, by omega⟩
    subst hk
    rw [toList_toString_ofNat, ofText?, Numeral.ofText?_toDigits]
    simp only [Option.bind_eq_bind, Option.bind_some]
    rw [Numeral.value?_toDigits false (by omega), Numeral.ofSignificand, if_neg Bool.false_ne_true]

theorem isNumberChar_of_isDigit {c : Char} (h : c.isDigit = true) : isNumberChar c = true := by
  simp only [isNumberChar, h, Bool.true_or]

/-- An integer begins with a digit or a minus sign, and goes on with digits. -/
theorem toString_eq_cons (n : Int) :
    ∃ c tail, (toString n).toList = c :: tail ∧ (c.isDigit = true ∨ c = '-') ∧
      ∀ x ∈ tail, isNumberChar x = true := by
  by_cases hNegative : n < 0
  · obtain ⟨k, rfl, hPos⟩ : ∃ k : Nat, n = -(k : Int) ∧ 0 < k := ⟨n.natAbs, by omega, by omega⟩
    refine ⟨'-', Nat.toDigits 10 k, toList_toString_neg hPos, Or.inr rfl, ?_⟩
    intro x hx
    exact isNumberChar_of_isDigit (isDigit_of_mem_toDigits hx)
  · obtain ⟨k, rfl⟩ : ∃ k : Nat, n = k := ⟨n.natAbs, by omega⟩
    obtain ⟨c, tail, hDigits⟩ :=
      List.exists_cons_of_ne_nil (Nat.toDigits_ne_nil (n := k) (b := 10))
    have hAll : ∀ x ∈ c :: tail, x.isDigit = true := by
      intro x hx
      rw [← hDigits] at hx
      exact isDigit_of_mem_toDigits hx
    refine ⟨c, tail, ?_, Or.inl (hAll c List.mem_cons_self), ?_⟩
    · rw [toList_toString_ofNat, hDigits]
    · intro x hx
      exact isNumberChar_of_isDigit (hAll x (List.mem_cons_of_mem c hx))

end Number

end StackProcessor.Json
