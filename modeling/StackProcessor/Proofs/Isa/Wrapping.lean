import Mathlib.Tactic.Ring
import StackProcessor.Proofs.Isa.Reduction

/-!
# StackProcessor — the turns of the reduction

`Word.reduce` runs two loops: one adds `2 ^ 32` below the words, and then one subtracts it above
them. Here their turns are counted. `Register.Loop test turn n v last` says that a loop comes from
`v` to `last` in `n` turns, each of which has an answer; `Raises` and `Lowers` are the two loops.
Each comes to an end after at most `2 ^ 31` turns, and one of the two takes none, because there are
as many words as a turn adds or subtracts. What is left is the number's residue modulo `2 ^ 32`, its
lower 32 bits (`ReducesTo`).

## Results
- `Register.Loop.toInt_last`, `Register.Loop.last_turn` : what the turns of a loop come to.
- `Word.exists_raises`, `Word.exists_lowers` : a loop that has a result has taken a number of turns.
- `Word.reduces_exactly` : the word that a number becomes, that words stay as they are, and that a
  sum may be reduced once at the end or before as well.
-/

namespace StackProcessor

-- ---------------------------------------------------------------------------
-- Loops with a number of turns
-- ---------------------------------------------------------------------------

namespace Register

/-- A loop comes from one number to another in `n` turns: its test holds before each of them and
fails after the last, and every turn has an answer. -/
inductive Loop (test : Int64 → Prop) (turn : Int64 → Except Trap Int64) :
    Nat → Int64 → Int64 → Prop where
  | stop {v : Int64} : ¬test v → Loop test turn 0 v v
  | turn {n : Nat} {v next last : Int64} :
    test v → turn v = .ok next → Loop test turn n next last → Loop test turn (n + 1) v last

namespace Loop

variable {test : Int64 → Prop} {turn : Int64 → Except Trap Int64} {n : Nat} {v last : Int64}

/-- What one turn adds, the turns add as often as there are turns. -/
theorem toInt_last {step : Int}
    (hTurn : ∀ u next, test u → turn u = .ok next → next.toInt = u.toInt + step)
    (h : Loop test turn n v last) : last.toInt = v.toInt + n * step := by
  induction h with
  | stop => simp
  | turn hTest hNext _ ih =>
    rw [ih, hTurn _ _ hTest hNext]
    push_cast
    ring

/-- The test fails at the end, and it still held before the last turn. -/
theorem last_turn (h : Loop test turn n v last) :
    ¬test last ∧ (n = 0 ∨ ∃ u, test u ∧ turn u = .ok last) := by
  induction h with
  | stop hTest => exact ⟨hTest, .inl rfl⟩
  | @turn n v next last hTest hNext hRest ih =>
    refine ⟨ih.1, .inr ?_⟩
    rcases ih.2 with rfl | hBefore
    · -- no turn follows
      cases hRest
      exact ⟨v, hTest, hNext⟩
    · exact hBefore

theorem eq_zero (h : Loop test turn n v last) (hTest : ¬test v) : n = 0 := by
  cases h with
  | stop => rfl
  | turn hHolds => exact absurd hHolds hTest

end Loop

end Register

-- ---------------------------------------------------------------------------
-- The two loops
-- ---------------------------------------------------------------------------

namespace Word

/-- Adding `2 ^ 32` below the words, in a number of turns. -/
abbrev Raises : Nat → Int64 → Int64 → Prop :=
  Register.Loop (fun v => v.toInt < least) (fun v => Register.add v modulus)

/-- Subtracting `2 ^ 32` above the words, in a number of turns. -/
abbrev Lowers : Nat → Int64 → Int64 → Prop :=
  Register.Loop (fun v => greatest < v.toInt) (fun v => Register.sub v modulus)

theorem exists_raises {v raised : Int64} (h : raise v = .ok raised) :
    ∃ n, Raises n v raised := by
  fun_induction raise v with
  | case1 v hBelow next hNext ih =>
    obtain ⟨n, hRest⟩ := ih h
    exact ⟨n + 1, .turn hBelow hNext hRest⟩
  | case2 => cases h
  | case3 v hBelow =>
    cases h
    exact ⟨0, .stop hBelow⟩

theorem exists_lowers {v lowered : Int64} (h : lower v = .ok lowered) :
    ∃ n, Lowers n v lowered := by
  fun_induction lower v with
  | case1 v hAbove next hNext ih =>
    obtain ⟨n, hRest⟩ := ih h
    exact ⟨n + 1, .turn hAbove hNext hRest⟩
  | case2 => cases h
  | case3 v hAbove =>
    cases h
    exact ⟨0, .stop hAbove⟩

theorem toInt_of_add {u next : Int64} (h : Register.add u modulus = .ok next) :
    next.toInt = u.toInt + 2 ^ 32 := by
  rw [Register.toInt_of_keep h, toInt_modulus]

theorem toInt_of_sub {u next : Int64} (h : Register.sub u modulus = .ok next) :
    next.toInt = u.toInt + -2 ^ 32 := by
  rw [Register.toInt_of_keep h, toInt_modulus]
  rfl

/-- A number is raised at most `2 ^ 31` times, and once it has been raised it is a word. -/
theorem Raises.le {n : Nat} {v raised : Int64} (h : Raises n v raised) :
    n ≤ 2 ^ 31 ∧ (n = 0 ∨ ¬greatest < raised.toInt) := by
  have hLow := Int64.le_toInt v
  have hTotal := h.toInt_last fun _ _ _ hTurn => toInt_of_add hTurn
  rcases h.last_turn.2 with rfl | ⟨u, hBelow, hLast⟩
  · exact ⟨Nat.zero_le _, .inl rfl⟩
  · -- the last turn starts below the words, and a turn is no longer than their range
    have hRaised := toInt_of_add hLast
    unfold least at hBelow
    unfold greatest
    omega

theorem Lowers.le {n : Nat} {v lowered : Int64} (h : Lowers n v lowered) : n ≤ 2 ^ 31 := by
  have hHigh := Int64.toInt_lt v
  have hTotal := h.toInt_last fun _ _ _ hTurn => toInt_of_sub hTurn
  rcases h.last_turn.2 with rfl | ⟨u, hAbove, hLast⟩
  · exact Nat.zero_le _
  · have hLowered := toInt_of_sub hLast
    unfold greatest at hAbove
    omega

-- ---------------------------------------------------------------------------
-- The word at the end
-- ---------------------------------------------------------------------------

/-- How a number becomes a word. -/
structure ReducesTo (v : Int64) (w : Word) : Prop where
  reduce_eq : reduce v = .ok w
  /-- Both loops come to an end, and one of them takes no turn. -/
  turns : ∃ raises raised lowers lowered, Raises raises v raised ∧ Lowers lowers raised lowered ∧
    (raises = 0 ∨ lowers = 0) ∧ raises ≤ 2 ^ 31 ∧ lowers ≤ 2 ^ 31 ∧ lowered.toInt = w.toInt
  /-- The word is the one number in its range that is congruent to `v` … -/
  eq_iff : ∀ n : Int, n = w.toInt ↔ (-2 ^ 31 ≤ n ∧ n < 2 ^ 31) ∧ n ≡ v.toInt [ZMOD 2 ^ 32]
  /-- … and it has the lower 32 bits of `v`. -/
  toBitVec_eq : w.toBitVec = v.toBitVec.setWidth 32

theorem toInt_wrap_eq_iff (v n : Int) :
    n = (wrap v).toInt ↔ (-2 ^ 31 ≤ n ∧ n < 2 ^ 31) ∧ n ≡ v [ZMOD 2 ^ 32] := by
  constructor
  · rintro rfl
    exact ⟨toInt_bounds _, toInt_wrap_modEq v⟩
  · rintro ⟨⟨hLeast, hGreatest⟩, hCongruent⟩
    rw [← wrap_congr hCongruent]
    exact (Int32.toInt_ofInt_of_le hLeast hGreatest).symm

theorem toInt32_eq_wrap (v : Int64) : v.toInt32 = wrap v.toInt := by
  rw [eq_comm, wrap_eq_iff, Int64.toInt_toInt32]
  exact Int.bmod_emod

theorem exists_turns (v : Int64) :
    ∃ raises raised lowers lowered, Raises raises v raised ∧ Lowers lowers raised lowered ∧
      (raises = 0 ∨ lowers = 0) ∧ raises ≤ 2 ^ 31 ∧ lowers ≤ 2 ^ 31 ∧
      lowered.toInt = (wrap v.toInt).toInt := by
  obtain ⟨raised, hRaise, hRaised, hLeast⟩ := exists_raise v
  obtain ⟨lowered, hLower, hLowered, hWord⟩ := exists_lower hLeast
  obtain ⟨raises, hRaises⟩ := exists_raises hRaise
  obtain ⟨lowers, hLowers⟩ := exists_lowers hLower
  have hEnd : lowered.toInt = (wrap v.toInt).toInt := by
    unfold least greatest at hWord
    exact (toInt_wrap_eq_iff _ _).mpr ⟨⟨hWord.1, by omega⟩, hLowered.trans hRaised⟩
  exact ⟨raises, raised, lowers, lowered, hRaises, hLowers, hRaises.le.2.imp_right hLowers.eq_zero,
    hRaises.le.1, hLowers.le, hEnd⟩

theorem reducesTo_wrap (v : Int64) : ReducesTo v (wrap v.toInt) where
  reduce_eq := reduce_eq v
  turns := exists_turns v
  eq_iff := toInt_wrap_eq_iff v.toInt
  toBitVec_eq := by
    rw [← toInt32_eq_wrap, Int64.toBitVec_toInt32,
      BitVec.signExtend_eq_setWidth_of_le _ (by decide)]

-- ---------------------------------------------------------------------------
-- Sums
-- ---------------------------------------------------------------------------

/-- The sum of two numbers, brought into the range of words. -/
def reduceSum (a b : Int64) : Except Trap Word := do
  let sum ← Register.add a b
  reduce sum

/-- The same, where the two numbers are brought into the range of words before. -/
def reduceSumOfReduced (a b : Int64) : Except Trap Word := do
  let x ← reduce a
  let y ← reduce b
  reduceSum x.toInt64 y.toInt64

theorem reduceSum_of_fits {a b : Int64} (h : Register.Fits (a.toInt + b.toInt)) :
    reduceSum a b = .ok (wrap (a.toInt + b.toInt)) := by
  have hSum := Register.add_of_fits h
  rw [reduceSum, hSum, ← Register.toInt_of_keep hSum]
  exact reduce_eq _

/-- The sum of two words always fits. -/
theorem reduceSumOfReduced_eq (a b : Int64) :
    reduceSumOfReduced a b = .ok (wrap (a.toInt + b.toInt)) := by
  have ha := toInt_bounds (wrap a.toInt)
  have hb := toInt_bounds (wrap b.toInt)
  have hFits : Register.Fits
      ((wrap a.toInt).toInt64.toInt + (wrap b.toInt).toInt64.toInt) := by
    rw [Int32.toInt_toInt64, Int32.toInt_toInt64]
    unfold Register.Fits
    omega
  have hCongruent : (wrap a.toInt).toInt + (wrap b.toInt).toInt ≡
      a.toInt + b.toInt [ZMOD 2 ^ 32] :=
    (toInt_wrap_modEq a.toInt).add (toInt_wrap_modEq b.toInt)
  calc reduceSumOfReduced a b
      = reduceSum (wrap a.toInt).toInt64 (wrap b.toInt).toInt64 := by
        rw [reduceSumOfReduced, reduce_eq, reduce_eq]
        rfl
    _ = .ok (wrap ((wrap a.toInt).toInt + (wrap b.toInt).toInt)) := by
        rw [reduceSum_of_fits hFits, Int32.toInt_toInt64, Int32.toInt_toInt64]
    _ = .ok (wrap (a.toInt + b.toInt)) := by
        rw [wrap_congr hCongruent]

/-- **The reduction of numbers.** Every number of 64 bits becomes the word that is congruent to it
modulo `2 ^ 32`, and no step on the way leaves the 64 bits. Words stay what they are, and a sum may
as well be reduced before it is taken. -/
theorem reduces_exactly (a b : Int64) :
    ReducesTo a (wrap a.toInt) ∧
    (∀ w : Word, reduce w.toInt64 = .ok w) ∧
    (Register.Fits (a.toInt + b.toInt) →
      ∃ w, reduceSum a b = .ok w ∧ reduceSumOfReduced a b = .ok w) := by
  refine ⟨reducesTo_wrap a, ?_, ?_⟩
  · intro w
    rw [reduce_eq, Int32.toInt_toInt64, wrap, Int32.ofInt_toInt]
  · intro hFits
    exact ⟨_, reduceSum_of_fits hFits, reduceSumOfReduced_eq a b⟩

theorem reduces_exactly_extremes :
    Register.Fits (Int64.minValue.toInt + Int64.maxValue.toInt) ∧
    ∃ w, reduceSum Int64.minValue Int64.maxValue = .ok w ∧
      reduceSumOfReduced Int64.minValue Int64.maxValue = .ok w :=
  ⟨by decide, (reduces_exactly Int64.minValue Int64.maxValue).2.2 (by decide)⟩

end Word

end StackProcessor
