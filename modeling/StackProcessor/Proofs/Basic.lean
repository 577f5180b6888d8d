import Mathlib.Tactic.Ring
import StackProcessor.Word

/-!
# StackProcessor — words, results and lists of lists

Three things that proofs all over the library rest on. `Word.ofInt?` and `toInt` are inverse to each
other: a word is kept by its integer, and an integer that is taken for a word is the integer of that
word. Where a computation in `Except` has a result, each of its parts has one, so that a `do` block
can be taken apart from the front with `obtain`. And where lists are put behind one another with
`List.flatMap`, every place belongs to one of them.

## Results
- `Word.ofInt?_toInt`, `Word.toInt_of_ofInt?` : the two directions.
- `exists_of_map_eq_ok`, `exists_of_bind_eq_ok` : the parts of a computation.
- `exists_split_of_getElem?_flatMap`, `getElem?_flatMap_of_split` : the part at a place.
-/

namespace StackProcessor

namespace Word

theorem toInt_wrap {v : Int} (hLeast : least ≤ v) (hGreatest : v ≤ greatest) :
    (wrap v).toInt = v := by
  unfold least at hLeast
  unfold greatest at hGreatest
  exact Int32.toInt_ofInt_of_le (by omega) (by omega)

theorem ofInt?_toInt (w : Word) : ofInt? w.toInt = some w := by
  have hLow := Int32.le_toInt w
  have hHigh := Int32.toInt_lt w
  have hRange : least ≤ w.toInt ∧ w.toInt ≤ greatest := by
    unfold least greatest
    omega
  rw [ofInt?, if_pos hRange, wrap, Int32.ofInt_toInt]

theorem wrap_of_ofInt? {v : Int} {w : Word} (h : ofInt? v = some w) : wrap v = w := by
  unfold ofInt? at h
  split at h
  · exact Option.some.inj h
  · cases h

theorem toInt_of_ofInt? {v : Int} {w : Word} (h : ofInt? v = some w) : w.toInt = v := by
  unfold ofInt? at h
  split at h
  · rename_i hRange
    cases h
    exact toInt_wrap hRange.1 hRange.2
  · cases h

/-- Every code point is a word. -/
theorem toInt_ofChar (c : Char) : (ofChar c).toInt = c.toNat := by
  have hPoint : c.toNat < 1114112 := by
    rcases c.valid with hLow | ⟨_, hHigh⟩
    · exact Nat.lt_trans hLow (by omega)
    · exact hHigh
  apply toInt_wrap
  · unfold least
    omega
  · unfold greatest
    omega

theorem ofChar_eq_zero_iff {c : Char} : ofChar c = 0 ↔ c = '\x00' := by
  rw [← Int32.toInt_inj, toInt_ofChar, Int32.toInt_zero, ← Char.toNat_inj]
  exact Int.natCast_eq_zero

end Word

theorem exists_of_map_eq_ok {ε α β : Type} {f : α → β} {x : Except ε α} {b : β}
    (h : x.map f = .ok b) : ∃ a, x = .ok a ∧ f a = b := by
  cases x with
  | error e => cases h
  | ok a => exact ⟨a, rfl, Except.ok.inj h⟩

theorem exists_of_bind_eq_ok {ε α β : Type} {f : α → Except ε β} {x : Except ε α} {b : β}
    (h : x.bind f = .ok b) : ∃ a, x = .ok a ∧ f a = .ok b := by
  cases x with
  | error e => cases h
  | ok a => exact ⟨a, rfl, h⟩

theorem filterMap_cons_eq {α β : Type} (f : α → Option β) (a : α) (as : List α) :
    (a :: as).filterMap f = (f a).toList ++ as.filterMap f := by
  rw [List.filterMap_cons]
  cases f a <;> rfl

section

variable {α β : Type} {f : α → List β}

/-- A place in lists that stand behind one another is a place in one of them. -/
theorem exists_split_of_getElem?_flatMap {as : List α} {i : Nat} {b : β}
    (h : (as.flatMap f)[i]? = some b) :
    ∃ before a after j, as = before ++ a :: after ∧ i = (before.flatMap f).length + j ∧
      (f a)[j]? = some b := by
  induction as generalizing i with
  | nil => cases h
  | cons a rest ih =>
    rw [List.flatMap_cons] at h
    by_cases hHere : i < (f a).length
    · rw [List.getElem?_append_left hHere] at h
      exact ⟨[], a, rest, i, rfl, (Nat.zero_add i).symm, h⟩
    · rw [List.getElem?_append_right (by omega)] at h
      obtain ⟨before, a', after, j, rfl, hPlace, hFound⟩ := ih h
      refine ⟨a :: before, a', after, j, rfl, ?_, hFound⟩
      rw [List.flatMap_cons, List.length_append]
      omega

theorem getElem?_flatMap_of_split (before : List α) (a : α) (after : List α) {j : Nat}
    (h : j < (f a).length) :
    ((before ++ a :: after).flatMap f)[(before.flatMap f).length + j]? = (f a)[j]? := by
  rw [List.flatMap_append, List.flatMap_cons, List.getElem?_append_right (Nat.le_add_right _ _),
    Nat.add_sub_cancel_left, List.getElem?_append_left h]

end

end StackProcessor
