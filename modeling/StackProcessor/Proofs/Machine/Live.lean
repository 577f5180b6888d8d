import StackProcessor.Proofs.Machine.Bounds

/-!
# StackProcessor — the stack in use

`Datapath.live` is the list of the cells in use, with the top in front. The row behind it keeps
whatever was written there before: moving the pointer up (`raised`) brings such a cell back into
sight, and the signals of a cycle write to it before anything else reads it. Here is what each way
of changing the row or the pointer does to the list. All of it needs `Bounded`.

## Results
- `Datapath.peek?_eq` : `d.peek? k = d.live[k]?`.
- `Datapath.live_pushed`, `Datapath.live_replaced`, `Datapath.live_lowered` : a change of the row is
  `cons`, `List.set` and `List.drop` on the list.
-/

namespace StackProcessor.Datapath

/-- The stack cells in use, the top first. -/
def live (d : Datapath) : List Word := (d.stack.toList.take d.depth).reverse

/-- One more cell in use, which holds whatever was left there. -/
def raised (d : Datapath) : Datapath := { d with depth := d.depth + 1 }

/-- One more cell in use, with this word in it. -/
def pushed (d : Datapath) (value : Word) : Datapath :=
  { d with depth := d.depth + 1, stack := d.stack.setIfInBounds d.depth value }

/-- Another word in the cell `k` below the top. -/
def replaced (d : Datapath) (k : Nat) (value : Word) : Datapath :=
  { d with stack := d.stack.setIfInBounds (d.depth - 1 - k) value }

/-- `n` cells fewer in use. -/
def lowered (d : Datapath) (n : Nat) : Datapath := { d with depth := d.depth - n }

-- ---------------------------------------------------------------------------
-- Reading
-- ---------------------------------------------------------------------------

theorem length_take_stack {d : Datapath} (h : d.Bounded) :
    (d.stack.toList.take d.depth).length = d.depth := by
  unfold Bounded at h
  rw [List.length_take, Array.length_toList]
  omega

theorem length_live {d : Datapath} (h : d.Bounded) : d.live.length = d.depth := by
  rw [live, List.length_reverse, length_take_stack h]

theorem getElem?_live {d : Datapath} (h : d.Bounded) {k : Nat} (hk : k < d.depth) :
    d.live[k]? = d.stack[d.depth - 1 - k]? := by
  have hlen := length_take_stack h
  rw [live, List.getElem?_reverse (by omega), hlen, List.getElem?_take_of_lt (by omega),
    Array.getElem?_toList]

/-- The cell `k` below the top is the cell `k` of the list. -/
theorem peek?_eq {d : Datapath} (h : d.Bounded) (k : Nat) : d.peek? k = d.live[k]? := by
  unfold peek? slot?
  by_cases hk : k < d.depth
  · have hcell : d.depth - 1 - k < d.stack.size := by
      unfold Bounded at h
      omega
    rw [getElem?_live h hk, if_pos hk, Option.map_some, Array.getD_eq_getD_getElem?,
      Array.getElem?_eq_getElem hcell]
    rfl
  · have hlen := length_live h
    rw [if_neg hk, List.getElem?_eq_none (by omega)]
    rfl

theorem top?_eq {d : Datapath} (h : d.Bounded) : d.top? = d.live[0]? := peek?_eq h 0

theorem second?_eq {d : Datapath} (h : d.Bounded) : d.second? = d.live[1]? := peek?_eq h 1

theorem poke_eq {d : Datapath} (h : d.Bounded) (k : Nat) (value : Word) :
    d.poke k value = if k < d.live.length then .completed (d.replaced k value)
      else .interrupted d (.ofRuntime .stackUnderflow) := by
  rw [length_live h, poke, slot?]
  by_cases hk : k < d.depth
  · rw [if_pos hk, if_pos hk]
    rfl
  · rw [if_neg hk, if_neg hk]

-- ---------------------------------------------------------------------------
-- Changes
-- ---------------------------------------------------------------------------

theorem bounded_replaced {d : Datapath} (h : d.Bounded) (k : Nat) (value : Word) :
    (d.replaced k value).Bounded := by
  unfold Bounded at h
  simpa [Bounded, replaced] using h

theorem bounded_pushed {d : Datapath} (h : d.depth < d.stack.size) (value : Word) :
    (d.pushed value).Bounded := by
  simp only [Bounded, pushed, Array.size_setIfInBounds]
  exact h

theorem bounded_raised {d : Datapath} (h : d.depth < d.stack.size) : d.raised.Bounded := h

theorem live_raised {d : Datapath} (h : d.depth < d.stack.size) :
    d.raised.live = d.stack[d.depth] :: d.live := by
  have hcell : d.depth < d.stack.toList.length := h
  simp only [live, raised]
  rw [List.take_succ_eq_append_getElem hcell, List.reverse_append]
  rfl

theorem live_pushed {d : Datapath} (h : d.depth < d.stack.size) (value : Word) :
    (d.pushed value).live = value :: d.live := by
  have hcell : d.depth < (d.stack.toList.set d.depth value).length := by simpa using h
  simp only [live, pushed, Array.toList_setIfInBounds]
  rw [List.take_succ_eq_append_getElem hcell, List.reverse_append,
    List.take_set_of_le (Nat.le_refl _)]
  simp

theorem live_replaced {d : Datapath} (h : d.Bounded) {k : Nat} (hk : k < d.live.length)
    (value : Word) : (d.replaced k value).live = d.live.set k value := by
  have hb : (d.replaced k value).Bounded := bounded_replaced h k value
  have hlen := length_live h
  have hlen' : (d.replaced k value).live.length = d.depth := length_live hb
  apply List.ext_getElem?
  intro j
  by_cases hj : j < d.depth
  · have hcell : d.depth - 1 - k < d.stack.size := by
      unfold Bounded at h
      omega
    rw [getElem?_live hb hj, List.getElem?_set, getElem?_live h hj]
    simp only [replaced, Array.getElem?_setIfInBounds, hcell]
    by_cases hkj : k = j
    · simp [hkj, hlen, hj]
    · -- two places in use that differ in the list differ in the row
      have hne : d.depth - 1 - k ≠ d.depth - 1 - j := by omega
      simp [hkj, hne]
  · have hset : (d.live.set k value).length ≤ j := by
      rw [List.length_set]
      omega
    rw [List.getElem?_eq_none (by omega), List.getElem?_eq_none hset]

theorem live_lowered {d : Datapath} (h : d.Bounded) (n : Nat) :
    (d.lowered n).live = d.live.drop n := by
  have hlen := length_take_stack h
  simp only [live, lowered]
  -- the cells given up are the last of the row and the first of the list
  rw [List.drop_reverse, hlen, List.take_take, Nat.min_eq_left (Nat.sub_le _ _)]

end StackProcessor.Datapath
