import StackProcessor.Json.Reader
import StackProcessor.Proofs.Json.Numeral

/-!
# StackProcessor — integers in what is read

The reader makes an integer only of a number that fits into 64 bits, and puts nothing into a
container but what it has read. So `Json.InRange` holds of every value that was read, at any depth.
What carries it is the same condition on the open containers, `ReaderState.InRange`, which every
token keeps.

## Results
- `ReaderState.inRange_step` : a token keeps `InRange`.
- `inRange_of_ofText?` : what `Json.ofText?` gives is in range.
-/

namespace StackProcessor.Json

/-- All integers in the value are in range. -/
inductive InRange : Json → Prop where
  | null : InRange .null
  | bool (b : Bool) : InRange (.bool b)
  | number {n : Number} : n.InRange → InRange (.number n)
  | string (s : String) : InRange (.string s)
  | array {items : List Json} : (∀ j ∈ items, InRange j) → InRange (.array items)
  | object {members : List (String × Json)} :
    (∀ p ∈ members, InRange p.2) → InRange (.object members)

theorem inRange_of_take {cs rest : List Char} {value : Json}
    (h : Token.take cs = some (.scalar value, rest)) : value.InRange := by
  unfold Token.take at h
  split at h
  -- a text, the three names, and a number
  case h_7 =>
    obtain ⟨_, _, hText⟩ := Option.map_eq_some_iff.mp h
    cases hText
    exact .string _
  case h_8 =>
    cases h
    exact .null
  case h_9 | h_10 =>
    cases h
    exact .bool _
  case h_11 c tail _ _ _ _ _ _ _ _ _ _ =>
    split at h
    · obtain ⟨⟨n, _⟩, hNumber, hToken⟩ := Option.map_eq_some_iff.mp h
      obtain ⟨_, hText, hPair⟩ := Option.map_eq_some_iff.mp hNumber
      cases hPair
      cases hToken
      exact .number (Number.inRange_of_ofText? hText)
    · cases h
  all_goals cases h

theorem mem_insertMember {key : String} {value : Json} {members : List (String × Json)}
    {p : String × Json} (h : p ∈ insertMember key value members) :
    p = (key, value) ∨ p ∈ members := by
  induction members with
  | nil => exact Or.inl (List.mem_singleton.mp h)
  | cons q rest ih =>
    simp only [insertMember] at h
    split at h
    · exact List.mem_cons.mp h
    · split at h
      -- the key was there, and its value is lost
      · rcases List.mem_cons.mp h with hp | hp
        · exact Or.inl hp
        · exact Or.inr (List.mem_cons_of_mem q hp)
      · rcases List.mem_cons.mp h with hp | hp
        · exact Or.inr (hp ▸ List.mem_cons_self)
        · rcases ih hp with hp | hp
          · exact Or.inl hp
          · exact Or.inr (List.mem_cons_of_mem q hp)

/-- All values in a container that is not closed yet are in range. -/
def Container.InRange : Container → Prop
  | .array items => ∀ j ∈ items, j.InRange
  | .object members _ => ∀ p ∈ members, p.2.InRange

namespace ReaderState

/-- All values that have been read are in range. -/
structure InRange (s : ReaderState) : Prop where
  containers : ∀ c ∈ s.containers, c.InRange
  result : ∀ value, s.expected = .nothing value → value.InRange

theorem inRange_deliver {value : Json} (hValue : value.InRange) {containers : List Container}
    (h : ∀ c ∈ containers, c.InRange) : (deliver value containers).InRange := by
  match containers with
  | [] =>
    refine ⟨h, ?_⟩
    rintro v ⟨rfl⟩
    exact hValue
  | .array items :: outer =>
    obtain ⟨hItems, hOuter⟩ := List.forall_mem_cons.mp h
    refine ⟨List.forall_mem_cons.mpr ⟨?_, hOuter⟩, nofun⟩
    exact List.forall_mem_cons.mpr ⟨hValue, hItems⟩
  | .object members key :: outer =>
    obtain ⟨hMembers, hOuter⟩ := List.forall_mem_cons.mp h
    refine ⟨List.forall_mem_cons.mpr ⟨?_, hOuter⟩, nofun⟩
    intro p hp
    rcases mem_insertMember hp with rfl | hp
    · exact hValue
    · exact hMembers p hp

theorem inRange_enter {container : Container} (hContainer : container.InRange)
    {outer : List Container} (h : ∀ c ∈ outer, c.InRange) {expected : Expected} {s : ReaderState}
    (hExpected : ∀ value, expected ≠ .nothing value)
    (hEnter : enter container expected outer = some s) : s.InRange := by
  unfold enter at hEnter
  split at hEnter
  · cases hEnter
    refine ⟨List.forall_mem_cons.mpr ⟨hContainer, h⟩, ?_⟩
    intro value hNothing
    exact absurd hNothing (hExpected value)
  · cases hEnter

theorem inRange_begin {containers : List Container} (h : ∀ c ∈ containers, c.InRange) {t : Token}
    (ht : ∀ value, t = .scalar value → value.InRange) {s : ReaderState}
    (hBegin : begin containers t = some s) : s.InRange := by
  cases t with
  | scalar value =>
    cases hBegin
    exact inRange_deliver (ht value rfl) h
  | openArray =>
    have hEmpty : (Container.array []).InRange := fun _ hj => absurd hj List.not_mem_nil
    exact inRange_enter hEmpty h (fun _ => Expected.noConfusion) hBegin
  | openObject =>
    have hEmpty : (Container.object [] "").InRange := fun _ hp => absurd hp List.not_mem_nil
    exact inRange_enter hEmpty h (fun _ => Expected.noConfusion) hBegin
  | _ => cases hBegin

theorem inRange_close {containers : List Container} (h : ∀ c ∈ containers, c.InRange) {t : Token}
    {s : ReaderState} (hClose : close containers t = some s) : s.InRange := by
  unfold close at hClose
  split at hClose
  · cases hClose
    obtain ⟨hItems, hOuter⟩ := List.forall_mem_cons.mp h
    refine inRange_deliver (.array ?_) hOuter
    intro j hj
    exact hItems j (List.mem_reverse.mp hj)
  · cases hClose
    obtain ⟨hMembers, hOuter⟩ := List.forall_mem_cons.mp h
    exact inRange_deliver (.object hMembers) hOuter
  · cases hClose

theorem inRange_takeKey {containers : List Container} (h : ∀ c ∈ containers, c.InRange) {t : Token}
    {s : ReaderState} (hKey : takeKey containers t = some s) : s.InRange := by
  unfold takeKey at hKey
  split at hKey
  · cases hKey
    obtain ⟨hMembers, hOuter⟩ := List.forall_mem_cons.mp h
    exact ⟨List.forall_mem_cons.mpr ⟨hMembers, hOuter⟩, nofun⟩
  · cases hKey

theorem inRange_afterComma {containers : List Container} (h : ∀ c ∈ containers, c.InRange)
    {s : ReaderState} (hComma : afterComma containers = some s) : s.InRange := by
  unfold afterComma at hComma
  split at hComma
  · cases hComma
    exact ⟨h, nofun⟩
  · cases hComma
    exact ⟨h, nofun⟩
  · cases hComma

/-- One token. -/
theorem inRange_step {s s' : ReaderState} (h : s.InRange) {t : Token}
    (ht : ∀ value, t = .scalar value → value.InRange) (hStep : s.step t = some s') :
    s'.InRange := by
  unfold step at hStep
  split at hStep
  · exact inRange_begin h.containers ht hStep
  · exact inRange_close h.containers hStep
  · exact inRange_begin h.containers ht hStep
  · exact inRange_takeKey h.containers hStep
  · exact inRange_close h.containers hStep
  · exact inRange_takeKey h.containers hStep
  · cases hStep
    exact ⟨h.containers, nofun⟩
  · exact inRange_afterComma h.containers hStep
  · exact inRange_close h.containers hStep
  · cases hStep

/-- Any number of tokens. -/
theorem inRange_of_read {s : ReaderState} (h : s.InRange) {cs : List Char} {value : Json}
    (hRead : s.read cs = some value) : value.InRange := by
  fun_induction ReaderState.read s cs with
  | case1 s cs body hEmpty =>
    -- the text is over, and the value is what was delivered last
    unfold result? at hRead
    split at hRead
    · rename_i v hNothing
      cases hRead
      exact h.result value hNothing
    · cases hRead
  | case2 => cases hRead
  | case3 => cases hRead
  | case4 s cs body hSome t rest hTake s' hStep ih =>
    -- the invariant is carried over the token, whose scalar is in range by itself
    have ht : ∀ v, t = .scalar v → v.InRange := by
      rintro v rfl
      exact inRange_of_take hTake
    exact ih (inRange_step h ht hStep) hRead

end ReaderState

/-- Only integers of 64 bits are ever read. -/
theorem inRange_of_ofText? {cs : List Char} {value : Json} (h : ofText? cs = some value) :
    value.InRange := by
  have hInitial : ReaderState.initial.InRange := ⟨fun _ hc => absurd hc List.not_mem_nil, nofun⟩
  exact ReaderState.inRange_of_read hInitial h

end StackProcessor.Json
