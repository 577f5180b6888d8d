import Mathlib.Data.List.Forall2
import StackProcessor.Proofs.Image.Records

/-!
# StackProcessor — which arrays are images

`image.HeldBy elements` says that the elements of a JSON array are the number of the data words,
those words, and a record for each instruction. If they hold no image, there is a `FirstFault`, in
an order that is fixed: what is wrong with the length, then the first data element that is no word,
then the first element of the code that is no record. As for a single record, the two descriptions
do not speak of reading, and `Image.ofElements` gives exactly the image or the fault that they give.

## Results
- `Image.readAll_eq_ok_iff`, `Image.readAll_eq_error_iff` : a list, as `List.Forall₂`, and its first
  unreadable element, as a split before which all elements are read.
- `Image.ofElements_eq_ok_iff`, `Image.ofElements_eq_error_iff` : an array and its first fault.
- `Image.ofText_accepts_or_faults` : the same of a text, and how each fault is reported.
-/

namespace StackProcessor

open Json (IsRecordOf RecordFault)

-- ---------------------------------------------------------------------------
-- Descriptions
-- ---------------------------------------------------------------------------

namespace Image

/-- The elements hold the image: the number of its data words, the words, and its records. -/
structure HeldBy (image : Image) (elements : List Json) : Prop where
  length_lt : image.data.length < 2 ^ 64
  split : ∃ records, elements =
      naturalJson image.data.length :: image.data.map Word.json ++ records ∧
    List.Forall₂ IsRecordOf records image.code

end Image

/-- What is wrong first with the elements of an array. -/
inductive FirstFault : List Json → LoadFault → Prop where
  | empty : FirstFault [] .empty
  | badLength {head : Json} {rest : List Json} : (∀ n < 2 ^ 64, head ≠ naturalJson n) →
    FirstFault (head :: rest) (.badLength head)
  | tooShort {length : Nat} {rest : List Json} : rest.length < length →
    FirstFault (naturalJson length :: rest) (.tooShort length rest.length)
  | badCell {length : Nat} {data : List Word} {j : Json} {rest : List Json} :
    data.length < length → length ≤ (data.map Word.json ++ j :: rest).length →
    (∀ w : Word, j ≠ w.json) →
    FirstFault (naturalJson length :: data.map Word.json ++ j :: rest) (.badCell data.length j)
  | badRecord {data : List Word} {code : List Instruction} {records : List Json} {j : Json}
      {rest : List Json} {fault : LoadFault} :
    List.Forall₂ IsRecordOf records code → RecordFault code.length j fault →
    FirstFault (naturalJson data.length :: data.map Word.json ++ records ++ j :: rest) fault

-- ---------------------------------------------------------------------------
-- Data words
-- ---------------------------------------------------------------------------

theorem Word.ofJson_eq_ok_iff {address : Nat} {j : Json} {w : Word} :
    Word.ofJson address j = .ok w ↔ j = w.json := by
  constructor
  · intro h
    unfold ofJson at h
    split at h
    · rename_i v hWord
      cases h
      obtain ⟨n, hInteger, hRange⟩ := Option.bind_eq_some_iff.mp hWord
      unfold Json.integer? at hInteger
      split at hInteger
      · cases hInteger
        rw [json, toInt_of_ofInt? hRange]
      · cases hInteger
    · cases h
  · rintro rfl
    exact ofJson_json address w

theorem Word.ofJson_eq_error_iff {address : Nat} {j : Json} {fault : LoadFault} :
    Word.ofJson address j = .error fault ↔
      (∀ w : Word, j ≠ w.json) ∧ fault = .badCell address j := by
  cases hRead : Word.ofJson address j with
  | ok w =>
    obtain rfl := ofJson_eq_ok_iff.mp hRead
    simp
  | error other =>
    have hNone : ∀ w : Word, j ≠ w.json := by
      rintro w rfl
      rw [ofJson_json] at hRead
      cases hRead
    have hOther : other = .badCell address j := by
      unfold ofJson at hRead
      split at hRead
      · cases hRead
      · exact (Except.error.inj hRead).symm
    rw [hOther, Except.error.injEq, eq_comm]
    exact (and_iff_right hNone).symm

-- ---------------------------------------------------------------------------
-- Lists of elements
-- ---------------------------------------------------------------------------

namespace Image

section

variable {α : Type} {read : Nat → Json → Except LoadFault α} {R : Json → α → Prop}
  {elements : List Json} {values : List α} {position : Nat}

/-- All elements are read if each of them is. -/
theorem readAll_eq_ok_iff
    (hRead : ∀ position, ∀ j ∈ elements, ∀ a, read position j = .ok a ↔ R j a) :
    readAll read position elements = .ok values ↔ List.Forall₂ R elements values := by
  induction elements generalizing position values with
  | nil =>
    rw [List.forall₂_nil_left_iff, readAll, Except.ok.injEq, eq_comm]
  | cons j rest ih =>
    obtain ⟨hFirst, hRest⟩ : (∀ position a, read position j = .ok a ↔ R j a) ∧
        ∀ position, ∀ k ∈ rest, ∀ a, read position k = .ok a ↔ R k a :=
      ⟨fun position => hRead position j List.mem_cons_self,
        fun position k hk => hRead position k (List.mem_cons_of_mem j hk)⟩
    rw [List.forall₂_cons_left_iff, readAll]
    constructor
    · intro h
      obtain ⟨a, hHere, h⟩ := exists_of_bind_eq_ok h
      obtain ⟨others, hOthers, h⟩ := exists_of_bind_eq_ok h
      cases h
      exact ⟨a, others, (hFirst position a).mp hHere, (ih hRest).mp hOthers, rfl⟩
    · rintro ⟨a, others, hHere, hOthers, rfl⟩
      rw [(hFirst position a).mpr hHere, (ih hRest).mpr hOthers]
      rfl

/-- The first element that is not read decides. -/
theorem readAll_eq_error_iff
    (hRead : ∀ position, ∀ j ∈ elements, ∀ a, read position j = .ok a ↔ R j a)
    {fault : LoadFault} :
    readAll read position elements = .error fault ↔
      ∃ before j after values, elements = before ++ j :: after ∧ List.Forall₂ R before values ∧
        read (position + values.length) j = .error fault := by
  induction elements generalizing position with
  | nil =>
    constructor
    · intro hEq
      cases hEq
    · rintro ⟨before, j, after, values, hSplit, _⟩
      exact absurd hSplit (by simp)
  | cons k rest ih =>
    have hRest : ∀ position, ∀ j ∈ rest, ∀ a, read position j = .ok a ↔ R j a :=
      fun position j hj => hRead position j (List.mem_cons_of_mem k hj)
    have hFirst := hRead position k List.mem_cons_self
    rcases hHere : read position k with e | a
    · have hAll : readAll read position (k :: rest) = .error e := by
        rw [readAll, hHere]
        rfl
      rw [hAll, Except.error.injEq]
      constructor
      · rintro rfl
        exact ⟨[], k, rest, [], rfl, .nil, hHere⟩
      · rintro ⟨before, j, after, values, hSplit, hBefore, hFault⟩
        cases hBefore with
        | nil =>
          cases hSplit
          exact Except.error.inj (hHere.symm.trans hFault)
        | cons hk _ =>
          cases hSplit
          rw [(hFirst _).mpr hk] at hHere
          cases hHere
    · have hAll : readAll read position (k :: rest) = .error fault ↔
          readAll read (position + 1) rest = .error fault := by
        rw [readAll, hHere]
        rcases readAll read (position + 1) rest with e | others
        · exact Iff.rfl
        · constructor <;> intro hEq <;> cases hEq
      rw [hAll, ih hRest]
      constructor
      · rintro ⟨before, j, after, values, rfl, hBefore, hFault⟩
        refine ⟨k :: before, j, after, a :: values, rfl, .cons ((hFirst a).mp hHere) hBefore, ?_⟩
        rwa [List.length_cons, Nat.add_comm values.length, ← Nat.add_assoc]
      · rintro ⟨before, j, after, values, hSplit, hBefore, hFault⟩
        cases hBefore with
        | nil =>
          cases hSplit
          rw [List.length_nil, Nat.add_zero, hHere] at hFault
          cases hFault
        | @cons _ _ _ others _ hOthers =>
          cases hSplit
          refine ⟨_, j, after, others, rfl, hOthers, ?_⟩
          rwa [List.length_cons, Nat.add_comm others.length, ← Nat.add_assoc] at hFault

end

theorem forall₂_ofJson_iff {cells : List Json} {data : List Word} :
    List.Forall₂ (fun j w => j = Word.json w) cells data ↔ cells = data.map Word.json := by
  rw [← List.forall₂_map_right_iff, List.forall₂_eq_eq_eq]

theorem readAll_data_eq_ok_iff {cells : List Json} {position : Nat} {data : List Word} :
    readAll Word.ofJson position cells = .ok data ↔ cells = data.map Word.json := by
  have hRead : ∀ position, ∀ j ∈ cells, ∀ w, Word.ofJson position j = .ok w ↔ j = w.json :=
    fun _ _ _ _ => Word.ofJson_eq_ok_iff
  rw [readAll_eq_ok_iff hRead, forall₂_ofJson_iff]

theorem readAll_data_eq_error_iff {cells : List Json} {fault : LoadFault} :
    readAll Word.ofJson 0 cells = .error fault ↔
      ∃ (data : List Word) (j : Json) (after : List Json),
        cells = data.map Word.json ++ j :: after ∧
        (∀ w : Word, j ≠ w.json) ∧ fault = .badCell data.length j := by
  have hRead : ∀ position, ∀ j ∈ cells, ∀ w, Word.ofJson position j = .ok w ↔ j = w.json :=
    fun _ _ _ _ => Word.ofJson_eq_ok_iff
  rw [readAll_eq_error_iff hRead]
  simp only [forall₂_ofJson_iff, Word.ofJson_eq_error_iff, Nat.zero_add]
  constructor
  · rintro ⟨_, j, after, data, hSplit, rfl, hFault⟩
    exact ⟨data, j, after, hSplit, hFault⟩
  · rintro ⟨data, j, after, hSplit, hFault⟩
    exact ⟨_, j, after, data, hSplit, rfl, hFault⟩

section

variable {records : List Json} (h : ∀ j ∈ records, j.InRange)

include h

theorem readAll_code_eq_ok_iff {position : Nat} {code : List Instruction} :
    readAll Instruction.ofJson position records = .ok code ↔
      List.Forall₂ IsRecordOf records code :=
  readAll_eq_ok_iff fun _ j hj _ => Instruction.ofJson_eq_ok_iff (h j hj)

theorem readAll_code_eq_error_iff {fault : LoadFault} :
    readAll Instruction.ofJson 0 records = .error fault ↔
      ∃ before j after code, records = before ++ j :: after ∧
        List.Forall₂ IsRecordOf before code ∧ j.RecordFault code.length fault := by
  rw [readAll_eq_error_iff fun _ j hj _ => Instruction.ofJson_eq_ok_iff (h j hj)]
  constructor
  · rintro ⟨before, j, after, code, rfl, hBefore, hFault⟩
    rw [Nat.zero_add, Instruction.ofJson_eq_error_iff (h j (by simp))] at hFault
    exact ⟨before, j, after, code, rfl, hBefore, hFault⟩
  · rintro ⟨before, j, after, code, rfl, hBefore, hFault⟩
    refine ⟨before, j, after, code, rfl, hBefore, ?_⟩
    rwa [Nat.zero_add, Instruction.ofJson_eq_error_iff (h j (by simp))]

end

-- ---------------------------------------------------------------------------
-- Arrays
-- ---------------------------------------------------------------------------

/-- The data and the code are read one after the other. -/
theorem ofElements_append (cells records : List Json) :
    ofElements (naturalJson cells.length :: (cells ++ records)) = do
      let data ← readAll Word.ofJson 0 cells
      let code ← readAll Instruction.ofJson 0 records
      return ⟨data, code⟩ := by
  have hLong : ¬ (cells ++ records).length < cells.length := by
    rw [List.length_append]
    omega
  simp only [ofElements, natural?_naturalJson, if_neg hLong, List.take_left, List.drop_left]

theorem ofElements_tooShort {length : Nat} {rest : List Json} (h : rest.length < length) :
    ofElements (naturalJson length :: rest) = .error (.tooShort length rest.length) := by
  simp only [ofElements, natural?_naturalJson, if_pos h]

theorem ofElements_badLength {head : Json} (rest : List Json) (h : head.natural? = none) :
    ofElements (head :: rest) = .error (.badLength head) := by
  simp only [ofElements, h]

/-- Unless something is wrong with the length, the elements are as many cells as it says, and
records behind them. -/
theorem cases_elements (elements : List Json) :
    elements = [] ∨ (∃ head rest, elements = head :: rest ∧ head.natural? = none) ∨
      (∃ length rest, elements = naturalJson length :: rest ∧ rest.length < length) ∨
      ∃ cells records, elements = naturalJson cells.length :: (cells ++ records) := by
  rcases elements with _ | ⟨head, rest⟩
  · exact Or.inl rfl
  refine Or.inr ?_
  rcases hLength : head.natural? with _ | length
  · exact Or.inl ⟨head, rest, rfl, hLength⟩
  obtain rfl := Json.natural?_eq_some_iff.mp hLength
  refine Or.inr ?_
  by_cases hShort : rest.length < length
  · exact Or.inl ⟨length, rest, rfl, hShort⟩
  refine Or.inr ⟨rest.take length, rest.drop length, ?_⟩
  rw [List.take_append_drop, List.length_take, Nat.min_eq_left (Nat.le_of_not_lt hShort)]

section

variable {elements : List Json} (h : ∀ j ∈ elements, j.InRange)

include h

/-- Which arrays are images. -/
theorem ofElements_eq_ok_iff {image : Image} :
    ofElements elements = .ok image ↔ image.HeldBy elements := by
  constructor
  · intro hRead
    rcases cases_elements elements with rfl | ⟨head, rest, rfl, hHead⟩ |
      ⟨length, rest, rfl, hShort⟩ | ⟨cells, records, rfl⟩
    · cases hRead
    · rw [ofElements_badLength rest hHead] at hRead
      cases hRead
    · rw [ofElements_tooShort hShort] at hRead
      cases hRead
    · rw [ofElements_append] at hRead
      obtain ⟨data, hData, hRead⟩ := exists_of_bind_eq_ok hRead
      obtain ⟨code, hCode, hRead⟩ := exists_of_bind_eq_ok hRead
      cases hRead
      obtain rfl := readAll_data_eq_ok_iff.mp hData
      have hRecords : ∀ j ∈ records, j.InRange := fun j hj => h j (by simp [hj])
      have hLength := Json.natural?_lt (h _ List.mem_cons_self) (natural?_naturalJson _)
      rw [List.length_map] at hLength ⊢
      exact ⟨hLength, records, rfl, (readAll_code_eq_ok_iff hRecords).mp hCode⟩
  · rintro ⟨_, records, rfl, hCode⟩
    have hRecords : ∀ j ∈ records, j.InRange := fun j hj => h j (by simp [hj])
    have hRead := ofElements_append (image.data.map Word.json) records
    rw [List.length_map] at hRead
    rw [List.cons_append, hRead, readAll_data_eq_ok_iff.mpr rfl,
      (readAll_code_eq_ok_iff hRecords).mpr hCode]
    rfl

/-- What is reported of an array that is no image. -/
theorem ofElements_eq_error_iff {fault : LoadFault} :
    ofElements elements = .error fault ↔ FirstFault elements fault := by
  constructor
  · intro hRead
    rcases cases_elements elements with rfl | ⟨head, rest, rfl, hHead⟩ |
      ⟨length, rest, rfl, hShort⟩ | ⟨cells, records, rfl⟩
    · cases hRead
      exact .empty
    · rw [ofElements_badLength rest hHead] at hRead
      cases hRead
      refine .badLength fun n _ hNatural => ?_
      rw [Json.natural?_eq_some_iff.mpr hNatural] at hHead
      cases hHead
    · rw [ofElements_tooShort hShort] at hRead
      cases hRead
      exact .tooShort hShort
    · rw [ofElements_append] at hRead
      rcases hData : readAll Word.ofJson 0 cells with e | data
      · rw [hData] at hRead
        cases hRead
        obtain ⟨data, j, after, rfl, hCell, rfl⟩ := readAll_data_eq_error_iff.mp hData
        rw [List.append_assoc, List.cons_append]
        exact .badCell (by simp) (by simp) hCell
      · obtain rfl := readAll_data_eq_ok_iff.mp hData
        have hRecords : ∀ j ∈ records, j.InRange := fun j hj => h j (by simp [hj])
        rcases hCode : readAll Instruction.ofJson 0 records with e | code
        · rw [hData, hCode] at hRead
          cases hRead
          obtain ⟨before, j, after, code, rfl, hBefore, hFault⟩ :=
            (readAll_code_eq_error_iff hRecords).mp hCode
          rw [List.length_map, ← List.append_assoc]
          exact .badRecord hBefore hFault
        · rw [hData, hCode] at hRead
          cases hRead
  · intro hFault
    cases hFault with
    | empty => rfl
    | @badLength head rest hHead =>
      refine ofElements_badLength rest ?_
      rcases hNatural : head.natural? with _ | n
      · rfl
      · have hLess := Json.natural?_lt (h head List.mem_cons_self) hNatural
        exact absurd (Json.natural?_eq_some_iff.mp hNatural) (hHead n hLess)
    | tooShort hShort => exact ofElements_tooShort hShort
    | @badCell length data j rest hBefore hEnough hCell =>
      -- the cells behind the bad one, as far as the length says
      obtain ⟨k, rfl⟩ := Nat.exists_eq_add_of_lt hBefore
      have hCells : data.length + k + 1 = (data.map Word.json ++ j :: rest.take k).length := by
        simp only [List.length_append, List.length_map, List.length_cons, List.length_take] at *
        omega
      have hRead := ofElements_append (data.map Word.json ++ j :: rest.take k) (rest.drop k)
      rw [← hCells, List.append_assoc, List.cons_append, List.take_append_drop,
        readAll_data_eq_error_iff.mpr ⟨data, j, _, rfl, hCell, rfl⟩] at hRead
      exact hRead
    | @badRecord data code records j rest _ hBefore hFault =>
      have hRecords : ∀ k ∈ records ++ j :: rest, k.InRange := fun k hk => h k (by
        simp only [List.mem_append, List.mem_cons] at hk ⊢
        tauto)
      have hRead := ofElements_append (data.map Word.json) (records ++ j :: rest)
      rw [List.length_map, ← List.append_assoc, readAll_data_eq_ok_iff.mpr rfl,
        (readAll_code_eq_error_iff hRecords).mpr ⟨records, j, rest, code, rfl, hBefore, hFault⟩]
        at hRead
      exact hRead

end

end Image

-- ---------------------------------------------------------------------------
-- Texts
-- ---------------------------------------------------------------------------

namespace Image

/-- A text that stands for an array is the image that the elements hold, or else has the first fault
of the elements; a fault of a record is reported of that record. -/
theorem ofText_accepts_or_faults {text : String} {elements : List Json}
    (h : Json.ofText? text.toList = some (.array elements)) :
    (∀ image, ofText text = .ok image ↔ image.HeldBy elements) ∧
    (∀ fault, ofText text = .error fault ↔ FirstFault elements fault) ∧
    ∀ (position : Nat) (j : Json) (fault : LoadFault),
      j.RecordFault position fault → fault.Blames position j := by
  have hRange : ∀ j ∈ elements, j.InRange := by
    cases Json.inRange_of_ofText? h with
    | array hItems => exact hItems
  have hRead : ofText text = ofElements elements := by rw [ofText, h]
  rw [hRead]
  exact ⟨fun _ => ofElements_eq_ok_iff hRange, fun _ => ofElements_eq_error_iff hRange,
    fun _ _ _ hFault => hFault.blames⟩

/-- The second data word is one too big, and what follows it is no record. -/
theorem ofText_accepts_or_faults_cell :
    let text := "[2, -2147483648, 2147483648, 7]"
    let elements : List Json := [naturalJson 2, Word.json (-2147483648),
      .number (.integer 2147483648), naturalJson 7]
    Json.ofText? text.toList = some (.array elements) ∧
      ofText text = .error (.badCell 1 (.number (.integer 2147483648))) := by
  intro text elements
  have hSpelled : ∀ p ∈ [((toString 2).toList, naturalJson 2),
      ((Word.render (-2147483648)).toList, Word.json (-2147483648)),
      ((toString (2147483648 : Int)).toList, .number (.integer 2147483648)),
      ((toString 7).toList, naturalJson 7)], Json.Spells 0 p.1 p.2 := by
    simp only [List.forall_mem_cons]
    exact ⟨spells_naturalJson (by decide), Word.spells_json _,
      Json.spells_integer ⟨by decide, by decide⟩,
      spells_naturalJson (by decide), fun _ hp => absurd hp List.not_mem_nil⟩
  have hGaps : ∀ c ∈ [' '], Json.isGap c = true := List.all_eq_true.mp rfl
  have hChars : text.toList = '[' :: [',', ' '].intercalate [(toString 2).toList,
      (Word.render (-2147483648)).toList, (toString (2147483648 : Int)).toList,
      (toString 7).toList] ++ [']'] := by decide
  have hText : Json.ofText? text.toList = some (.array elements) := by
    rw [hChars]
    exact Json.ofText?_of_spells (Json.spells_array hGaps hSpelled) (by decide)
  have hCell : ∀ w : Word, Json.number (.integer 2147483648) ≠ w.json := by
    intro w hWord
    have hLess := Int32.toInt_lt w
    injection hWord with hNumber
    injection hNumber with hInt
    omega
  refine ⟨hText, ((ofText_accepts_or_faults hText).2.1 _).mpr ?_⟩
  exact @FirstFault.badCell 2 [-2147483648] _ _ (by decide) (by decide) hCell

end Image

end StackProcessor
