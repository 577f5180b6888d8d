import Mathlib.Data.List.Basic
import StackProcessor.Text.Column
import StackProcessor.Proofs.Assembly.Tokens
import StackProcessor.Proofs.Json.Spelling

/-!
# StackProcessor — reading columns and lists

A text in columns can be read from left to right if each column holds one token, which has no blank
inside: the token goes on up to the next blank, on whichever side of it its column is filled up.
`Presents s token` says this of one text, and `Readable write` of a way to write values, whose
tokens tell the values apart. The texts of a list can be told apart if none of them is empty or
holds the character that separates them.

## Results
- `Text.Readable.flushRight`, `Text.Readable.flushLeft` : a value can be told from its column,
  whatever the width.
- `Text.Readable.append_inj` : it can be told whatever follows behind a blank, and so can that.
- `Text.intercalate_inj` : a list can be told from its texts with separators between them.
-/

namespace StackProcessor

-- ---------------------------------------------------------------------------
-- Tokens between blanks
-- ---------------------------------------------------------------------------

namespace Text

/-- What stands in front of the first `c` is determined, and so is what stands behind it. -/
theorem append_cons_inj {c : Char} {front front' rest rest' : List Char} (h : c ∉ front)
    (h' : c ∉ front') (hEq : front ++ c :: rest = front' ++ c :: rest') :
    front = front' ∧ rest = rest' := by
  have hCut : ∀ xs ys : List Char, c ∉ xs → (xs ++ c :: ys).takeWhile (· != c) = xs := by
    intro xs ys hNot
    refine Assembly.takeWhile_append_of_stop (fun x hMem => ?_) (by simp)
    exact bne_iff_ne.mpr (ne_of_mem_of_not_mem hMem hNot)
  have hFront := congrArg (List.takeWhile (· != c)) hEq
  rw [hCut _ _ h, hCut _ _ h'] at hFront
  subst hFront
  exact ⟨rfl, (List.cons.inj (List.append_cancel_left hEq)).2⟩

/-- The text is a token, which holds no blank, with blanks around it. -/
structure Presents (s : String) (token : List Char) : Prop where
  ne_nil : token ≠ []
  blank_notMem : ' ' ∉ token
  eq : ∃ before behind,
    s.toList = List.replicate before ' ' ++ (token ++ List.replicate behind ' ')

/-- The values are written as tokens that tell them apart. -/
def Readable {α : Type} (write : α → String) : Prop :=
  ∃ token : α → List Char, (∀ a, Presents (write a) (token a)) ∧ Function.Injective token

theorem toList_filling (width : Nat) (s : String) :
    (filling width s).toList = List.replicate (width - s.length) ' ' := by
  rw [filling, String.toList_ofList]

section

variable {s s' : String} {token token' : List Char}

theorem Presents.of_token (hSome : s.toList ≠ []) (hBlank : ' ' ∉ s.toList) :
    Presents s s.toList :=
  ⟨hSome, hBlank, 0, 0, (List.append_nil _).symm⟩

theorem Presents.flushRight (h : Presents s token) (width : Nat) :
    Presents (Text.flushRight width s) token := by
  obtain ⟨before, behind, hText⟩ := h.eq
  refine ⟨h.ne_nil, h.blank_notMem, width - s.length + before, behind, ?_⟩
  rw [Text.flushRight, String.toList_append, toList_filling, hText, ← List.append_assoc,
    List.replicate_append_replicate]

theorem Presents.flushLeft (h : Presents s token) (width : Nat) :
    Presents (Text.flushLeft width s) token := by
  obtain ⟨before, behind, hText⟩ := h.eq
  refine ⟨h.ne_nil, h.blank_notMem, before, behind + (width - s.length), ?_⟩
  rw [Text.flushLeft, String.toList_append, toList_filling, hText, List.append_assoc,
    List.append_assoc, List.replicate_append_replicate]

/-- Behind the blanks in front of it, the token ends at the next blank. -/
theorem Presents.exists_dropWhile (h : Presents s token) (rest : List Char) :
    ∃ tail, (s.toList ++ ' ' :: rest).dropWhile (· == ' ') = token ++ ' ' :: tail := by
  obtain ⟨before, behind, hText⟩ := h.eq
  refine ⟨List.replicate behind ' ' ++ rest, ?_⟩
  have hBehind : List.replicate behind ' ' ++ ' ' :: rest =
      ' ' :: (List.replicate behind ' ' ++ rest) := by
    rw [List.append_cons, ← List.replicate_succ', List.replicate_succ, List.cons_append]
  have hFirst : ∀ c ∈ (token ++ ' ' :: (List.replicate behind ' ' ++ rest)).head?,
      (c == ' ') = false := by
    obtain ⟨first, others, rfl⟩ := List.exists_cons_of_ne_nil h.ne_nil
    intro c hHead
    cases hHead
    exact beq_false_of_ne (ne_of_mem_of_not_mem List.mem_cons_self h.blank_notMem)
  rw [hText, List.append_assoc, List.append_assoc, hBehind]
  exact Assembly.dropWhile_append_of_stop
    (fun c hMem => beq_iff_eq.mpr (List.eq_of_mem_replicate hMem)) hFirst

theorem Presents.token_eq (h : Presents s token) (h' : Presents s' token') {rest rest' : List Char}
    (hEq : s.toList ++ ' ' :: rest = s'.toList ++ ' ' :: rest') : token = token' := by
  obtain ⟨tail, hTail⟩ := h.exists_dropWhile rest
  obtain ⟨tail', hTail'⟩ := h'.exists_dropWhile rest'
  have hTokens := congrArg (List.dropWhile (· == ' ')) hEq
  rw [hTail, hTail'] at hTokens
  exact (append_cons_inj h.blank_notMem h'.blank_notMem hTokens).1

end

namespace Readable

variable {α β : Type} {write : α → String}

theorem of_tokens (hSome : ∀ a, (write a).toList ≠ []) (hBlank : ∀ a, ' ' ∉ (write a).toList)
    (hInjective : Function.Injective write) : Readable write :=
  ⟨fun a => (write a).toList, fun a => .of_token (hSome a) (hBlank a),
    fun _ _ hEq => hInjective (String.toList_inj.mp hEq)⟩

theorem flushRight (h : Readable write) (width : Nat) :
    Readable fun a => Text.flushRight width (write a) := by
  obtain ⟨token, hPresents, hInjective⟩ := h
  exact ⟨token, fun a => (hPresents a).flushRight width, hInjective⟩

theorem flushLeft (h : Readable write) (width : Nat) :
    Readable fun a => Text.flushLeft width (write a) := by
  obtain ⟨token, hPresents, hInjective⟩ := h
  exact ⟨token, fun a => (hPresents a).flushLeft width, hInjective⟩

/-- What depends on a value in a one-to-one way can be written in its place. -/
theorem comp (h : Readable write) {f : β → α} (hf : Function.Injective f) :
    Readable fun b => write (f b) := by
  obtain ⟨token, hPresents, hInjective⟩ := h
  exact ⟨fun b => token (f b), fun b => hPresents (f b), hInjective.comp hf⟩

/-- A value and a blank behind it can be told from what they are the front of. -/
theorem append_inj (h : Readable write) {a b : α} {rest rest' : List Char}
    (hEq : (write a).toList ++ ' ' :: rest = (write b).toList ++ ' ' :: rest') :
    a = b ∧ rest = rest' := by
  obtain ⟨token, hPresents, hInjective⟩ := h
  obtain rfl := hInjective ((hPresents a).token_eq (hPresents b) hEq)
  exact ⟨rfl, (List.cons.inj (List.append_cancel_left hEq)).2⟩

end Readable

-- ---------------------------------------------------------------------------
-- Lists of texts
-- ---------------------------------------------------------------------------

section Separators

variable {c : Char} {tail : List Char}

/-- With a separator behind each of them, texts can be told apart if none of them holds the
character that the separator begins with. -/
theorem eq_of_flatMap_eq {texts texts' : List (List Char)} (h : ∀ text ∈ texts, c ∉ text)
    (h' : ∀ text ∈ texts', c ∉ text)
    (hEq : texts.flatMap (· ++ c :: tail) = texts'.flatMap (· ++ c :: tail)) :
    texts = texts' := by
  induction texts generalizing texts' with
  | nil =>
    cases texts' with
    | nil => rfl
    | cons text' rest' => simp at hEq
  | cons text rest ih =>
    cases texts' with
    | nil => simp at hEq
    | cons text' rest' =>
      obtain ⟨hText, hRest⟩ := List.forall_mem_cons.mp h
      obtain ⟨hText', hRest'⟩ := List.forall_mem_cons.mp h'
      simp only [List.flatMap_cons, List.append_assoc, List.cons_append] at hEq
      obtain ⟨rfl, hBehind⟩ := append_cons_inj hText hText' hEq
      rw [ih hRest hRest' (List.append_cancel_left hBehind)]

theorem intercalate_append_eq_flatMap (separator : List Char) {texts : List (List Char)}
    (hSome : texts ≠ []) :
    separator.intercalate texts ++ separator = texts.flatMap (· ++ separator) := by
  induction texts with
  | nil => exact absurd rfl hSome
  | cons text rest ih =>
    cases rest with
    | nil => simp
    | cons next others =>
      rw [List.intercalate_cons_cons, List.append_assoc, List.append_assoc,
        ih (List.cons_ne_nil next others)]
      simp only [List.flatMap_cons, List.append_assoc]

theorem eq_nil_of_intercalate_eq_nil {separator : List Char} {texts : List (List Char)}
    (h : ∀ text ∈ texts, text ≠ []) (hNil : separator.intercalate texts = []) : texts = [] := by
  cases texts with
  | nil => rfl
  | cons text rest =>
    rw [Json.intercalate_cons_eq_append_flatMap] at hNil
    exact absurd (List.append_eq_nil_iff.mp hNil).1 (h text List.mem_cons_self)

/-- Without one behind the last of them, it is enough that none of them is empty. -/
theorem intercalate_inj {texts texts' : List (List Char)}
    (h : ∀ text ∈ texts, text ≠ [] ∧ c ∉ text) (h' : ∀ text ∈ texts', text ≠ [] ∧ c ∉ text)
    (hEq : (c :: tail).intercalate texts = (c :: tail).intercalate texts') : texts = texts' := by
  rcases eq_or_ne texts [] with rfl | hSome
  · exact (eq_nil_of_intercalate_eq_nil (fun text hMem => (h' text hMem).1) hEq.symm).symm
  rcases eq_or_ne texts' [] with rfl | hSome'
  · exact eq_nil_of_intercalate_eq_nil (fun text hMem => (h text hMem).1) hEq
  · have hSeparated : texts.flatMap (· ++ c :: tail) = texts'.flatMap (· ++ c :: tail) := by
      rw [← intercalate_append_eq_flatMap _ hSome, ← intercalate_append_eq_flatMap _ hSome', hEq]
    exact eq_of_flatMap_eq (fun text hMem => (h text hMem).2) (fun text hMem => (h' text hMem).2)
      hSeparated

end Separators

end Text

end StackProcessor
