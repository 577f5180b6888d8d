import Mathlib
import StackProcessor.Simulation.Display
import StackProcessor.Proofs.Assembly.Literals

/-!
# StackProcessor — what the text of an output shows

The text of an output goes to a terminal, and a program may send any words. A word is shown as a
character only if it is the code of one that does no harm there (`Displayable`: below 256, not zero,
and no control code but tab and the line ends). Every other word is shown as its shortest decimal
numeral, which is harmless too. `Shows` states this of one word, as a relation between the word and
what is shown. So no output reaches the terminal with a control character besides tabs and line
ends, and a text without such characters is shown as it is.

## Results
- `Display.character?_eq` : which words are shown as characters.
- `Display.shows_renderWord` : what a word is shown as.
- `Display.renderOutput_displayable` : the text of an output is harmless and true to it.
-/

namespace StackProcessor

open Assembly

namespace Display

-- ---------------------------------------------------------------------------
-- Characters and numerals
-- ---------------------------------------------------------------------------

/-- The codes of control characters. -/
def IsControlCode (code : Int) : Prop := (0 ≤ code ∧ code ≤ 0x1F) ∨ (0x7F ≤ code ∧ code ≤ 0x9F)

/-- The codes of characters that may be shown. Among them are no control characters but the tab,
the line feed and the carriage return. -/
def Displayable (code : Int) : Prop :=
  1 ≤ code ∧ code ≤ 255 ∧ (IsControlCode code → code = 9 ∨ code = 10 ∨ code = 13)

instance (code : Int) : Decidable (IsControlCode code) := inferInstanceAs (Decidable (_ ∨ _))

instance (code : Int) : Decidable (Displayable code) := inferInstanceAs (Decidable (_ ∧ _ ∧ _))

/-- What a word is shown as: the character with this code, if it may be shown, and otherwise a
numeral. -/
inductive Shows (w : Word) : List Char → Prop where
  | character {c : Char} : Displayable w.toInt → c.toNat = w.toInt → Shows w [c]
  | numeral {n : IntegerLiteral} :
    ¬Displayable w.toInt → n.IsShortest → n.value = w.toInt → Shows w n.spelling

theorem displayable_iff (w : Word) :
    (0 < w ∧ w < 256 ∧ (isControl w.toInt.toNat = false ∨ isLayout w.toInt.toNat = true)) ↔
      Displayable w.toInt := by
  have hZero : (0 : Word).toInt = 0 := rfl
  have hEnd : (256 : Word).toInt = 256 := rfl
  rw [Int32.lt_iff_toInt_lt, Int32.lt_iff_toInt_lt, hZero, hEnd]
  -- for a negative word the code is zero, but then the word itself is out of range
  simp only [isControl, isLayout, Displayable, IsControlCode, Bool.or_eq_false_iff,
    Bool.and_eq_false_iff, Bool.or_eq_true, decide_eq_false_iff_not, beq_iff_eq]
  omega

theorem character?_eq (w : Word) :
    character? w = if Displayable w.toInt then some (Char.ofNat w.toInt.toNat) else none := by
  simp only [character?, displayable_iff]

theorem toNat_ofNat_of_displayable {code : Int} (h : Displayable code) :
    (Char.ofNat code.toNat).toNat = code := by
  obtain ⟨hLeast, hGreatest, -⟩ := h
  rw [Char.toNat_ofNat, if_pos]
  · omega
  · unfold Nat.isValidChar
    omega

-- ---------------------------------------------------------------------------
-- One word
-- ---------------------------------------------------------------------------

theorem renderWord_of_displayable {w : Word} (h : Displayable w.toInt) :
    renderWord w = String.singleton (Char.ofNat w.toInt.toNat) := by
  rw [renderWord, character?_eq, if_pos h]

theorem renderWord_of_not_displayable {w : Word} (h : ¬Displayable w.toInt) :
    renderWord w = w.render := by
  rw [renderWord, character?_eq, if_neg h]

theorem shows_renderWord (w : Word) : Shows w (renderWord w).toList := by
  by_cases hShown : Displayable w.toInt
  · rw [renderWord_of_displayable hShown, String.toList_singleton]
    exact .character hShown (toNat_ofNat_of_displayable hShown)
  · rw [renderWord_of_not_displayable hShown, Word.render, ← IntegerLiteral.spelling_ofInt]
    exact .numeral hShown (IntegerLiteral.isShortest_ofInt _) (IntegerLiteral.value_ofInt _)

/-- The word of a character that may be shown is shown as the character. -/
theorem renderWord_ofChar {c : Char} (h : Displayable c.toNat) :
    renderWord (Word.ofChar c) = String.singleton c := by
  have hCode := Word.toInt_ofChar c
  rw [renderWord_of_displayable (hCode ▸ h), hCode, Int.toNat_natCast, Char.ofNat_toNat]

/-- Numerals tell words apart. -/
theorem renderWord_inj {w w' : Word} (hw : ¬Displayable w.toInt) (hw' : ¬Displayable w'.toInt) :
    renderWord w = renderWord w' ↔ w = w' := by
  rw [renderWord_of_not_displayable hw, renderWord_of_not_displayable hw', ← Int32.toInt_inj]
  exact Int.repr_inj

theorem displayable_of_mem_spelling {n : IntegerLiteral} (h : n.IsShortest) {c : Char}
    (hMem : c ∈ n.spelling) : Displayable c.toNat := by
  rcases h.eq_minus_or_isDigit hMem with rfl | hDigit
  · decide
  · have hLeast : 48 ≤ c.toNat := (Char.isDigit_iff_toNat.mp hDigit).1
    have hGreatest : c.toNat ≤ 57 := (Char.isDigit_iff_toNat.mp hDigit).2
    unfold Displayable IsControlCode
    omega

theorem Shows.displayable {w : Word} {text : List Char} (h : Shows w text) :
    ∀ c ∈ text, Displayable c.toNat := by
  intro c hMem
  cases h with
  | character hShown hCode =>
    rw [List.mem_singleton.mp hMem, hCode]
    exact hShown
  | numeral _ hShortest _ => exact displayable_of_mem_spelling hShortest hMem

-- ---------------------------------------------------------------------------
-- All words
-- ---------------------------------------------------------------------------

theorem toList_renderOutput (output : List Word) :
    (renderOutput output).toList = (output.map fun w => (renderWord w).toList).flatten := by
  rw [renderOutput, String.toList_join, List.flatMap_map, ← List.flatMap_def]

theorem renderOutput_singleton (w : Word) : renderOutput [w] = renderWord w := by
  rw [← String.toList_inj, toList_renderOutput]
  simp

theorem displayable_of_mem_renderOutput {output : List Word} {c : Char}
    (h : c ∈ (renderOutput output).toList) : Displayable c.toNat := by
  rw [toList_renderOutput, ← List.flatMap_def] at h
  obtain ⟨w, -, hMem⟩ := List.mem_flatMap.mp h
  exact (shows_renderWord w).displayable c hMem

theorem renderOutput_ofChar {text : String} (h : ∀ c ∈ text.toList, Displayable c.toNat) :
    renderOutput (text.toList.map Word.ofChar) = text := by
  have hChars : ∀ c ∈ text.toList, (renderWord (Word.ofChar c)).toList = [c] := by
    intro c hMem
    rw [renderWord_ofChar (h c hMem), String.toList_singleton]
  rw [← String.toList_inj, toList_renderOutput, List.map_map, ← List.flatMap_def]
  exact (List.flatMap_congr hChars).trans (List.flatMap_singleton' _)

theorem forall₂_shows (output : List Word) :
    List.Forall₂ Shows output (output.map fun w => (renderWord w).toList) :=
  List.forall₂_map_right_iff.mpr (List.forall₂_same.mpr fun w _ => shows_renderWord w)

/-- **The text of an output.** It holds no control characters besides tabs and line ends, and
nothing beyond Latin-1; a text without others is shown as it is. Each word is shown as a character
or as a numeral, one behind the other, and words that are not shown as characters are not shown
alike. -/
theorem renderOutput_displayable (output : List Word) (text : String) (w w' : Word) :
    (∀ c ∈ (renderOutput output).toList, Displayable c.toNat) ∧
    ((∀ c ∈ text.toList, Displayable c.toNat) →
      renderOutput (text.toList.map Word.ofChar) = text) ∧
    (∃ pieces, List.Forall₂ Shows output pieces ∧
      (renderOutput output).toList = pieces.flatten) ∧
    (¬Displayable w.toInt → ¬Displayable w'.toInt →
      (renderOutput [w] = renderOutput [w'] ↔ w = w')) := by
  refine ⟨fun c => displayable_of_mem_renderOutput, renderOutput_ofChar,
    ⟨_, forall₂_shows output, toList_renderOutput output⟩, ?_⟩
  intro hw hw'
  rw [renderOutput_singleton, renderOutput_singleton, renderWord_inj hw hw']

theorem renderOutput_displayable_escape :
    'A' ∈ (renderOutput [27, 65]).toList ∧ Displayable 'A'.toNat ∧
    (∀ c ∈ "é\n".toList, Displayable c.toNat) ∧
    renderOutput ("é\n".toList.map Word.ofChar) = "é\n" ∧
    ¬Displayable (27 : Word).toInt ∧ ¬Displayable (-1 : Word).toInt ∧
    (renderOutput [27] = renderOutput [-1] ↔ (27 : Word) = -1) := by
  have hMem : 'A' ∈ (renderOutput [27, 65]).toList := by
    rw [toList_renderOutput]
    decide
  have hText : ∀ c ∈ "é\n".toList, Displayable c.toNat := by
    simp [Displayable, IsControlCode]
  have hEscape : ¬Displayable (27 : Word).toInt := by decide
  have hNegative : ¬Displayable (-1 : Word).toInt := by decide
  have hRendered := renderOutput_displayable [27, 65] "é\n" 27 (-1)
  exact ⟨hMem, hRendered.1 'A' hMem, hText, hRendered.2.1 hText, hEscape, hNegative,
    hRendered.2.2.2 hEscape hNegative⟩

end Display

end StackProcessor
