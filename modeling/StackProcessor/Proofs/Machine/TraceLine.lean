import Mathlib
import StackProcessor.Machine.Snapshot
import StackProcessor.Proofs.Assembly.Literals
import StackProcessor.Proofs.Text.Column

/-!
# StackProcessor — what a trace line tells

`Snapshot.render` shows the registers in columns. A column has only a least width, its blanks may
stand on either side of the value, and a `-` is a minus sign in some places and stands for a missing
value in others. Still each value is written as a token that ends at the next blank
(`Text.Presents`), and the token tells the value (`Text.Readable`). So a line can be read from left
to right, column by column, and a snapshot is determined by its line.

## Results
- `Word.renderList_injective` : words between brackets tell the list.
- `Snapshot.readable_renderTop` : the column of the top, whether there is one or not.
- `Snapshot.render_eq_iff` : `a.render = b.render ↔ a = b`, and a list of lines tells the list of
  snapshots.
-/

namespace StackProcessor

open Assembly.IntegerLiteral (notMem_toString exists_isDigit_mem_toString)

-- ---------------------------------------------------------------------------
-- Numerals
-- ---------------------------------------------------------------------------

theorem toList_toString_ne_nil (v : Int) : (toString v).toList ≠ [] := by
  obtain ⟨d, hMem, -⟩ := exists_isDigit_mem_toString v
  exact List.ne_nil_of_mem hMem

theorem readable_int : Text.Readable fun v : Int => toString v :=
  .of_tokens toList_toString_ne_nil (fun v => notMem_toString v (by decide) (by decide))
    fun _ _ hEq => Int.repr_inj.mp hEq

theorem readable_nat : Text.Readable fun n : Nat => toString n :=
  readable_int.comp Int.ofNat_injective

theorem Word.render_injective : Function.Injective Word.render :=
  fun _ _ hEq => Int32.toInt_inj.mp (Int.repr_inj.mp hEq)

theorem Word.readable_render : Text.Readable Word.render :=
  readable_int.comp fun _ _ hEq => Int32.toInt_inj.mp hEq

-- ---------------------------------------------------------------------------
-- Lists of words
-- ---------------------------------------------------------------------------

theorem Word.renderList_injective : Function.Injective Word.renderList := by
  intro ws ws' hEq
  have hWords : ∀ us : List Word, ∀ text ∈ us.map fun w => w.render.toList,
      text ≠ [] ∧ ',' ∉ text := by
    intro us text hMem
    obtain ⟨w, -, rfl⟩ := List.mem_map.mp hMem
    exact ⟨toList_toString_ne_nil w.toInt, notMem_toString w.toInt (by decide) (by decide)⟩
  have hTexts : [',', ' '].intercalate (ws.map fun w => w.render.toList) =
      [',', ' '].intercalate (ws'.map fun w => w.render.toList) := by
    have hBrackets := congrArg String.toList hEq
    simp only [renderList, String.toList_append, List.append_assoc, String.toList_intercalate,
      List.map_map] at hBrackets
    exact List.append_cancel_right (List.append_cancel_left hBrackets)
  refine List.map_injective_iff.mpr ?_ (Text.intercalate_inj (hWords ws) (hWords ws') hTexts)
  exact fun _ _ hRender => Word.render_injective (String.toList_inj.mp hRender)

-- ---------------------------------------------------------------------------
-- Snapshots
-- ---------------------------------------------------------------------------

namespace Opcode

theorem name_injective : Function.Injective name := by
  have hFind : ∀ op : Opcode, all.find? (fun other => other.name == op.name) = some op := by
    intro op
    cases op <;> rfl
  intro a b hEq
  have hSame := hFind a
  rw [hEq, hFind b] at hSame
  exact (Option.some.inj hSame).symm

end Opcode

namespace Snapshot

/-- What stands for the opcode in a line. -/
def opcodeText (opcode : Option Opcode) : String := (opcode.map Opcode.name).getD "-"

theorem readable_opcodeText : Text.Readable opcodeText := by
  refine .of_tokens ?_ ?_ ?_
  · rintro (_ | op)
    · decide
    · cases op <;> decide
  · rintro (_ | op)
    · decide
    · cases op <;> decide
  · have hMissing : ∀ op : Opcode, op.name ≠ "-" := by
      intro op
      cases op <;> decide
    rintro (_ | a) (_ | b) hEq
    · rfl
    · exact absurd hEq.symm (hMissing b)
    · exact absurd hEq (hMissing a)
    · exact congrArg some (Opcode.name_injective hEq)

/-- The token of the top of the stack. -/
def topToken (top : Option Word) : List Char := ((top.map Word.render).getD "-").toList

theorem presents_renderTop (top : Option Word) : Text.Presents (renderTop top) (topToken top) := by
  cases top with
  | none => exact .of_token (by decide) (by decide)
  | some w =>
    have hSome : w.render.toList ≠ [] := toList_toString_ne_nil w.toInt
    have hBlank : ' ' ∉ w.render.toList := notMem_toString w.toInt (by decide) (by decide)
    -- the blank in the place of a sign is one more in front of the token
    by_cases hNonneg : 0 ≤ w
    · refine ⟨hSome, hBlank, 1, 0, ?_⟩
      rw [renderTop, if_pos hNonneg, String.toList_append]
      exact congrArg (' ' :: ·) (List.append_nil _).symm
    · rw [renderTop, if_neg hNonneg]
      exact .of_token hSome hBlank

theorem readable_renderTop : Text.Readable renderTop := by
  refine ⟨topToken, presents_renderTop, ?_⟩
  have hMissing : ∀ w : Word, w.render.toList ≠ ['-'] := by
    intro w hEq
    obtain ⟨d, hMem, hDigit⟩ := exists_isDigit_mem_toString w.toInt
    have hMinus : d ∈ ['-'] := hEq ▸ hMem
    rw [List.mem_singleton.mp hMinus] at hDigit
    cases hDigit
  rintro (_ | v) (_ | w) hEq
  · rfl
  · exact absurd hEq.symm (hMissing w)
  · exact absurd hEq (hMissing v)
  · exact congrArg some (Word.render_injective (String.toList_inj.mp hEq))

theorem toList_render (s : Snapshot) :
    s.render.toList = "TICK: ".toList ++ ((Text.flushRight 4 (toString s.tick)).toList ++
      ' ' :: ((Text.flushLeft 10 (opcodeText s.opcode)).toList ++
      ' ' :: ("PC: ".toList ++ ((Text.flushRight 3 (toString s.pc)).toList ++
      ' ' :: ("DA: ".toList ++ ((Text.flushRight 3 s.address.render).toList ++
      ' ' :: ("SP: ".toList ++ ((Text.flushRight 2 (toString s.stackPointer)).toList ++
      ' ' :: ("TOS: ".toList ++ ((Text.flushRight 3 (renderTop s.top)).toList ++
      ' ' :: ("Stack: ".toList ++ (Word.renderList s.window).toList))))))))))) := by
  simp only [render, String.toList_append, List.append_assoc]
  rfl

theorem eq_of_render_eq {a b : Snapshot} (h : a.render = b.render) : a = b := by
  have hText : a.render.toList = b.render.toList := congrArg _ h
  rw [toList_render, toList_render] at hText
  -- the lines begin alike, and each column that is told leaves two lines that begin alike
  obtain ⟨hTick, hText⟩ := (readable_nat.flushRight 4).append_inj (List.append_cancel_left hText)
  obtain ⟨hOpcode, hText⟩ := (readable_opcodeText.flushLeft 10).append_inj hText
  obtain ⟨hPc, hText⟩ := (readable_nat.flushRight 3).append_inj (List.append_cancel_left hText)
  obtain ⟨hAddress, hText⟩ :=
    (Word.readable_render.flushRight 3).append_inj (List.append_cancel_left hText)
  obtain ⟨hPointer, hText⟩ := (readable_int.flushRight 2).append_inj (List.append_cancel_left hText)
  obtain ⟨hTop, hText⟩ :=
    (readable_renderTop.flushRight 3).append_inj (List.append_cancel_left hText)
  have hWindow := Word.renderList_injective
    (String.toList_inj.mp (List.append_cancel_left hText))
  cases a
  cases b
  exact (mk.injEq ..).mpr ⟨hTick, hOpcode, hPc, hAddress, hPointer, hTop, hWindow⟩

theorem render_injective : Function.Injective render := fun _ _ => eq_of_render_eq

/-- **Trace lines.** A line tells the snapshot that it shows, however wide its values are, and the
lines of a trace tell all its snapshots. -/
theorem render_eq_iff (a b : Snapshot) (trace trace' : List Snapshot) :
    (a.render = b.render ↔ a = b) ∧
    (trace.map render = trace'.map render ↔ trace = trace') :=
  ⟨render_injective.eq_iff, (List.map_injective_iff.mpr render_injective).eq_iff⟩

example : render ⟨12345, some .push2, 1, -2, 0, some (-100), [42, -1]⟩ =
    "TICK: 12345 PUSH2      PC:   1 DA:  -2 SP:  0 TOS: -100 Stack: [42, -1]" := by rfl

end Snapshot

end StackProcessor
