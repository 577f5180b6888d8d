import StackProcessor.Proofs.Assembly.Grammar

/-!
# StackProcessor — readers keep to the line

The readers of tokens and statements are given whatever is left of a text, with all the lines that
follow. What keeps them on the line is in their own tests: `isNameChar` and `Char.isDigit` fail at a
line end, and `dropComment` and `readText` look out for `isLineEnd`. So a reader gives the same at
the front of `line ++ behind` as at the front of `line`, if `behind` begins with a line end or is
empty, and it leaves `behind` untouched behind what it leaves of `line`: `KeepsToLine`.

The property is proved of each token from the description of its reader (`Token.Begins` for names,
integers, texts and colons), and carried through the combinations that statements are made of: one
reader behind the gap that another one leaves, and the first of two readers that fits.

## Results
- `skip_line_append` : a gap and a comment end with the line.
- `Token.Begins.of_line_append` : a token at the front of a text is one of its first line.
- `keepsToLine_readStatement` : a statement is read from its own line.
-/

namespace StackProcessor.Assembly

-- ---------------------------------------------------------------------------
-- The end of a line
-- ---------------------------------------------------------------------------

/-- What may stand behind a line of a text: nothing, or a line end and more. -/
def EndsLine (behind : List Char) : Prop := ∀ c ∈ behind.head?, isLineEnd c = true

theorem endsLine_nil : EndsLine [] := nofun

theorem endsLine_cons {c : Char} (h : isLineEnd c = true) (rest : List Char) :
    EndsLine (c :: rest) := by
  intro d hd
  cases hd
  exact h

theorem EndsLine.opens {behind : List Char} (h : EndsLine behind) : Opens behind := by
  intro c hc
  rcases isLineEnd_iff.mp (h c hc) with rfl | rfl <;> decide

theorem EndsLine.stops {behind : List Char} (h : EndsLine behind) : Stops behind := by
  intro c hc
  rcases isLineEnd_iff.mp (h c hc) with rfl | rfl <;> decide

theorem isLineEnd_of_isNameChar {c : Char} (h : isNameChar c = true) : isLineEnd c = false := by
  by_contra hEnd
  rw [Bool.not_eq_false, isLineEnd_iff] at hEnd
  rcases hEnd with rfl | rfl <;> exact absurd h (by decide)

theorem onOneLine_of_isNameChar {cs : List Char} (h : ∀ c ∈ cs, isNameChar c = true) :
    OnOneLine cs :=
  fun c hc => isLineEnd_of_isNameChar (h c hc)

section

variable {line behind : List Char} (hEnd : EndsLine behind)

include hEnd

/-- A gap and a comment end with the line. -/
theorem skip_line_append (hLine : OnOneLine line) :
    skip (line ++ behind) = skip line ++ behind := by
  rcases skip_cases hLine with ⟨hTrailer, hNil⟩ | ⟨gap, hGap, hSplit, hOpens, _⟩
  · rw [hNil, List.nil_append]
    cases hTrailer with
    | gap hGap => exact skip_append hGap hEnd.opens
    | @comment gap comment hGap =>
      have hStop : ∀ c ∈ (';' :: (comment ++ behind)).head?, isGap c = false := by
        intro c hc
        cases hc
        rfl
      have hInside : ∀ c ∈ comment, (!isLineEnd c) = true := fun c hc => by
        rw [hLine.of_append.of_cons.2 c hc]
        rfl
      have hOutside : ∀ c ∈ behind.head?, (!isLineEnd c) = false := fun c hc => by
        rw [hEnd c hc]
        rfl
      rw [List.append_assoc, List.cons_append, skip, dropWhile_append_of_stop hGap hStop]
      exact dropWhile_append_of_stop hInside hOutside
  · -- something stands on the line, and nothing behind it is looked at
    have hOpens' : Opens (skip line ++ behind) := (forall_head?_append hEnd.opens).mpr hOpens
    conv_lhs => rw [hSplit, List.append_assoc]
    exact skip_append hGap hOpens'

/-- Characters without a line end at the front of a text are those at the front of its line. -/
theorem exists_rest_of_append {spelling rest : List Char} (hSpelling : OnOneLine spelling)
    (h : line ++ behind = spelling ++ rest) :
    ∃ left, rest = left ++ behind ∧ line = spelling ++ left := by
  rcases List.append_eq_append_iff.mp h with ⟨excess, hExcess, hBehind⟩ | ⟨left, hLine, hRest⟩
  · -- the characters would go over the line end
    cases excess with
    | nil =>
      rw [List.append_nil] at hExcess
      exact ⟨[], by rw [List.nil_append, hBehind, List.nil_append], by
        rw [List.append_nil, hExcess]⟩
    | cons c excess =>
      have hIn : isLineEnd c = false :=
        hSpelling c (hExcess ▸ List.mem_append_right line List.mem_cons_self)
      have hOut : isLineEnd c = true := hEnd c (by rw [hBehind]; rfl)
      exact absurd (hIn.symm.trans hOut) Bool.false_ne_true
  · exact ⟨left, hRest, hLine⟩

-- ---------------------------------------------------------------------------
-- Tokens
-- ---------------------------------------------------------------------------

/-- A token at the front of a text is one of its first line. -/
theorem Token.Begins.of_line_append {t : Token} {rest : List Char}
    (h : t.Begins (line ++ behind) rest) :
    ∃ left, rest = left ++ behind ∧ t.Begins line left := by
  generalize hText : line ++ behind = text at h
  cases h with
  | @name c cs _ hFirst hChars hStops =>
    have hSpelling : OnOneLine (c :: cs) := onOneLine_of_isNameChar
      (List.forall_mem_cons.mpr ⟨isNameChar_of_isNameStart hFirst, hChars⟩)
    obtain ⟨left, rfl, rfl⟩ := exists_rest_of_append hEnd hSpelling hText
    exact ⟨left, rfl, .name hFirst hChars ((forall_head?_append hEnd.stops).mp hStops)⟩
  | @integer n _ hSome hDigits hStops =>
    have hSpelling : OnOneLine n.spelling := by
      have hAll : OnOneLine n.digits :=
        onOneLine_of_isNameChar fun d hd => isNameChar_of_isDigit (hDigits d hd)
      unfold IntegerLiteral.spelling
      split
      · exact List.forall_mem_cons.mpr ⟨rfl, hAll⟩
      · exact hAll
    obtain ⟨left, rfl, rfl⟩ := exists_rest_of_append hEnd hSpelling hText
    exact ⟨left, rfl, .integer hSome hDigits ((forall_head?_append hEnd.stops).mp hStops)⟩
  | @text chars rest hQuote hLine =>
    have hSpelling : OnOneLine ('"' :: chars ++ ['"']) :=
      List.forall_mem_append.mpr
        ⟨List.forall_mem_cons.mpr ⟨rfl, hLine⟩, List.forall_mem_singleton.mpr rfl⟩
    have hText' : line ++ behind = ('"' :: chars ++ ['"']) ++ rest := by
      rw [hText, List.append_assoc, List.singleton_append]
    obtain ⟨left, rfl, rfl⟩ := exists_rest_of_append hEnd hSpelling hText'
    refine ⟨left, rfl, ?_⟩
    rw [List.append_assoc, List.singleton_append]
    exact .text hQuote hLine
  | @colon rest =>
    have hSpelling : OnOneLine [':'] := List.forall_mem_singleton.mpr rfl
    have hText' : line ++ behind = [':'] ++ rest := hText
    obtain ⟨left, rfl, rfl⟩ := exists_rest_of_append hEnd hSpelling hText'
    exact ⟨left, rfl, .colon⟩

end

-- ---------------------------------------------------------------------------
-- Readers
-- ---------------------------------------------------------------------------

/-- The reader takes from a text what it takes from its first line alone, and leaves a part of the
line with what stands behind it. -/
structure KeepsToLine {α : Type} (read : Reader α) : Prop where
  append : ∀ {line behind : List Char}, OnOneLine line → EndsLine behind →
    read (line ++ behind) = (read line).map fun found => (found.1, found.2 ++ behind)
  onOneLine : ∀ {line : List Char}, OnOneLine line →
    ∀ found ∈ read line, OnOneLine found.2

namespace KeepsToLine

section

variable {α β : Type} {read other : Reader α}

/-- It is enough that what the reader finds in a text is found in the line, and the other way. -/
theorem of_iff {begins : α → List Char → List Char → Prop}
    (hRead : ∀ {a : α} {cs rest : List Char}, read cs = some (a, rest) ↔ begins a cs rest)
    (hAppend : ∀ {a : α} {line rest behind : List Char}, EndsLine behind → begins a line rest →
      begins a (line ++ behind) (rest ++ behind))
    (hOf : ∀ {a : α} {line rest behind : List Char}, EndsLine behind →
      begins a (line ++ behind) rest → ∃ left, rest = left ++ behind ∧ begins a line left)
    (hOnOneLine : ∀ {a : α} {line rest : List Char}, begins a line rest → OnOneLine line →
      OnOneLine rest) :
    KeepsToLine read where
  append := by
    intro line behind hLine hEnd
    rcases h : read line with _ | ⟨a, rest⟩
    · rw [Option.map_none, Option.eq_none_iff_forall_ne_some]
      rintro ⟨a, rest⟩ hText
      obtain ⟨left, _, hBegins⟩ := hOf hEnd (hRead.mp hText)
      rw [hRead.mpr hBegins] at h
      cases h
    · exact hRead.mpr (hAppend hEnd (hRead.mp h))
  onOneLine := fun hLine _ hFound => hOnOneLine (hRead.mp hFound) hLine

/-- A reader that takes one token. -/
theorem of_begins (token : α → Token)
    (hRead : ∀ {a : α} {cs rest : List Char},
      read cs = some (a, rest) ↔ (token a).Begins cs rest) : KeepsToLine read :=
  of_iff hRead (fun hEnd h => h.append hEnd.stops) (fun hEnd h => h.of_line_append hEnd)
    fun h => h.onOneLine

/-- A reader that takes nothing. -/
theorem pure (a : α) : KeepsToLine fun cs => some (a, cs) where
  append := fun _ _ => rfl
  onOneLine := by
    intro line hLine found hFound
    cases hFound
    exact hLine

/-- A reader behind another one. -/
theorem bind {next : α → Reader β} (h : KeepsToLine read) (h' : ∀ a, KeepsToLine (next a)) :
    KeepsToLine fun cs => (read cs).bind fun found => next found.1 found.2 where
  append := by
    intro line behind hLine hEnd
    rw [h.append hLine hEnd]
    rcases hFirst : read line with _ | ⟨a, rest⟩
    · rfl
    · exact (h' a).append (h.onOneLine hLine _ hFirst) hEnd
  onOneLine := by
    intro line hLine found hFound
    obtain ⟨⟨a, rest⟩, hFirst, hNext⟩ := Option.bind_eq_some_iff.mp hFound
    exact (h' a).onOneLine (h.onOneLine hLine _ hFirst) found hNext

/-- A reader behind a gap. -/
theorem behindGap (h : KeepsToLine read) : KeepsToLine fun cs => read (skip cs) where
  append := by
    intro line behind hLine hEnd
    rw [skip_line_append hEnd hLine]
    exact h.append (onOneLine_skip hLine) hEnd
  onOneLine := fun hLine => h.onOneLine (onOneLine_skip hLine)

/-- The first of two readers that fits. -/
theorem orElse (h : KeepsToLine read) (h' : KeepsToLine other) :
    KeepsToLine fun cs => read cs <|> other cs where
  append := by
    intro line behind hLine hEnd
    simp only [h.append hLine hEnd, h'.append hLine hEnd, Option.orElse_eq_orElse,
      Option.orElse_eq_or, Option.map_or]
  onOneLine := by
    intro line hLine found hFound
    simp only [Option.orElse_eq_orElse, Option.orElse_eq_or, Option.mem_def,
      Option.or_eq_some_iff] at hFound
    rcases hFound with hFirst | ⟨_, hSecond⟩
    · exact h.onOneLine hLine found hFirst
    · exact h'.onOneLine hLine found hSecond

end

end KeepsToLine

theorem keepsToLine_readExactly {token : List Char} (hToken : OnOneLine token) :
    KeepsToLine (readExactly token) := by
  refine KeepsToLine.of_iff readExactly_eq_some_iff ?_ ?_ ?_
  · rintro _ _ rest behind _ rfl
    exact List.append_assoc token rest behind
  · intro _ line rest behind hEnd h
    exact exists_rest_of_append hEnd hToken h
  · rintro _ _ rest rfl hLine
    exact hLine.of_append

theorem keepsToLine_readColon : KeepsToLine (readExactly [':']) :=
  keepsToLine_readExactly (List.forall_mem_singleton.mpr rfl)

theorem keepsToLine_readName : KeepsToLine readName :=
  .of_begins .name readName_eq_some_iff

theorem keepsToLine_readLiteral : KeepsToLine readLiteral :=
  .of_begins Literal.token readLiteral_eq_some_iff

theorem keepsToLine_readOperand : KeepsToLine readOperand :=
  .of_begins Operand.token readOperand_eq_some_iff

-- ---------------------------------------------------------------------------
-- Statements
-- ---------------------------------------------------------------------------

theorem keepsToLine_readHeader {name : List Char} (hName : IsSectionName name)
    (header : Statement) : KeepsToLine (readHeader name header) := by
  have hLetters : ∀ c ∈ "section".toList, isNameChar c = true := List.all_eq_true.mp rfl
  have hSection := keepsToLine_readExactly (onOneLine_of_isNameChar hLetters)
  have hRest := keepsToLine_readExactly (onOneLine_of_isNameChar hName.chars)
  exact hSection.bind fun _ => hRest.behindGap.bind fun _ =>
    keepsToLine_readColon.behindGap.bind fun _ => .pure header

theorem keepsToLine_readLabel : KeepsToLine readLabel :=
  keepsToLine_readName.bind fun name =>
    keepsToLine_readColon.behindGap.bind fun _ => .pure (Statement.label name)

theorem keepsToLine_readDeclaration : KeepsToLine readDeclaration :=
  keepsToLine_readName.bind fun kind =>
    keepsToLine_readName.behindGap.bind fun name =>
      keepsToLine_readLiteral.behindGap.bind fun value =>
        .pure (Statement.declaration kind name value)

/-- The operand that an instruction may have. -/
theorem readInstruction_eq (cs : List Char) : readInstruction cs = (readName cs).bind fun found =>
    ((readOperand (skip found.2)).bind fun operand =>
      some (Statement.instruction found.1 (some operand.1), operand.2)) <|>
    some (.instruction found.1 none, skip found.2) := by
  unfold readInstruction
  rcases readName cs with _ | ⟨mnemonic, rest⟩
  · rfl
  · rcases hOperand : readOperand (skip rest) with _ | ⟨operand, behind⟩
    all_goals simp [hOperand]

theorem keepsToLine_readInstruction : KeepsToLine readInstruction := by
  have hOperand (mnemonic : String) := keepsToLine_readOperand.bind fun operand =>
    .pure (Statement.instruction mnemonic (some operand))
  have hRest (mnemonic : String) := ((hOperand mnemonic).orElse
    (.pure (Statement.instruction mnemonic none))).behindGap
  rw [funext readInstruction_eq]
  exact keepsToLine_readName.bind hRest

/-- A statement is read from its own line. -/
theorem keepsToLine_readStatement : KeepsToLine readStatement := by
  have hData := keepsToLine_readHeader isSectionName_data .dataHeader
  have hCode := keepsToLine_readHeader isSectionName_code .codeHeader
  exact hData.orElse <| hCode.orElse <| keepsToLine_readLabel.orElse <|
    keepsToLine_readDeclaration.orElse keepsToLine_readInstruction

end StackProcessor.Assembly
