import Mathlib.Data.List.Forall2
import StackProcessor.Proofs.Assembly.Tokens
import StackProcessor.Proofs.Basic

/-!
# StackProcessor — the language of the assembler

`Reads line reading` states what a line holds, whatever order it is read in: nothing (a `Trailer`),
the header of a section (`IsHeader`), or tokens (`HasTokens`) that are of the form of a label, a
declaration or an instruction (`Forms`). Only where a line is both a header and a label, the header
goes first, so `Reads.tokens` asks that the line is no header. `Heads name line rest` says that the
line begins with the words of a header, with blanks and tabs between them in any number, and goes on
with `rest`.

The readers try the forms in an order and look at the front of the line only: `readLabel` takes a
name with a colon behind it, whatever follows. Still they read every line that is of some form,
since of the tokens of one form no other form that is tried earlier fits the front
(`Forms.exists_name`, `trailer_of_heads`), and a reading counts only if nothing is left but a gap
(`skip rest = []`). The reader of a header skips comments as well as blanks between its words; no
comment can stand there, since it would take the rest of the line with it. That is where the lemmas
need `OnOneLine`, which says that there is no line end among the characters.

## Results
- `heads_iff` : what the reader of a header takes.
- `trailer_of_heads` : a header does not stand in the way of another form.
- `readStatement_iff` : a statement fills a line if the line is of its form.
- `Reads.unique` : a line holds one statement at most.
- `readSource_iff_lines` : the statements of a text are those of its lines.
-/

namespace StackProcessor.Assembly

-- ---------------------------------------------------------------------------
-- Forms of lines
-- ---------------------------------------------------------------------------

/-- The line begins with the header of the section with this name, and `rest` stands behind its
colon. Between the words there may be blanks and tabs, or nothing at all: `section.data:` is a
header. -/
inductive Heads (name : List Char) : List Char → List Char → Prop where
  | intro {gap₁ gap₂ gap₃ rest : List Char} : OnlyGap gap₁ → OnlyGap gap₂ → OnlyGap gap₃ →
    Heads name (gap₁ ++ ("section".toList ++ (gap₂ ++ (name ++ (gap₃ ++ ':' :: rest))))) rest

/-- The line is the header of one of the two sections, and only a `Trailer` stands behind it. -/
inductive IsHeader : List Char → Statement → Prop where
  | data {line rest : List Char} : Heads ".data".toList line rest → Trailer rest →
    IsHeader line .dataHeader
  | code {line rest : List Char} : Heads ".code".toList line rest → Trailer rest →
    IsHeader line .codeHeader

/-- The tokens are a label, a declaration or an instruction. Any name can be the kind of a
declaration or a mnemonic here; which of them mean something is not a question of the form. -/
inductive Forms : List Token → Statement → Prop where
  | label (name : String) : Forms [.name name, .colon] (.label name)
  | declaration (kind name : String) (value : Literal) :
    Forms [.name kind, .name name, value.token] (.declaration kind name value)
  | bare (mnemonic : String) : Forms [.name mnemonic] (.instruction mnemonic none)
  | instruction (mnemonic : String) (operand : Operand) :
    Forms [.name mnemonic, operand.token] (.instruction mnemonic (some operand))

/-- The line holds this statement, or none. A line that is a header is nothing else, though
`section.data` is a name as well and `section.data:` has the form of a label. -/
inductive Reads : List Char → Option Statement → Prop where
  | nothing {line : List Char} : Trailer line → Reads line none
  | header {line : List Char} {statement : Statement} : IsHeader line statement →
    Reads line (some statement)
  | tokens {line : List Char} {ts : List Token} {statement : Statement} :
    (∀ header, ¬ IsHeader line header) → HasTokens line ts → Forms ts statement →
    Reads line (some statement)

/-- Every form begins with a name, and no form goes on behind a colon. -/
theorem Forms.exists_name {ts : List Token} {statement : Statement} (h : Forms ts statement) :
    ∃ name others, ts = .name name :: others ∧ ∀ more, others = .colon :: more → more = [] := by
  cases h with
  | label name => exact ⟨name, _, rfl, fun more hMore => (List.cons.inj hMore).2.symm⟩
  | declaration kind => exact ⟨kind, _, rfl, fun more hMore => nomatch (List.cons.inj hMore).1⟩
  | bare mnemonic => exact ⟨mnemonic, _, rfl, nofun⟩
  | instruction mnemonic => exact ⟨mnemonic, _, rfl, fun more hMore => (List.cons.inj hMore).2.symm⟩

-- ---------------------------------------------------------------------------
-- Headers
-- ---------------------------------------------------------------------------

/-- The name of a section: a dot, and then characters of a name. -/
structure IsSectionName (name : List Char) : Prop where
  dot : ∃ chars, name = '.' :: chars
  chars : ∀ c ∈ name, isNameChar c = true

theorem isSectionName_data : IsSectionName ".data".toList := ⟨⟨_, rfl⟩, List.all_eq_true.mp rfl⟩

theorem isSectionName_code : IsSectionName ".code".toList := ⟨⟨_, rfl⟩, List.all_eq_true.mp rfl⟩

theorem isNameChar_of_mem_section : ∀ c ∈ "ection".toList, isNameChar c = true :=
  List.all_eq_true.mp rfl

theorem opens_cons {c : Char} (h : isGap c = false ∧ c ≠ ';') (rest : List Char) :
    Opens (c :: rest) := by
  intro d hd
  cases hd
  exact h

theorem opens_section (rest : List Char) : Opens ("section".toList ++ rest) :=
  @opens_cons 's' (by decide) ("ection".toList ++ rest)

theorem IsSectionName.opens_append {name : List Char} (h : IsSectionName name)
    (rest : List Char) : Opens (name ++ rest) := by
  obtain ⟨chars, rfl⟩ := h.dot
  exact opens_cons (by decide) _

theorem isNameChar_of_isGap {c : Char} (h : isGap c = true) : isNameChar c = false := by
  rcases isGap_iff.mp h with rfl | rfl <;> decide

theorem stops_gap_append {gap rest : List Char} (hGap : OnlyGap gap) (h : Stops rest) :
    Stops (gap ++ rest) := by
  cases gap with
  | nil => exact h
  | cons c tail =>
    intro d hd
    cases hd
    exact isNameChar_of_isGap (hGap c List.mem_cons_self)

theorem stops_colon (rest : List Char) : Stops (':' :: rest) := by
  intro c hc
  cases hc
  decide

theorem Heads.onOneLine {name cs rest : List Char} (h : Heads name cs rest)
    (hLine : OnOneLine cs) : OnOneLine rest := by
  cases h with
  | intro => exact hLine.of_append.of_append.of_append.of_append.of_append.of_cons.2

section

variable {cs rest name : List Char} (hLine : OnOneLine cs) (hName : IsSectionName name)

include hLine hName

/-- What stands behind the skipped parts of a header. -/
theorem heads_iff : Heads name cs rest ↔
    ∃ after behind, skip cs = "section".toList ++ after ∧ skip after = name ++ behind ∧
      skip behind = ':' :: rest := by
  constructor
  · intro h
    cases h with
    | intro hGap₁ hGap₂ hGap₃ =>
      exact ⟨_, _, skip_append hGap₁ (opens_section _), skip_append hGap₂ (hName.opens_append _),
        skip_append hGap₃ (opens_cons (by decide) rest)⟩
  · rintro ⟨after, behind, hSection, hSectionName, hColon⟩
    have hAfter : OnOneLine after := (hSection ▸ onOneLine_skip hLine).of_append
    have hBehind : OnOneLine behind := (hSectionName ▸ onOneLine_skip hAfter).of_append
    obtain ⟨chars, hDot⟩ := hName.dot
    obtain ⟨gap₁, hGap₁, h₁⟩ := exists_gap_of_skip_ne_nil hLine (by simp [hSection])
    obtain ⟨gap₂, hGap₂, h₂⟩ := exists_gap_of_skip_ne_nil hAfter (by simp [hSectionName, hDot])
    obtain ⟨gap₃, hGap₃, h₃⟩ := exists_gap_of_skip_ne_nil hBehind (by simp [hColon])
    rw [hSection] at h₁
    rw [hSectionName] at h₂
    rw [hColon] at h₃
    rw [h₁, h₂, h₃]
    exact .intro hGap₁ hGap₂ hGap₃

theorem readHeader_eq_some_iff {header statement : Statement} :
    readHeader name header (skip cs) = some (statement, rest) ↔
      statement = header ∧ Heads name cs rest := by
  rw [heads_iff hLine hName]
  constructor
  · intro h
    obtain ⟨⟨⟨⟩, after⟩, hSection, h⟩ := Option.bind_eq_some_iff.mp h
    obtain ⟨⟨⟨⟩, behind⟩, hSectionName, h⟩ := Option.bind_eq_some_iff.mp h
    obtain ⟨⟨⟨⟩, end'⟩, hColon, h⟩ := Option.bind_eq_some_iff.mp h
    cases h
    exact ⟨rfl, after, behind, readExactly_eq_some_iff.mp hSection,
      readExactly_eq_some_iff.mp hSectionName, readExactly_eq_some_iff.mp hColon⟩
  · rintro ⟨rfl, after, behind, hSection, hSectionName, hColon⟩
    rw [readHeader, readExactly_eq_some_iff.mpr hSection]
    simp only [Option.bind_eq_bind, Option.bind_some]
    rw [readExactly_eq_some_iff.mpr hSectionName]
    simp only [Option.bind_some]
    rw [readExactly_eq_some_iff.mpr (hColon.trans (List.singleton_append).symm)]
    rfl

/-- Behind the first name of a line that begins with a header there is the dot of the section or,
if the dot belongs to the name, the colon. -/
theorem skip_of_heads (h : Heads name cs rest) {first : String} {after : List Char}
    (hFirst : (Token.name first).Begins (skip cs) after) :
    (∃ tail, skip after = '.' :: tail) ∨ skip after = ':' :: rest := by
  cases h with
  | @intro gap₁ gap₂ gap₃ _ hGap₁ hGap₂ hGap₃ =>
  rw [skip_append hGap₁ (opens_section _)] at hFirst
  cases gap₂ with
  | nil =>
    have hChars : ∀ c ∈ "ection".toList ++ name, isNameChar c = true :=
      List.forall_mem_append.mpr ⟨isNameChar_of_mem_section, hName.chars⟩
    have hLong := @Token.Begins.name 's' _ _ (by decide) hChars
      (stops_gap_append hGap₃ (stops_colon rest))
    rw [List.cons_append, List.append_assoc] at hLong
    obtain ⟨_, rfl⟩ := hFirst.unique hLong
    exact Or.inr (skip_append hGap₃ (opens_cons (by decide) rest))
  | cons c gap =>
    have hStops : Stops (c :: gap ++ (name ++ (gap₃ ++ ':' :: rest))) := by
      intro d hd
      cases hd
      exact isNameChar_of_isGap (hGap₂ c List.mem_cons_self)
    have hShort := @Token.Begins.name 's' _ _ (by decide) isNameChar_of_mem_section hStops
    obtain ⟨_, rfl⟩ := hFirst.unique hShort
    obtain ⟨chars, hDot⟩ := hName.dot
    refine Or.inl ⟨chars ++ (gap₃ ++ ':' :: rest), ?_⟩
    rw [skip_append hGap₂ (hName.opens_append _), hDot, List.cons_append]

/-- A header does not stand in the way of another form: a line that begins with it and consists of
the tokens of a form is the header. -/
theorem trailer_of_heads (h : Heads name cs rest) {ts : List Token} (hTokens : HasTokens cs ts)
    {statement : Statement} (hForms : Forms ts statement) : Trailer rest := by
  obtain ⟨first, others, rfl, hMore⟩ := hForms.exists_name
  obtain ⟨after, hAfter, hFirst, hOthers⟩ := hTokens.exists_rest hLine
  have hSecond := skip_of_heads hLine hName h hFirst
  cases others with
  | nil =>
    rw [(hasTokens_nil_iff hAfter).mp hOthers] at hSecond
    rcases hSecond with ⟨_, hDot⟩ | hColon
    · cases hDot
    · cases hColon
  | cons t more =>
    obtain ⟨behind, hRest, hBegins, hBehind⟩ := hOthers.exists_rest hAfter
    rcases hSecond with ⟨_, hDot⟩ | hColon
    · -- no token begins with a dot
      rw [hDot] at hBegins
      obtain ⟨c, _, hEq, hStart⟩ := hBegins.exists_cons
      cases hEq
      exact absurd rfl (not_of_isTokenStart hStart).2.2
    · rw [hColon] at hBegins
      obtain ⟨rfl, rfl⟩ := hBegins.unique .colon
      cases hMore more rfl
      exact (skip_eq_nil_iff hRest).mp ((hasTokens_nil_iff hRest).mp hBehind)

end

/-- A line does not begin with headers of different sections. -/
theorem not_heads_data_and_code {cs rest rest' : List Char} (hLine : OnOneLine cs)
    (hData : Heads ".data".toList cs rest) : ¬ Heads ".code".toList cs rest' := by
  intro hCode
  obtain ⟨after, behind, hSection, hName, _⟩ := (heads_iff hLine isSectionName_data).mp hData
  obtain ⟨after', behind', hSection', hName', _⟩ := (heads_iff hLine isSectionName_code).mp hCode
  obtain rfl := List.append_cancel_left (hSection.symm.trans hSection')
  exact absurd (hName.symm.trans hName') (by simp)

-- ---------------------------------------------------------------------------
-- Readers of statements
-- ---------------------------------------------------------------------------

theorem readLabel_eq_some_iff {cs rest : List Char} {statement : Statement} :
    readLabel cs = some (statement, rest) ↔
      ∃ name after, (Token.name name).Begins cs after ∧ Token.colon.Begins (skip after) rest ∧
        statement = .label name := by
  constructor
  · intro h
    obtain ⟨⟨name, after⟩, hName, h⟩ := Option.bind_eq_some_iff.mp h
    obtain ⟨⟨⟨⟩, end'⟩, hColon, h⟩ := Option.bind_eq_some_iff.mp h
    cases h
    exact ⟨name, after, readName_eq_some_iff.mp hName, readColon_eq_some_iff.mp hColon, rfl⟩
  · rintro ⟨name, after, hName, hColon, rfl⟩
    refine Option.bind_eq_some_iff.mpr ⟨_, readName_eq_some_iff.mpr hName, ?_⟩
    exact Option.bind_eq_some_iff.mpr ⟨_, readColon_eq_some_iff.mpr hColon, rfl⟩

theorem readDeclaration_eq_some_iff {cs rest : List Char} {statement : Statement} :
    readDeclaration cs = some (statement, rest) ↔
      ∃ kind after name behind value, (Token.name kind).Begins cs after ∧
        (Token.name name).Begins (skip after) behind ∧ value.token.Begins (skip behind) rest ∧
        statement = .declaration kind name value := by
  constructor
  · intro h
    obtain ⟨⟨kind, after⟩, hKind, h⟩ := Option.bind_eq_some_iff.mp h
    obtain ⟨⟨name, behind⟩, hName, h⟩ := Option.bind_eq_some_iff.mp h
    obtain ⟨⟨value, end'⟩, hValue, h⟩ := Option.bind_eq_some_iff.mp h
    cases h
    exact ⟨kind, after, name, behind, value, readName_eq_some_iff.mp hKind,
      readName_eq_some_iff.mp hName, readLiteral_eq_some_iff.mp hValue, rfl⟩
  · rintro ⟨kind, after, name, behind, value, hKind, hName, hValue, rfl⟩
    refine Option.bind_eq_some_iff.mpr ⟨_, readName_eq_some_iff.mpr hKind, ?_⟩
    refine Option.bind_eq_some_iff.mpr ⟨_, readName_eq_some_iff.mpr hName, ?_⟩
    exact Option.bind_eq_some_iff.mpr ⟨_, readLiteral_eq_some_iff.mpr hValue, rfl⟩

theorem readInstruction_eq_some_iff {cs rest : List Char} {statement : Statement} :
    readInstruction cs = some (statement, rest) ↔
      ∃ mnemonic after, (Token.name mnemonic).Begins cs after ∧
        ((∃ operand : Operand, operand.token.Begins (skip after) rest ∧
            statement = .instruction mnemonic (some operand)) ∨
          (readOperand (skip after) = none ∧ rest = skip after ∧
            statement = .instruction mnemonic none)) := by
  constructor
  · intro h
    obtain ⟨⟨mnemonic, after⟩, hName, h⟩ := Option.bind_eq_some_iff.mp h
    refine ⟨mnemonic, after, readName_eq_some_iff.mp hName, ?_⟩
    rcases hOperand : readOperand (skip after) with _ | ⟨operand, behind⟩
    · simp only [hOperand] at h
      cases h
      exact Or.inr ⟨rfl, rfl, rfl⟩
    · simp only [hOperand] at h
      cases h
      exact Or.inl ⟨operand, readOperand_eq_some_iff.mp hOperand, rfl⟩
  · rintro ⟨mnemonic, after, hName, ⟨operand, hOperand, rfl⟩ | ⟨hNone, rfl, rfl⟩⟩
    all_goals refine Option.bind_eq_some_iff.mpr ⟨_, readName_eq_some_iff.mpr hName, ?_⟩
    · simp only [readOperand_eq_some_iff.mpr hOperand]
    · simp only [hNone]

theorem readStatement_eq_some_iff {cs : List Char} {found : Statement × List Char} :
    readStatement cs = some found ↔
      readHeader ".data".toList .dataHeader cs = some found ∨
      readHeader ".data".toList .dataHeader cs = none ∧
      (readHeader ".code".toList .codeHeader cs = some found ∨
      readHeader ".code".toList .codeHeader cs = none ∧
      (readLabel cs = some found ∨ readLabel cs = none ∧
      (readDeclaration cs = some found ∨ readDeclaration cs = none ∧
      readInstruction cs = some found))) := by
  simp only [readStatement, Option.orElse_eq_orElse, Option.orElse_eq_or, Option.or_eq_some_iff]

/-- There is no label where no colon stands behind the first name. -/
theorem readLabel_eq_none {cs after : List Char} {first : String}
    (hFirst : (Token.name first).Begins cs after)
    (hNone : ∀ rest, ¬ Token.colon.Begins (skip after) rest) : readLabel cs = none := by
  rw [Option.eq_none_iff_forall_ne_some]
  rintro ⟨statement, rest⟩ hRead
  obtain ⟨_, _, hName, hColon, _⟩ := readLabel_eq_some_iff.mp hRead
  obtain ⟨_, rfl⟩ := hName.unique hFirst
  exact hNone rest hColon

/-- There is no declaration where no value stands behind a second name. -/
theorem readDeclaration_eq_none {cs after : List Char} {first : String}
    (hFirst : (Token.name first).Begins cs after)
    (hNone : ∀ name behind, (Token.name name).Begins (skip after) behind →
      ∀ (value : Literal) (rest : List Char), ¬ value.token.Begins (skip behind) rest) :
    readDeclaration cs = none := by
  rw [Option.eq_none_iff_forall_ne_some]
  rintro ⟨statement, rest⟩ hRead
  obtain ⟨_, _, name, behind, value, hKind, hName, hValue, _⟩ :=
    readDeclaration_eq_some_iff.mp hRead
  obtain ⟨_, rfl⟩ := hKind.unique hFirst
  exact hNone name behind hName value rest hValue

theorem not_begins_of_skip_eq_nil {cs rest : List Char} (h : skip cs = []) (t : Token) :
    ¬ t.Begins (skip cs) rest :=
  fun hBegins => hBegins.ne_nil h

section

variable {cs : List Char} (hLine : OnOneLine cs)

include hLine

theorem readHeader_eq_none_of_forms {name : List Char} (hName : IsSectionName name)
    {header statement : Statement} {ts : List Token}
    (hTokens : HasTokens cs ts) (hForms : Forms ts statement)
    (hHeader : ∀ rest, Heads name cs rest → ¬ Trailer rest) :
    readHeader name header (skip cs) = none := by
  rw [Option.eq_none_iff_forall_ne_some]
  rintro ⟨found, rest⟩ hRead
  obtain ⟨_, hHeads⟩ := (readHeader_eq_some_iff hLine hName).mp hRead
  exact hHeader rest hHeads (trailer_of_heads hLine hName hHeads hTokens hForms)

/-- The tokens of a form are read as that form: of the forms that are tried earlier none fits. -/
theorem exists_rest_of_forms {ts : List Token} {statement : Statement} (hTokens : HasTokens cs ts)
    (hForms : Forms ts statement) (hHeader : ∀ header, ¬ IsHeader cs header) :
    ∃ rest, readStatement (skip cs) = some (statement, rest) ∧ skip rest = [] := by
  have hData : readHeader ".data".toList .dataHeader (skip cs) = none :=
    readHeader_eq_none_of_forms hLine isSectionName_data hTokens hForms
      fun rest hHeads hTrailer => hHeader _ (.data hHeads hTrailer)
  have hCode : readHeader ".code".toList .codeHeader (skip cs) = none :=
    readHeader_eq_none_of_forms hLine isSectionName_code hTokens hForms
      fun rest hHeads hTrailer => hHeader _ (.code hHeads hTrailer)
  suffices hRead : ∃ rest, skip rest = [] ∧ (readLabel (skip cs) = some (statement, rest) ∨
      readLabel (skip cs) = none ∧ (readDeclaration (skip cs) = some (statement, rest) ∨
      readDeclaration (skip cs) = none ∧ readInstruction (skip cs) = some (statement, rest))) by
    obtain ⟨rest, hEnd, hRead⟩ := hRead
    exact ⟨rest, readStatement_eq_some_iff.mpr (Or.inr ⟨hData, Or.inr ⟨hCode, hRead⟩⟩), hEnd⟩
  cases hForms with
  | label name =>
    obtain ⟨after, hAfter, hName, hTokens⟩ := hTokens.exists_rest hLine
    obtain ⟨rest, hRest, hColon, hTokens⟩ := hTokens.exists_rest hAfter
    refine ⟨rest, (hasTokens_nil_iff hRest).mp hTokens, Or.inl ?_⟩
    exact readLabel_eq_some_iff.mpr ⟨name, after, hName, hColon, rfl⟩
  | declaration kind name value =>
    obtain ⟨after, hAfter, hKind, hTokens⟩ := hTokens.exists_rest hLine
    obtain ⟨behind, hBehind, hName, hTokens⟩ := hTokens.exists_rest hAfter
    obtain ⟨rest, hRest, hValue, hTokens⟩ := hTokens.exists_rest hBehind
    refine ⟨rest, (hasTokens_nil_iff hRest).mp hTokens, Or.inr ⟨?_, Or.inl ?_⟩⟩
    · exact readLabel_eq_none hKind fun _ hColon => nomatch (hColon.unique hName).1
    · exact readDeclaration_eq_some_iff.mpr
        ⟨kind, after, name, behind, value, hKind, hName, hValue, rfl⟩
  | bare mnemonic =>
    obtain ⟨after, hAfter, hName, hTokens⟩ := hTokens.exists_rest hLine
    have hEnd := (hasTokens_nil_iff hAfter).mp hTokens
    have hOperand : readOperand (skip after) = none := by
      rw [hEnd]
      rfl
    refine ⟨skip after, (skip_skip hAfter).trans hEnd, Or.inr ⟨?_, Or.inr ⟨?_, ?_⟩⟩⟩
    · exact readLabel_eq_none hName fun _ => not_begins_of_skip_eq_nil hEnd .colon
    · exact readDeclaration_eq_none hName fun name _ hSecond =>
        absurd hSecond (not_begins_of_skip_eq_nil hEnd (.name name))
    · exact readInstruction_eq_some_iff.mpr
        ⟨mnemonic, after, hName, Or.inr ⟨hOperand, rfl, rfl⟩⟩
  | instruction mnemonic operand =>
    obtain ⟨after, hAfter, hName, hTokens⟩ := hTokens.exists_rest hLine
    obtain ⟨rest, hRest, hOperand, hTokens⟩ := hTokens.exists_rest hAfter
    have hEnd := (hasTokens_nil_iff hRest).mp hTokens
    refine ⟨rest, hEnd, Or.inr ⟨?_, Or.inr ⟨?_, ?_⟩⟩⟩
    · refine readLabel_eq_none hName fun _ hColon => ?_
      cases operand <;> exact nomatch (hColon.unique hOperand).1
    · -- a second name is the operand, and no value stands behind it
      refine readDeclaration_eq_none hName fun name behind hSecond value _ => ?_
      obtain ⟨_, rfl⟩ := hSecond.unique hOperand
      exact not_begins_of_skip_eq_nil hEnd value.token
    · exact readInstruction_eq_some_iff.mpr
        ⟨mnemonic, after, hName, Or.inl ⟨operand, hOperand, rfl⟩⟩

/-- If no header is read, the line is none. -/
theorem not_isHeader (hData : readHeader ".data".toList .dataHeader (skip cs) = none)
    (hCode : readHeader ".code".toList .codeHeader (skip cs) = none) (header : Statement) :
    ¬ IsHeader cs header := by
  intro h
  cases h with
  | data hHeads =>
    rw [(readHeader_eq_some_iff hLine isSectionName_data).mpr ⟨rfl, hHeads⟩] at hData
    cases hData
  | code hHeads =>
    rw [(readHeader_eq_some_iff hLine isSectionName_code).mpr ⟨rfl, hHeads⟩] at hCode
    cases hCode

/-- What is read of a whole line, and is no header, has the tokens of a form. -/
theorem exists_forms_of_read {statement : Statement} {rest : List Char} (hEnd : skip rest = [])
    (hRead : readLabel (skip cs) = some (statement, rest) ∨
      readDeclaration (skip cs) = some (statement, rest) ∨
      readInstruction (skip cs) = some (statement, rest)) :
    ∃ ts, HasTokens cs ts ∧ Forms ts statement := by
  rcases hRead with hRead | hRead | hRead
  · obtain ⟨name, after, hName, hColon, rfl⟩ := readLabel_eq_some_iff.mp hRead
    have hAfter := hName.onOneLine_of_skip hLine
    have hRest := hColon.onOneLine_of_skip hAfter
    refine ⟨_, (hasTokens_cons_iff hLine).mpr ⟨after, hName, ?_⟩, .label name⟩
    exact (hasTokens_cons_iff hAfter).mpr ⟨rest, hColon, (hasTokens_nil_iff hRest).mpr hEnd⟩
  · obtain ⟨kind, after, name, behind, value, hKind, hName, hValue, rfl⟩ :=
      readDeclaration_eq_some_iff.mp hRead
    have hAfter := hKind.onOneLine_of_skip hLine
    have hBehind := hName.onOneLine_of_skip hAfter
    have hRest := hValue.onOneLine_of_skip hBehind
    refine ⟨_, (hasTokens_cons_iff hLine).mpr ⟨after, hKind, ?_⟩, .declaration kind name value⟩
    refine (hasTokens_cons_iff hAfter).mpr ⟨behind, hName, ?_⟩
    exact (hasTokens_cons_iff hBehind).mpr ⟨rest, hValue, (hasTokens_nil_iff hRest).mpr hEnd⟩
  · obtain ⟨mnemonic, after, hName, hOperand⟩ := readInstruction_eq_some_iff.mp hRead
    have hAfter := hName.onOneLine_of_skip hLine
    rcases hOperand with ⟨operand, hOperand, rfl⟩ | ⟨_, rfl, rfl⟩
    · have hRest := hOperand.onOneLine_of_skip hAfter
      refine ⟨_, (hasTokens_cons_iff hLine).mpr ⟨after, hName, ?_⟩, .instruction mnemonic operand⟩
      exact (hasTokens_cons_iff hAfter).mpr ⟨rest, hOperand, (hasTokens_nil_iff hRest).mpr hEnd⟩
    · rw [skip_skip hAfter] at hEnd
      exact ⟨_, (hasTokens_cons_iff hLine).mpr
        ⟨after, hName, (hasTokens_nil_iff hAfter).mpr hEnd⟩, .bare mnemonic⟩

/-- What is read of a whole line is its statement. -/
theorem readStatement_iff {statement : Statement} :
    (∃ rest, readStatement (skip cs) = some (statement, rest) ∧ skip rest = []) ↔
      Reads cs (some statement) := by
  constructor
  · rintro ⟨rest, hRead, hEnd⟩
    rcases readStatement_eq_some_iff.mp hRead with hRead | ⟨hData, hRead | ⟨hCode, hRead⟩⟩
    · obtain ⟨rfl, hHeads⟩ := (readHeader_eq_some_iff hLine isSectionName_data).mp hRead
      exact .header (.data hHeads ((skip_eq_nil_iff (hHeads.onOneLine hLine)).mp hEnd))
    · obtain ⟨rfl, hHeads⟩ := (readHeader_eq_some_iff hLine isSectionName_code).mp hRead
      exact .header (.code hHeads ((skip_eq_nil_iff (hHeads.onOneLine hLine)).mp hEnd))
    · obtain ⟨ts, hTokens, hForms⟩ := exists_forms_of_read hLine hEnd
        (hRead.imp_right fun h => h.2.imp_right And.right)
      exact .tokens (not_isHeader hLine hData hCode) hTokens hForms
  · intro h
    cases h with
    | header hHeader =>
      cases hHeader with
      | data hHeads hTrailer =>
        have hRead := (readHeader_eq_some_iff hLine isSectionName_data).mpr
          ⟨@rfl _ .dataHeader, hHeads⟩
        exact ⟨_, readStatement_eq_some_iff.mpr (Or.inl hRead),
          (skip_eq_nil_iff (hHeads.onOneLine hLine)).mpr hTrailer⟩
      | code hHeads hTrailer =>
        have hData : readHeader ".data".toList .dataHeader (skip cs) = none := by
          rw [Option.eq_none_iff_forall_ne_some]
          rintro ⟨_, _⟩ hRead
          obtain ⟨_, hOther⟩ := (readHeader_eq_some_iff hLine isSectionName_data).mp hRead
          exact not_heads_data_and_code hLine hOther hHeads
        have hRead := (readHeader_eq_some_iff hLine isSectionName_code).mpr
          ⟨@rfl _ .codeHeader, hHeads⟩
        exact ⟨_, readStatement_eq_some_iff.mpr (Or.inr ⟨hData, Or.inl hRead⟩),
          (skip_eq_nil_iff (hHeads.onOneLine hLine)).mpr hTrailer⟩
    | tokens hHeader hTokens hForms => exact exists_rest_of_forms hLine hTokens hForms hHeader

/-- A line holds nothing if nothing but a gap and a comment is on it. -/
theorem reads_none_iff : Reads cs none ↔ skip cs = [] := by
  rw [skip_eq_nil_iff hLine]
  constructor
  · intro h
    cases h with
    | nothing hTrailer => exact hTrailer
  · exact .nothing

end

-- ---------------------------------------------------------------------------
-- Lines and texts
-- ---------------------------------------------------------------------------

/-- A line is read as nothing if it is skipped to its end. -/
theorem Line.read_none_iff (l : Line) : l.read = .ok none ↔ skip l.chars = [] := by
  unfold Line.read
  dsimp only
  constructor
  · intro h
    split at h
    · split at h
      · exact List.isEmpty_iff.mp ‹_›
      · cases h
    · split at h <;> cases h
  · intro h
    rw [h]
    rfl

/-- A line is read as a statement if the statement reaches to its end. -/
theorem Line.read_some_iff (l : Line) (statement : Statement) :
    (∃ found, l.read = .ok (some found) ∧ found.statement = statement) ↔
      ∃ rest, readStatement (skip l.chars) = some (statement, rest) ∧ skip rest = [] := by
  unfold Line.read
  dsimp only
  rcases hRead : readStatement (skip l.chars) with _ | ⟨other, rest⟩
  · refine iff_of_false ?_ nofun
    rintro ⟨found, hFound, _⟩
    dsimp only at hFound
    split at hFound <;> cases hFound
  · constructor
    · rintro ⟨found, hFound, hStatement⟩
      dsimp only at hFound
      split at hFound
      · rename_i hEnd
        cases hFound
        exact ⟨rest, by rw [← hStatement], List.isEmpty_iff.mp hEnd⟩
      · cases hFound
    · rintro ⟨_, hPair, hEnd⟩
      cases hPair
      dsimp only
      rw [hEnd]
      exact ⟨_, rfl, rfl⟩

/-- What is read of a line. -/
theorem Line.read_iff {l : Line} (hLine : OnOneLine l.chars) {reading : Option Statement} :
    (∃ found, l.read = .ok found ∧ found.map Located.statement = reading) ↔
      Reads l.chars reading := by
  cases reading with
  | none =>
    rw [reads_none_iff hLine, ← l.read_none_iff]
    constructor
    · rintro ⟨found, hFound, hNone⟩
      rwa [Option.map_eq_none_iff.mp hNone] at hFound
    · intro h
      exact ⟨none, h, rfl⟩
  | some statement =>
    rw [← readStatement_iff hLine, ← l.read_some_iff]
    constructor
    · rintro ⟨found, hFound, hSome⟩
      obtain ⟨located, rfl, hStatement⟩ := Option.map_eq_some_iff.mp hSome
      exact ⟨located, hFound, hStatement⟩
    · rintro ⟨located, hFound, hStatement⟩
      exact ⟨some located, hFound, congrArg some hStatement⟩

/-- A line holds one statement at most. -/
theorem Reads.unique {line : List Char} (hLine : OnOneLine line)
    {reading reading' : Option Statement} (h : Reads line reading) (h' : Reads line reading') :
    reading = reading' := by
  obtain ⟨found, hFound, rfl⟩ := (Line.read_iff (l := ⟨⟨1, 1⟩, line, .text⟩) hLine).mpr h
  obtain ⟨found', hFound', rfl⟩ := (Line.read_iff (l := ⟨⟨1, 1⟩, line, .text⟩) hLine).mpr h'
  rw [Except.ok.inj (hFound.symm.trans hFound')]

/-- What is read of lines is what each of them holds. -/
theorem mapM_read_iff {lines : List Line} (hLines : ∀ l ∈ lines, OnOneLine l.chars)
    {readings : List (Option Statement)} :
    (∃ found, lines.mapM Line.read = .ok found ∧
        found.map (Option.map Located.statement) = readings) ↔
      List.Forall₂ Reads (lines.map Line.chars) readings := by
  induction lines generalizing readings with
  | nil =>
    rw [List.map_nil, List.forall₂_nil_left_iff, List.mapM_nil]
    constructor
    · rintro ⟨found, hFound, rfl⟩
      cases hFound
      rfl
    · rintro rfl
      exact ⟨[], rfl, rfl⟩
  | cons l rest ih =>
    obtain ⟨hLine, hRest⟩ := List.forall_mem_cons.mp hLines
    rw [List.map_cons, List.forall₂_cons_left_iff, List.mapM_cons]
    constructor
    · rintro ⟨found, hFound, rfl⟩
      obtain ⟨first, hFirst, hFound⟩ := exists_of_bind_eq_ok hFound
      obtain ⟨others, hOthers, hFound⟩ := exists_of_bind_eq_ok hFound
      cases hFound
      exact ⟨_, _, (Line.read_iff hLine).mp ⟨first, hFirst, rfl⟩,
        (ih hRest).mp ⟨others, hOthers, rfl⟩, rfl⟩
    · rintro ⟨reading, readings, hReading, hReadings, rfl⟩
      obtain ⟨first, hFirst, rfl⟩ := (Line.read_iff hLine).mpr hReading
      obtain ⟨others, hOthers, rfl⟩ := (ih hRest).mpr hReadings
      refine ⟨first :: others, ?_, rfl⟩
      rw [hFirst, hOthers]
      rfl

theorem map_statement_filterMap (found : List (Option Located)) :
    (found.filterMap id).map Located.statement =
      (found.map (Option.map Located.statement)).filterMap id := by
  rw [List.map_filterMap, List.filterMap_map]
  rfl

/-- A text is a program if each of its lines holds one statement or, but for a gap and a comment,
nothing; and the program consists of these statements in the order of the lines. -/
theorem readSource_iff_lines (source : List Char) (statements : List Statement) :
    (∃ located, readSource source = .ok located ∧
        located.map Located.statement = statements) ↔
      ∃ lines readings, Cuts source lines ∧ List.Forall₂ Reads lines readings ∧
        readings.filterMap id = statements := by
  have hCuts := map_chars_ofSource source
  have hLines : ∀ l ∈ Line.ofSource source, OnOneLine l.chars := fun l hMem =>
    onOneLine_of_cuts hCuts l.chars (List.mem_map_of_mem hMem)
  constructor
  · rintro ⟨located, hRead, rfl⟩
    obtain ⟨found, hFound, hLocated⟩ := exists_of_bind_eq_ok hRead
    cases hLocated
    refine ⟨_, _, hCuts, (mapM_read_iff hLines).mp ⟨found, hFound, rfl⟩, ?_⟩
    exact (map_statement_filterMap found).symm
  · rintro ⟨lines, readings, hLinesOf, hReadings, rfl⟩
    -- there is one way only to cut the text
    obtain rfl : lines = (Line.ofSource source).map Line.chars :=
      (cuts_iff.mp hLinesOf).trans (cuts_iff.mp hCuts).symm
    obtain ⟨found, hFound, rfl⟩ := (mapM_read_iff hLines).mpr hReadings
    refine ⟨found.filterMap id, ?_, map_statement_filterMap found⟩
    rw [readSource, hFound]
    rfl

/-- The three line ends, a comment that hides a header, a value that follows a name without a blank,
and a header that could be a label. -/
example :
    (readSource "a:;section.data:\r\nnum x-5\rsection.data :\n".toList).map
        (List.map Located.statement) =
      .ok [.label "a", .declaration "num" "x" (.integer ⟨true, ['5']⟩), .dataHeader] := rfl

end StackProcessor.Assembly
