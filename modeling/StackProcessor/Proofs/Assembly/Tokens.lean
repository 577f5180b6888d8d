import Mathlib.Data.List.Basic
import StackProcessor.Proofs.Assembly.Lines

/-!
# StackProcessor — the tokens of a line

A line is a row of names, integers, quoted texts and colons (`Token`), with blanks and tabs around
them in any number (`OnlyGap`), and perhaps a comment at its end (`Trailer`): `HasTokens`.
`Token.Begins` says that a text begins with a token. A name and an integer go as far as they can,
and no character of a name may follow them (`Stops`), so there is one row of tokens at most. A
quoted text has neither a quote nor a line end inside.

The readers take exactly these tokens. What they skip between two of them holds no comment, since a
comment leaves nothing on the line; so `skip` and `OnlyGap` come to the same in front of a token.

## Results
- `Token.Begins.unique` : a text begins with one token at most.
- `readName_eq_some_iff`, `readLiteral_eq_some_iff`, `readOperand_eq_some_iff` : what readers take.
- `hasTokens_nil_iff`, `hasTokens_cons_iff` : the tokens behind what is skipped.
-/

namespace StackProcessor.Assembly

-- ---------------------------------------------------------------------------
-- Tokens
-- ---------------------------------------------------------------------------

/-- A token. -/
inductive Token where
  | name (name : String)
  | integer (n : IntegerLiteral)
  /-- The characters between the quotes. -/
  | text (chars : List Char)
  | colon
  deriving DecidableEq, Repr

/-- The token that an initial value is. -/
def Literal.token : Literal → Token
  | integer n => .integer n
  | text chars => .text chars

/-- The token that an operand is. -/
def Operand.token : Operand → Token
  | integer n => .integer n
  | symbol name => .name name

/-- No name and no integer goes on with these characters. -/
def Stops (rest : List Char) : Prop := ∀ c ∈ rest.head?, isNameChar c = false

/-- The text begins with the token, and the rest is what stands behind it. -/
inductive Token.Begins : Token → List Char → List Char → Prop where
  | name {c : Char} {cs rest : List Char} : isNameStart c = true →
    (∀ d ∈ cs, isNameChar d = true) → Stops rest →
    Begins (.name (String.ofList (c :: cs))) (c :: cs ++ rest) rest
  | integer {n : IntegerLiteral} {rest : List Char} : n.digits ≠ [] →
    (∀ d ∈ n.digits, d.isDigit = true) → Stops rest →
    Begins (.integer n) (n.spelling ++ rest) rest
  | text {chars rest : List Char} : '"' ∉ chars → OnOneLine chars →
    Begins (.text chars) ('"' :: chars ++ '"' :: rest) rest
  | colon {rest : List Char} : Begins .colon (':' :: rest) rest

/-- There are only blanks and tabs. -/
def OnlyGap (cs : List Char) : Prop := ∀ c ∈ cs, isGap c = true

/-- What stands behind the last token of a line: blanks and tabs, and perhaps a comment. -/
inductive Trailer : List Char → Prop where
  | gap {gap : List Char} : OnlyGap gap → Trailer gap
  | comment {gap comment : List Char} : OnlyGap gap → Trailer (gap ++ ';' :: comment)

/-- The line consists of these tokens. -/
inductive HasTokens : List Char → List Token → Prop where
  | none {cs : List Char} : Trailer cs → HasTokens cs []
  | cons {gap cs rest : List Char} {t : Token} {ts : List Token} :
    OnlyGap gap → t.Begins cs rest → HasTokens rest ts → HasTokens (gap ++ cs) (t :: ts)

-- ---------------------------------------------------------------------------
-- Characters
-- ---------------------------------------------------------------------------

theorem isNameStart_of_isDigit {c : Char} (h : c.isDigit = true) : isNameStart c = false := by
  have hAll : ∀ k < 10, isNameStart (Char.ofNat (48 + k)) = false := by decide
  have hLeast : 48 ≤ c.toNat := (Char.isDigit_iff_toNat.mp h).1
  have hGreatest : c.toNat ≤ 57 := (Char.isDigit_iff_toNat.mp h).2
  have hDigit := hAll (c.toNat - 48) (by omega)
  rwa [Nat.add_sub_cancel' hLeast, Char.ofNat_toNat] at hDigit

theorem isNameChar_of_isDigit {c : Char} (h : c.isDigit = true) : isNameChar c = true := by
  simp [isNameChar, Char.isAlphanum, h]

theorem isNameChar_of_isNameStart {c : Char} (h : isNameStart c = true) : isNameChar c = true :=
  isNameChar_iff.mpr (Or.inl h)

/-- A character that a token may begin with. -/
def isTokenStart (c : Char) : Bool :=
  isNameStart c || c.isDigit || c == '-' || c == '"' || c == ':'

theorem not_of_isTokenStart {c : Char} (h : isTokenStart c = true) :
    isGap c = false ∧ c ≠ ';' ∧ c ≠ '.' := by
  refine ⟨?_, ?_, ?_⟩
  · by_contra hGap
    rw [Bool.not_eq_false, isGap_iff] at hGap
    rcases hGap with rfl | rfl <;> exact absurd h (by decide)
  · rintro rfl
    exact absurd h (by decide)
  · rintro rfl
    exact absurd h (by decide)

/-- An integer begins with a minus sign or with a digit. -/
theorem IntegerLiteral.exists_spelling_eq_cons {n : IntegerLiteral} (hSome : n.digits ≠ [])
    (hDigits : ∀ d ∈ n.digits, d.isDigit = true) :
    ∃ c tail, n.spelling = c :: tail ∧ (c = '-' ∨ c.isDigit = true) := by
  obtain ⟨negative, digits⟩ := n
  obtain ⟨d, others, rfl⟩ := List.exists_cons_of_ne_nil hSome
  cases negative with
  | true => exact ⟨'-', _, rfl, Or.inl rfl⟩
  | false => exact ⟨d, _, rfl, Or.inr (hDigits d List.mem_cons_self)⟩

theorem Token.Begins.exists_cons {t : Token} {cs rest : List Char} (h : t.Begins cs rest) :
    ∃ c tail, cs = c :: tail ∧ isTokenStart c = true := by
  cases h with
  | @name c tail _ hFirst => exact ⟨c, _, rfl, by simp [isTokenStart, hFirst]⟩
  | @integer n rest hSome hDigits =>
    obtain ⟨c, tail, hSpelling, hFirst⟩ := IntegerLiteral.exists_spelling_eq_cons hSome hDigits
    refine ⟨c, tail ++ rest, by rw [hSpelling, List.cons_append], ?_⟩
    rcases hFirst with rfl | hDigit
    · decide
    · simp [isTokenStart, hDigit]
  | text => exact ⟨'"', _, rfl, by decide⟩
  | colon => exact ⟨':', _, rfl, by decide⟩

theorem Token.Begins.onOneLine {t : Token} {cs rest : List Char} (h : t.Begins cs rest)
    (hLine : OnOneLine cs) : OnOneLine rest := by
  cases h with
  | name => exact hLine.of_append
  | integer => exact hLine.of_append
  | text => exact hLine.of_append.of_cons.2
  | colon => exact hLine.of_cons.2

-- ---------------------------------------------------------------------------
-- Readers of tokens
-- ---------------------------------------------------------------------------

/-- A condition on the first character stands if what is put behind the text meets it as well. -/
theorem forall_head?_append {P : Char → Prop} {rest behind : List Char}
    (hBehind : ∀ c ∈ behind.head?, P c) :
    (∀ c ∈ (rest ++ behind).head?, P c) ↔ ∀ c ∈ rest.head?, P c := by
  cases rest with
  | nil => exact iff_of_true hBehind nofun
  | cons c tail => exact Iff.rfl

theorem Stops.append {rest behind : List Char} (h : Stops rest) (hBehind : Stops behind) :
    Stops (rest ++ behind) :=
  (forall_head?_append hBehind).mpr h

/-- A token ends before what no token goes on with. -/
theorem Token.Begins.append {t : Token} {cs rest behind : List Char} (h : t.Begins cs rest)
    (hBehind : Stops behind) : t.Begins (cs ++ behind) (rest ++ behind) := by
  cases h with
  | name hFirst hChars hStops =>
    rw [List.append_assoc]
    exact .name hFirst hChars (hStops.append hBehind)
  | integer hSome hDigits hStops =>
    rw [List.append_assoc]
    exact .integer hSome hDigits (hStops.append hBehind)
  | text hQuote hChars =>
    rw [List.append_assoc]
    exact .text hQuote hChars
  | colon => exact .colon

section

variable {p : Char → Bool} {cs rest : List Char}

theorem takeWhile_append_of_stop (hAll : ∀ c ∈ cs, p c = true)
    (hStop : ∀ c ∈ rest.head?, p c = false) : (cs ++ rest).takeWhile p = cs := by
  rw [List.takeWhile_append_of_pos hAll]
  cases rest with
  | nil => simp
  | cons c tail => rw [List.takeWhile_cons_of_neg (by simp [hStop c rfl]), List.append_nil]

theorem dropWhile_append_of_stop (hAll : ∀ c ∈ cs, p c = true)
    (hStop : ∀ c ∈ rest.head?, p c = false) : (cs ++ rest).dropWhile p = rest := by
  rw [List.dropWhile_append_of_pos hAll]
  cases rest with
  | nil => rfl
  | cons c tail => rw [List.dropWhile_cons_of_neg (by simp [hStop c rfl])]

theorem head?_dropWhile_eq_false : ∀ c ∈ (cs.dropWhile p).head?, p c = false := by
  intro c hc
  have hHead := List.head?_dropWhile_not p cs
  rw [Option.mem_def.mp hc] at hHead
  simpa using hHead

end

theorem readExactly_eq_some_iff {token cs rest : List Char} :
    readExactly token cs = some ((), rest) ↔ cs = token ++ rest := by
  rw [readExactly, Option.map_eq_some_iff]
  constructor
  · rintro ⟨found, hFound, hPair⟩
    cases hPair
    exact (List.isPrefixOf?_eq_some_iff_append_eq.mp hFound).symm
  · intro h
    exact ⟨rest, List.isPrefixOf?_eq_some_iff_append_eq.mpr h.symm, rfl⟩

theorem readColon_eq_some_iff {cs rest : List Char} :
    readExactly [':'] cs = some ((), rest) ↔ Token.colon.Begins cs rest := by
  rw [readExactly_eq_some_iff]
  constructor
  · rintro rfl
    exact .colon
  · intro h
    cases h
    rfl

theorem readName_eq_some_iff {cs rest : List Char} {name : String} :
    readName cs = some (name, rest) ↔ (Token.name name).Begins cs rest := by
  constructor
  · intro h
    unfold readName at h
    split at h
    · rename_i c tail
      split at h
      · rename_i hFirst
        cases h
        have hChars : ∀ d ∈ tail.takeWhile isNameChar, isNameChar d = true :=
          fun d hd => List.mem_takeWhile_imp hd
        have hStops : Stops (tail.dropWhile isNameChar) := head?_dropWhile_eq_false
        have hBegins := Token.Begins.name hFirst hChars hStops
        rwa [List.cons_append, List.takeWhile_append_dropWhile] at hBegins
      · cases h
    · cases h
  · intro h
    cases h with
    | name hFirst hChars hStops =>
      rw [List.cons_append, readName, if_pos hFirst, takeWhile_append_of_stop hChars hStops,
        dropWhile_append_of_stop hChars hStops]

theorem readDigits_eq_some_iff {cs rest digits : List Char} :
    readDigits cs = some (digits, rest) ↔
      cs = digits ++ rest ∧ digits ≠ [] ∧ (∀ d ∈ digits, d.isDigit = true) ∧ Stops rest := by
  constructor
  · intro h
    unfold readDigits at h
    simp only [Bool.or_eq_true, List.isEmpty_iff] at h
    split at h
    · cases h
    · rename_i hSome
      cases h
      obtain ⟨hNonempty, hStops⟩ := not_or.mp hSome
      refine ⟨List.takeWhile_append_dropWhile.symm, hNonempty,
        fun d hd => List.mem_takeWhile_imp hd, fun c hc => ?_⟩
      rw [Option.mem_def.mp hc] at hStops
      simpa using hStops
  · rintro ⟨rfl, hSome, hDigits, hStops⟩
    have hStop : ∀ c ∈ rest.head?, c.isDigit = false := by
      intro c hc
      by_contra hDigit
      rw [Bool.not_eq_false] at hDigit
      have hName := isNameChar_of_isDigit hDigit
      rw [hStops c hc] at hName
      cases hName
    have hEnd : rest.head?.any isNameChar = false := by
      cases rest with
      | nil => rfl
      | cons c tail => exact hStops c rfl
    simp only [readDigits, takeWhile_append_of_stop hDigits hStop,
      dropWhile_append_of_stop hDigits hStop, hEnd, Bool.or_false, List.isEmpty_iff, if_neg hSome]

theorem readInteger_eq_some_iff {cs rest : List Char} {n : IntegerLiteral} :
    readInteger cs = some (n, rest) ↔ (Token.integer n).Begins cs rest := by
  constructor
  · intro h
    unfold readInteger at h
    split at h
    all_goals
      obtain ⟨⟨digits, after⟩, hDigits, hPair⟩ := Option.map_eq_some_iff.mp h
      cases hPair
      obtain ⟨rfl, hSome, hAll, hStops⟩ := readDigits_eq_some_iff.mp hDigits
    · exact .integer (n := ⟨true, digits⟩) hSome hAll hStops
    · exact .integer (n := ⟨false, digits⟩) hSome hAll hStops
  · intro h
    cases h with
    | integer hSome hAll hStops =>
      obtain ⟨negative, digits⟩ := n
      have hDigits := readDigits_eq_some_iff.mpr ⟨rfl, hSome, hAll, hStops⟩
      cases negative with
      | true =>
        have hRead : readInteger ('-' :: (digits ++ rest)) =
            (readDigits (digits ++ rest)).map fun found => (⟨true, found.1⟩, found.2) := rfl
        exact hRead.trans (congrArg _ hDigits)
      | false =>
        obtain ⟨d, others, rfl⟩ := List.exists_cons_of_ne_nil hSome
        have hFirst : d ≠ '-' := by
          rintro rfl
          exact absurd (hAll '-' List.mem_cons_self) (by decide)
        show readInteger (d :: others ++ rest) = _
        unfold readInteger
        split
        · rename_i hSpelling
          cases hSpelling
          exact absurd rfl hFirst
        · exact congrArg _ hDigits

theorem readText_eq_some_iff {cs rest chars : List Char} :
    readText cs = some (chars, rest) ↔ (Token.text chars).Begins cs rest := by
  constructor
  · intro h
    unfold readText at h
    split at h
    · rename_i inside
      dsimp only at h
      split at h
      · rename_i after hDrop
        cases h
        have hInside : ∀ c ∈ inside.takeWhile (fun c => !(c == '"' || isLineEnd c)),
            c ≠ '"' ∧ isLineEnd c = false := by
          intro c hc
          simpa using List.mem_takeWhile_imp hc
        have hSplit := List.takeWhile_append_dropWhile
          (p := fun c => !(c == '"' || isLineEnd c)) (l := inside)
        rw [hDrop] at hSplit
        have hBegins := @Token.Begins.text _ rest (fun hQuote => (hInside '"' hQuote).1 rfl)
          (fun c hc => (hInside c hc).2)
        rwa [List.cons_append, hSplit] at hBegins
      · cases h
    · cases h
  · intro h
    cases h with
    | text hQuote hLine =>
      have hInside : ∀ c ∈ chars, (!(c == '"' || isLineEnd c)) = true := by
        intro c hc
        have hc' : c ≠ '"' := fun hEq => hQuote (hEq ▸ hc)
        simp [hc', hLine c hc]
      have hStop : ∀ c ∈ ('"' :: rest).head?, (!(c == '"' || isLineEnd c)) = false := by
        intro c hc
        cases hc
        rfl
      simp only [List.cons_append, readText, takeWhile_append_of_stop hInside hStop,
        dropWhile_append_of_stop hInside hStop]

/-- Takes the token at the front of a text, which its first character tells. -/
def readToken : Reader Token := fun cs =>
  match cs with
  | [] => none
  | c :: rest =>
    if c = ':' then some (.colon, rest)
    else if c = '"' then (readText cs).map fun (chars, rest) => (.text chars, rest)
    else if isNameStart c then (readName cs).map fun (name, rest) => (.name name, rest)
    else (readInteger cs).map fun (n, rest) => (.integer n, rest)

theorem Token.Begins.readToken_eq {t : Token} {cs rest : List Char} (h : t.Begins cs rest) :
    readToken cs = some (t, rest) := by
  have hWhole := h
  cases h with
  | @name c tail _ hFirst hChars hStops =>
    have hColon : c ≠ ':' := by
      rintro rfl
      exact absurd hFirst (by decide)
    have hQuote : c ≠ '"' := by
      rintro rfl
      exact absurd hFirst (by decide)
    have hName := readName_eq_some_iff.mpr hWhole
    rw [List.cons_append] at hName ⊢
    rw [readToken, if_neg hColon, if_neg hQuote, if_pos hFirst, hName, Option.map_some]
  | @integer n _ hSome hDigits hStops =>
    obtain ⟨c, tail, hSpelling, hFirst⟩ := IntegerLiteral.exists_spelling_eq_cons hSome hDigits
    have hName : isNameStart c = false := by
      rcases hFirst with rfl | hDigit
      · decide
      · exact isNameStart_of_isDigit hDigit
    have hColon : c ≠ ':' := by
      rintro rfl
      exact absurd hFirst (by decide)
    have hQuote : c ≠ '"' := by
      rintro rfl
      exact absurd hFirst (by decide)
    have hRead := readInteger_eq_some_iff.mpr hWhole
    rw [hSpelling, List.cons_append] at hRead ⊢
    rw [readToken, if_neg hColon, if_neg hQuote, if_neg (by simp [hName]), hRead, Option.map_some]
  | text =>
    have hText := readText_eq_some_iff.mpr hWhole
    rw [List.cons_append] at hText ⊢
    rw [readToken, if_neg (by decide), if_pos rfl, hText, Option.map_some]
  | colon => rfl

/-- A text begins with one token at most. -/
theorem Token.Begins.unique {t t' : Token} {cs rest rest' : List Char} (h : t.Begins cs rest)
    (h' : t'.Begins cs rest') : t = t' ∧ rest = rest' := by
  have hRead := h.readToken_eq.symm.trans h'.readToken_eq
  simpa using hRead

theorem readLiteral_eq_some_iff {cs rest : List Char} {value : Literal} :
    readLiteral cs = some (value, rest) ↔ value.token.Begins cs rest := by
  constructor
  · intro h
    unfold readLiteral at h
    split at h
    · rename_i chars after hText
      cases h
      exact readText_eq_some_iff.mp hText
    · obtain ⟨⟨n, after⟩, hInteger, hPair⟩ := Option.map_eq_some_iff.mp h
      cases hPair
      exact readInteger_eq_some_iff.mp hInteger
  · intro h
    unfold readLiteral
    cases value with
    | text chars => rw [readText_eq_some_iff.mpr h]
    | integer n =>
      -- the text does not begin with a quote as well
      rcases hText : readText cs with _ | ⟨chars, after⟩
      · simp only [readInteger_eq_some_iff.mpr h, Option.map_some]
      · cases ((readText_eq_some_iff.mp hText).unique h).1

theorem readOperand_eq_some_iff {cs rest : List Char} {operand : Operand} :
    readOperand cs = some (operand, rest) ↔ operand.token.Begins cs rest := by
  constructor
  · intro h
    unfold readOperand at h
    split at h
    · rename_i n after hInteger
      cases h
      exact readInteger_eq_some_iff.mp hInteger
    · obtain ⟨⟨name, after⟩, hName, hPair⟩ := Option.map_eq_some_iff.mp h
      cases hPair
      exact readName_eq_some_iff.mp hName
  · intro h
    unfold readOperand
    cases operand with
    | integer n => rw [readInteger_eq_some_iff.mpr h]
    | symbol name =>
      rcases hInteger : readInteger cs with _ | ⟨n, after⟩
      · simp only [readName_eq_some_iff.mpr h, Option.map_some]
      · cases ((readInteger_eq_some_iff.mp hInteger).unique h).1

-- ---------------------------------------------------------------------------
-- Gaps and comments
-- ---------------------------------------------------------------------------

/-- The text begins neither with a gap nor with a comment. -/
def Opens (cs : List Char) : Prop := ∀ c ∈ cs.head?, isGap c = false ∧ c ≠ ';'

theorem Token.Begins.opens {t : Token} {cs rest : List Char} (h : t.Begins cs rest) : Opens cs := by
  obtain ⟨c, tail, rfl, hStart⟩ := h.exists_cons
  intro d hd
  cases hd
  exact ⟨(not_of_isTokenStart hStart).1, (not_of_isTokenStart hStart).2.1⟩

theorem Token.Begins.ne_nil {t : Token} {cs rest : List Char} (h : t.Begins cs rest) : cs ≠ [] := by
  obtain ⟨c, tail, rfl, _⟩ := h.exists_cons
  exact List.cons_ne_nil c tail

theorem dropComment_of_opens {cs : List Char} (h : Opens cs) : dropComment cs = cs := by
  unfold dropComment
  split
  · exact absurd rfl (h ';' rfl).2
  · rfl

/-- A gap before a token is skipped, and nothing else. -/
theorem skip_append {gap cs : List Char} (hGap : OnlyGap gap) (h : Opens cs) :
    skip (gap ++ cs) = cs := by
  rw [skip, dropWhile_append_of_stop hGap fun c hc => (h c hc).1, dropComment_of_opens h]

theorem skip_of_opens {cs : List Char} (h : Opens cs) : skip cs = cs :=
  @skip_append [] cs (fun _ hc => absurd hc List.not_mem_nil) h

section

variable {cs : List Char} (hLine : OnOneLine cs)

include hLine

theorem dropWhile_of_onOneLine : cs.dropWhile (fun c => !isLineEnd c) = [] :=
  List.dropWhile_eq_nil_iff.mpr fun c hc => by rw [hLine c hc]; rfl

/-- On a line, a gap is skipped before something that is neither gap nor comment, or else the line
is skipped to its end. -/
theorem skip_cases :
    (Trailer cs ∧ skip cs = []) ∨
      ∃ gap, OnlyGap gap ∧ cs = gap ++ skip cs ∧ Opens (skip cs) ∧ skip cs ≠ [] := by
  have hSplit := List.takeWhile_append_dropWhile (p := isGap) (l := cs)
  have hGap : OnlyGap (cs.takeWhile isGap) := fun c hc => List.mem_takeWhile_imp hc
  have hStop : ∀ c ∈ (cs.dropWhile isGap).head?, isGap c = false := head?_dropWhile_eq_false
  rcases hRest : cs.dropWhile isGap with _ | ⟨c, rest⟩
  · rw [hRest, List.append_nil] at hSplit
    refine Or.inl ⟨.gap (hSplit ▸ hGap), ?_⟩
    rw [skip, hRest]
    rfl
  rw [hRest] at hSplit hStop
  have hTail := (hSplit ▸ hLine).of_append
  by_cases hComment : c = ';'
  · subst hComment
    refine Or.inl ⟨hSplit ▸ .comment hGap, ?_⟩
    rw [skip, hRest]
    exact dropWhile_of_onOneLine hTail.of_cons.2
  · have hOpens : Opens (c :: rest) := by
      intro d hd
      cases hd
      exact ⟨hStop c rfl, hComment⟩
    have hSkip : skip cs = c :: rest := by rw [skip, hRest, dropComment_of_opens hOpens]
    rw [hSkip]
    exact Or.inr ⟨_, hGap, hSplit.symm, hOpens, List.cons_ne_nil c rest⟩

theorem skip_eq_nil_iff : skip cs = [] ↔ Trailer cs := by
  constructor
  · intro h
    rcases skip_cases hLine with ⟨hTrailer, _⟩ | ⟨_, _, _, _, hSome⟩
    · exact hTrailer
    · exact absurd h hSome
  · intro h
    cases h with
    | gap hGap => exact (List.append_nil cs) ▸ skip_append hGap (fun c hc => by cases hc)
    | @comment gap comment hGap =>
      have hStop : ∀ c ∈ (';' :: comment).head?, isGap c = false := by
        intro c hc
        cases hc
        rfl
      rw [skip, dropWhile_append_of_stop hGap hStop]
      exact dropWhile_of_onOneLine hLine.of_append.of_cons.2

theorem exists_gap_of_skip_ne_nil (h : skip cs ≠ []) :
    ∃ gap, OnlyGap gap ∧ cs = gap ++ skip cs := by
  rcases skip_cases hLine with ⟨_, hNil⟩ | ⟨gap, hGap, hSplit, _, _⟩
  · exact absurd hNil h
  · exact ⟨gap, hGap, hSplit⟩

theorem skip_skip : skip (skip cs) = skip cs := by
  rcases skip_cases hLine with ⟨_, hNil⟩ | ⟨_, _, _, hOpens, _⟩
  · rw [hNil]
    rfl
  · exact skip_of_opens hOpens

theorem onOneLine_skip : OnOneLine (skip cs) := by
  rcases skip_cases hLine with ⟨_, hNil⟩ | ⟨_, _, hSplit, _, _⟩
  · rw [hNil]
    exact fun c hc => absurd hc List.not_mem_nil
  · exact (hSplit ▸ hLine).of_append

-- ---------------------------------------------------------------------------
-- Rows of tokens
-- ---------------------------------------------------------------------------

/-- There are no more tokens if what is skipped reaches to the end of the line. -/
theorem hasTokens_nil_iff : HasTokens cs [] ↔ skip cs = [] := by
  rw [skip_eq_nil_iff hLine]
  constructor
  · intro h
    cases h with
    | none hTrailer => exact hTrailer
  · exact .none

/-- The first token stands behind what is skipped. -/
theorem hasTokens_cons_iff {t : Token} {ts : List Token} :
    HasTokens cs (t :: ts) ↔ ∃ rest, t.Begins (skip cs) rest ∧ HasTokens rest ts := by
  constructor
  · intro h
    cases h with
    | cons hGap hBegins hRest =>
      rw [skip_append hGap hBegins.opens]
      exact ⟨_, hBegins, hRest⟩
  · rintro ⟨rest, hBegins, hRest⟩
    obtain ⟨gap, hGap, hSplit⟩ := exists_gap_of_skip_ne_nil hLine hBegins.ne_nil
    rw [hSplit]
    exact .cons hGap hBegins hRest

/-- What stands behind a token of the line is on the line as well. -/
theorem Token.Begins.onOneLine_of_skip {t : Token} {rest : List Char}
    (h : t.Begins (skip cs) rest) : OnOneLine rest :=
  h.onOneLine (onOneLine_skip hLine)

/-- The first token of a line, and the rest of the line. -/
theorem HasTokens.exists_rest {t : Token} {ts : List Token} (h : HasTokens cs (t :: ts)) :
    ∃ rest, OnOneLine rest ∧ t.Begins (skip cs) rest ∧ HasTokens rest ts := by
  obtain ⟨rest, hBegins, hRest⟩ := (hasTokens_cons_iff hLine).mp h
  exact ⟨rest, hBegins.onOneLine_of_skip hLine, hBegins, hRest⟩

end

end StackProcessor.Assembly
