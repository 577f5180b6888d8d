import Mathlib.Logic.Relation
import StackProcessor.Proofs.Assembly.Program

/-!
# StackProcessor — formatting

An `Edit` changes one of the lines of a text: blanks and tabs at its front (`OnlyGap`), a `Trailer`
at its end, which may be a comment, a line with nothing else on it, or another `LineEnd`. Texts are
taken apart into lines (`Formed`) before an edit and put together again behind it, and `Reformats`
relates the texts. An edited text holds the same program.

Two things could go wrong. A token could go on into what is appended; but that begins with a blank
or with a semicolon, and no name or integer goes on with either (`Stops`). And a header of a section
could come about where a comment is appended (`Heads.of_append`); but there would have to be a colon
before the semicolon.

A carriage return and a line feed behind it end one line. Where the line end before an empty line is
exchanged, the two can come together and the empty line is gone, so the pieces of the edited text
need not be those of the `Edit`. But nothing stood on the empty line, and `holds_cut_join` says that
the program is the same.

## Results
- `Heads.of_append`, `Reads.append`, `Reads.prepend` : what a line holds.
- `holds_cut_join` : the program of a text that is put together from lines.
- `assemble_reformatted` : reformatting changes neither the image nor the names.
-/

namespace StackProcessor.Assembly

-- ---------------------------------------------------------------------------
-- Edits
-- ---------------------------------------------------------------------------

/-- These are the lines of a text, each but the last with a line end. -/
inductive Formed : List (List Char × LineEnd) → Prop where
  | last {line : List Char} : OnOneLine line → Formed [(line, .text)]
  | line {line : List Char} {ending : LineEnd} {pieces : List (List Char × LineEnd)} :
    OnOneLine line → ending ≠ .text → Formed pieces → Formed ((line, ending) :: pieces)

instance (cs : List Char) : Decidable (OnOneLine cs) :=
  decidable_of_iff (cs.all fun c => !isLineEnd c) (by simp [OnOneLine])

instance (cs : List Char) : Decidable (OnlyGap cs) :=
  decidable_of_iff (cs.all isGap) List.all_eq_true

theorem onOneLine_nil : OnOneLine [] := fun _ hc => absurd hc List.not_mem_nil

theorem Formed.onOneLine {line : List Char} {ending : LineEnd}
    {pieces : List (List Char × LineEnd)} (h : Formed ((line, ending) :: pieces)) :
    OnOneLine line := by
  cases h with
  | last hLine => exact hLine
  | line hLine => exact hLine

/-- Another line in the place of the first one. -/
theorem Formed.with_line {line line' : List Char} {ending : LineEnd}
    {pieces : List (List Char × LineEnd)} (h : Formed ((line, ending) :: pieces))
    (hLine : OnOneLine line') : Formed ((line', ending) :: pieces) := by
  cases h with
  | last => exact .last hLine
  | line _ hEnd hRest => exact .line hLine hEnd hRest

/-- A text is cut into its lines. -/
theorem formed_cut (source : List Char) : Formed (LineEnd.cut source) := by
  induction source with
  | nil => exact .last onOneLine_nil
  | cons c rest ih =>
    show Formed (LineEnd.cons c (LineEnd.cut rest))
    generalize LineEnd.cut rest = pieces at ih
    unfold LineEnd.cons
    split
    · exact .line onOneLine_nil nofun ih
    · split
      · split
        · cases ih with
          | line hLine _ hRest => exact .line onOneLine_nil nofun hRest
        · exact .line onOneLine_nil nofun ih
      · rename_i hFeed hReturn
        have hc : isLineEnd c = false := by simp [isLineEnd, hFeed, hReturn]
        split
        · exact ih.with_line (List.forall_mem_cons.mpr ⟨hc, ih.onOneLine⟩)
        · cases ih

/-- One edit of the lines of a text. -/
inductive Edit : List (List Char × LineEnd) → List (List Char × LineEnd) → Prop where
  /-- Blanks, tabs or a comment at the end of a line. -/
  | append {line added : List Char} {ending : LineEnd} {pieces : List (List Char × LineEnd)} :
    OnOneLine added → Trailer added →
    Edit ((line, ending) :: pieces) ((line ++ added, ending) :: pieces)
  /-- Blanks and tabs at the front of a line. -/
  | prepend {line gap : List Char} {ending : LineEnd} {pieces : List (List Char × LineEnd)} :
    OnlyGap gap → Edit ((line, ending) :: pieces) ((gap ++ line, ending) :: pieces)
  /-- A line of blanks, tabs and perhaps a comment, before another line. -/
  | insert {line blank : List Char} {ending ending' : LineEnd}
    {pieces : List (List Char × LineEnd)} : OnOneLine blank → Trailer blank → ending' ≠ .text →
    Edit ((line, ending) :: pieces) ((blank, ending') :: (line, ending) :: pieces)
  /-- Such a line behind the last one. -/
  | insertLast {line blank : List Char} {ending' : LineEnd} : OnOneLine blank → Trailer blank →
    ending' ≠ .text → Edit [(line, .text)] [(line, ending'), (blank, .text)]
  /-- Another line end. -/
  | replace {line : List Char} {ending ending' : LineEnd} {pieces : List (List Char × LineEnd)} :
    ending ≠ .text → ending' ≠ .text → Edit ((line, ending) :: pieces) ((line, ending') :: pieces)
  /-- An edit further on. -/
  | further {piece : List Char × LineEnd} {pieces pieces' : List (List Char × LineEnd)} :
    Edit pieces pieces' → Edit (piece :: pieces) (piece :: pieces')

/-- One text is the other after one edit, however that is taken apart into lines. -/
def Reformats (source edited : String) : Prop :=
  ∃ pieces pieces', Formed pieces ∧ source.toList = LineEnd.join pieces ∧ Edit pieces pieces' ∧
    edited.toList = LineEnd.join pieces'

/-- An edit of the lines that a text is cut into. -/
theorem Reformats.of_cut {source edited : String} {pieces pieces' : List (List Char × LineEnd)}
    (hSource : LineEnd.cut source.toList = pieces) (hEdit : Edit pieces pieces')
    (hEdited : edited.toList = LineEnd.join pieces') : Reformats source edited := by
  subst hSource
  exact ⟨_, pieces', formed_cut _, (LineEnd.join_cut _).symm, hEdit, hEdited⟩

-- ---------------------------------------------------------------------------
-- Blanks and comments
-- ---------------------------------------------------------------------------

theorem OnOneLine.append {cs rest : List Char} (h : OnOneLine cs) (hRest : OnOneLine rest) :
    OnOneLine (cs ++ rest) :=
  List.forall_mem_append.mpr ⟨h, hRest⟩

theorem OnlyGap.append {gap gap' : List Char} (h : OnlyGap gap) (h' : OnlyGap gap') :
    OnlyGap (gap ++ gap') :=
  List.forall_mem_append.mpr ⟨h, h'⟩

theorem OnlyGap.onOneLine {gap : List Char} (h : OnlyGap gap) : OnOneLine gap := by
  intro c hc
  rcases isGap_iff.mp (h c hc) with rfl | rfl <;> rfl

theorem trailer_nil : Trailer [] := .gap fun _ hc => absurd hc List.not_mem_nil

theorem Trailer.prepend {gap trailer : List Char} (hGap : OnlyGap gap) (h : Trailer trailer) :
    Trailer (gap ++ trailer) := by
  cases h with
  | gap hMore => exact .gap (hGap.append hMore)
  | comment hMore =>
    rw [← List.append_assoc]
    exact .comment (hGap.append hMore)

theorem Trailer.append {trailer added : List Char} (h : Trailer trailer) (hAdded : Trailer added) :
    Trailer (trailer ++ added) := by
  cases h with
  | gap hGap => exact hAdded.prepend hGap
  | comment hGap =>
    rw [List.append_assoc, List.cons_append]
    exact .comment hGap

/-- What stands before the end of a trailer is one as well. -/
theorem Trailer.of_append {trailer added : List Char} (h : Trailer (trailer ++ added)) :
    Trailer trailer := by
  generalize hWhole : trailer ++ added = whole at h
  cases h with
  | gap hGap =>
    rw [← hWhole] at hGap
    exact .gap (List.forall_mem_append.mp hGap).1
  | comment hGap =>
    rcases List.append_eq_append_iff.mp hWhole with ⟨more, rfl, _⟩ | ⟨rest, rfl, hRest⟩
    · exact .gap (List.forall_mem_append.mp hGap).1
    · cases rest with
      | nil =>
        rw [List.append_nil]
        exact .gap hGap
      | cons c tail =>
        obtain ⟨rfl, -⟩ := List.cons.inj hRest
        exact .comment hGap

/-- A trailer begins with a blank, a tab or a semicolon, and so ends a name and an integer. -/
theorem Trailer.stops {trailer : List Char} (h : Trailer trailer) : Stops trailer := by
  cases h with
  | gap hGap =>
    rw [← List.append_nil trailer]
    exact stops_gap_append hGap fun c hc => nomatch hc
  | comment hGap =>
    refine stops_gap_append hGap ?_
    intro c hc
    cases hc
    rfl

theorem OnlyGap.not_mem {gap : List Char} (h : OnlyGap gap) {c : Char} (hc : isGap c = false) :
    c ∉ gap := by
  intro hMem
  rw [h c hMem] at hc
  cases hc

/-- Where there is a colon in a trailer, there is a semicolon before it. -/
theorem Trailer.semicolon_mem {before after : List Char}
    (h : Trailer (before ++ ':' :: after)) : ';' ∈ before := by
  generalize hWhole : before ++ ':' :: after = whole at h
  cases h with
  | gap hGap =>
    have hColon : ':' ∈ whole := by simp [← hWhole]
    exact absurd hColon (hGap.not_mem rfl)
  | @comment gap comment hGap =>
    rcases List.append_eq_append_iff.mp hWhole with ⟨more, rfl, hMore⟩ | ⟨more, rfl, hMore⟩
    · -- the colon would be in the gap
      cases more with
      | nil => cases (List.cons.inj hMore).1
      | cons c tail =>
        obtain ⟨rfl, -⟩ := List.cons.inj hMore
        exact absurd (by simp) (hGap.not_mem (@rfl _ (isGap ':')))
    · cases more with
      | nil => cases (List.cons.inj hMore).1
      | cons c tail =>
        obtain ⟨rfl, -⟩ := List.cons.inj hMore
        simp

theorem skip_gap_append {gap : List Char} (hGap : OnlyGap gap) (cs : List Char) :
    skip (gap ++ cs) = skip cs := by
  rw [skip, skip, List.dropWhile_append_of_pos hGap]

-- ---------------------------------------------------------------------------
-- Headers
-- ---------------------------------------------------------------------------

theorem Heads.append {name line rest : List Char} (h : Heads name line rest)
    (added : List Char) : Heads name (line ++ added) (rest ++ added) := by
  cases h with
  | intro hGap₁ hGap₂ hGap₃ =>
    simp only [List.append_assoc, List.cons_append]
    exact .intro hGap₁ hGap₂ hGap₃

/-- There is no semicolon before the colon of a header. -/
theorem IsSectionName.semicolon_not_mem {name : List Char} (h : IsSectionName name) :
    ';' ∉ name := by
  intro hMem
  exact absurd (h.chars ';' hMem) (by decide)

/-- A header does not come about by what is appended. -/
theorem Heads.of_append {name line added rest : List Char} (hName : IsSectionName name)
    (h : Heads name (line ++ added) rest) (hAdded : Trailer added) :
    ∃ rest', Heads name line rest' ∧ rest = rest' ++ added := by
  generalize hWhole : line ++ added = whole at h
  cases h with
  | @intro gap₁ gap₂ gap₃ _ hGap₁ hGap₂ hGap₃ =>
  have hSemicolon : isGap ';' = false := rfl
  have hFront : ';' ∉ gap₁ ++ ("section".toList ++ (gap₂ ++ (name ++ gap₃))) := by
    simp [hGap₁.not_mem hSemicolon, hGap₂.not_mem hSemicolon, hGap₃.not_mem hSemicolon,
      hName.semicolon_not_mem]
  have hSplit : line ++ added =
      gap₁ ++ ("section".toList ++ (gap₂ ++ (name ++ gap₃))) ++ ':' :: rest := by
    simpa only [List.append_assoc] using hWhole
  have hNotBefore (more : List Char) (hMore : added = more ++ ':' :: rest) : ';' ∈ more :=
    (hMore ▸ hAdded).semicolon_mem
  rcases List.append_eq_append_iff.mp hSplit with ⟨more, hLine, hMore⟩ | ⟨more, hLine, hMore⟩
  · -- the colon stands in what is appended
    rw [hLine] at hFront
    exact absurd (List.mem_append_right line (hNotBefore more hMore)) hFront
  · cases more with
    | nil => exact absurd (hNotBefore [] hMore.symm) List.not_mem_nil
    | cons c tail =>
      obtain ⟨rfl, rfl⟩ := List.cons.inj hMore
      refine ⟨tail, ?_, rfl⟩
      rw [hLine]
      simp only [List.append_assoc]
      exact .intro hGap₁ hGap₂ hGap₃

/-- A line is the header that another one is if it begins with the headers that the other begins
with, and has nothing behind them where the other has nothing. -/
theorem IsHeader.imp {line line' : List Char} {statement : Statement} (h : IsHeader line statement)
    (hLine : ∀ {name rest}, IsSectionName name → Heads name line rest →
      ∃ rest', Heads name line' rest' ∧ (Trailer rest → Trailer rest')) :
    IsHeader line' statement := by
  cases h with
  | data hHeads hTrailer =>
    obtain ⟨rest', hHeads', hRest⟩ := hLine isSectionName_data hHeads
    exact .data hHeads' (hRest hTrailer)
  | code hHeads hTrailer =>
    obtain ⟨rest', hHeads', hRest⟩ := hLine isSectionName_code hHeads
    exact .code hHeads' (hRest hTrailer)

theorem IsHeader.append {line added : List Char} {statement : Statement}
    (h : IsHeader line statement) (hAdded : Trailer added) :
    IsHeader (line ++ added) statement :=
  h.imp fun _ hHeads => ⟨_, hHeads.append added, fun hTrailer => hTrailer.append hAdded⟩

theorem IsHeader.of_append {line added : List Char} {statement : Statement}
    (h : IsHeader (line ++ added) statement) (hAdded : Trailer added) :
    IsHeader line statement := by
  refine h.imp fun hName hHeads => ?_
  obtain ⟨rest, hBefore, rfl⟩ := hHeads.of_append hName hAdded
  exact ⟨rest, hBefore, Trailer.of_append⟩

section

variable {gap line : List Char} (hGap : OnlyGap gap)

include hGap

theorem Heads.prepend {name rest : List Char} (h : Heads name line rest) :
    Heads name (gap ++ line) rest := by
  cases h with
  | intro hGap₁ hGap₂ hGap₃ =>
    rw [← List.append_assoc]
    exact .intro (hGap.append hGap₁) hGap₂ hGap₃

theorem Heads.of_prepend {name rest : List Char} (hName : IsSectionName name)
    (hLine : OnOneLine line) (h : Heads name (gap ++ line) rest) : Heads name line rest := by
  have hParts := (heads_iff (hGap.onOneLine.append hLine) hName).mp h
  rw [skip_gap_append hGap] at hParts
  exact (heads_iff hLine hName).mpr hParts

theorem IsHeader.prepend {statement : Statement} (h : IsHeader line statement) :
    IsHeader (gap ++ line) statement :=
  h.imp fun _ hHeads => ⟨_, hHeads.prepend hGap, id⟩

theorem IsHeader.of_prepend {statement : Statement} (hLine : OnOneLine line)
    (h : IsHeader (gap ++ line) statement) : IsHeader line statement :=
  h.imp fun hName hHeads => ⟨_, hHeads.of_prepend hGap hName hLine, id⟩

end

-- ---------------------------------------------------------------------------
-- Lines
-- ---------------------------------------------------------------------------

theorem HasTokens.append {line added : List Char} {ts : List Token} (h : HasTokens line ts)
    (hAdded : Trailer added) : HasTokens (line ++ added) ts := by
  induction h with
  | none hTrailer => exact .none (hTrailer.append hAdded)
  | cons hGap hBegins _ ih =>
    rw [List.append_assoc]
    exact .cons hGap (hBegins.append hAdded.stops) ih

theorem HasTokens.prepend {gap line : List Char} {ts : List Token} (hGap : OnlyGap gap)
    (h : HasTokens line ts) : HasTokens (gap ++ line) ts := by
  cases h with
  | none hTrailer => exact .none (hTrailer.prepend hGap)
  | cons hMore hBegins hRest =>
    rw [← List.append_assoc]
    exact .cons (hGap.append hMore) hBegins hRest

/-- A line holds the same with a comment behind it. -/
theorem Reads.append {line added : List Char} {reading : Option Statement}
    (h : Reads line reading) (hAdded : Trailer added) : Reads (line ++ added) reading := by
  cases h with
  | nothing hTrailer => exact .nothing (hTrailer.append hAdded)
  | header hHeader => exact .header (hHeader.append hAdded)
  | tokens hNone hTokens hForms =>
    exact .tokens (fun header hHeader => hNone header (hHeader.of_append hAdded))
      (hTokens.append hAdded) hForms

/-- A line holds the same with blanks before it. -/
theorem Reads.prepend {gap line : List Char} {reading : Option Statement} (hGap : OnlyGap gap)
    (hLine : OnOneLine line) (h : Reads line reading) : Reads (gap ++ line) reading := by
  cases h with
  | nothing hTrailer => exact .nothing (hTrailer.prepend hGap)
  | header hHeader => exact .header (hHeader.prepend hGap)
  | tokens hNone hTokens hForms =>
    exact .tokens (fun header hHeader => hNone header (hHeader.of_prepend hGap hLine))
      (hTokens.prepend hGap) hForms

-- ---------------------------------------------------------------------------
-- Texts
-- ---------------------------------------------------------------------------

/-- A line with nothing on it adds nothing to a program. -/
theorem holds_blank_iff {blank : List Char} (hBlank : OnOneLine blank) (hTrailer : Trailer blank)
    {lines : List (List Char)} {program : List Statement} :
    Holds (blank :: lines) program ↔ Holds lines program := by
  rw [holds_cons_iff]
  constructor
  · rintro ⟨reading, others, hReads, hOthers, rfl⟩
    rw [hReads.unique hBlank (.nothing hTrailer)]
    exact hOthers
  · intro h
    exact ⟨none, program, .nothing hTrailer, h, rfl⟩

/-- The program of a text that is put together from lines. -/
theorem holds_cut_join {pieces : List (List Char × LineEnd)} (h : Formed pieces)
    {program : List Statement} :
    Holds ((LineEnd.cut (LineEnd.join pieces)).map Prod.fst) program ↔
      Holds (pieces.map Prod.fst) program := by
  induction h generalizing program with
  | @last line hLine =>
    have hCut : LineEnd.cut (line ++ []) = [(line ++ [], .text)] := by
      rw [LineEnd.cut_append hLine rfl, List.append_nil]
    rw [LineEnd.join, List.flatMap_singleton, LineEnd.chars, hCut, List.append_nil]
  | @line line ending pieces hLine hEnd _ ih =>
    have hJoin : LineEnd.join ((line, ending) :: pieces) =
        line ++ (ending.chars ++ LineEnd.join pieces) := by
      rw [LineEnd.join, List.flatMap_cons, List.append_assoc]
      rfl
    -- what is left to show, where the line is cut off
    have hStep {ending' : LineEnd} {others : List (List Char × LineEnd)}
        (hCut : LineEnd.cut (ending.chars ++ LineEnd.join pieces) = ([], ending') :: others)
        (hOthers : ∀ rest, Holds (others.map Prod.fst) rest ↔ Holds (pieces.map Prod.fst) rest) :
        Holds ((LineEnd.cut (LineEnd.join ((line, ending) :: pieces))).map Prod.fst) program ↔
          Holds (((line, ending) :: pieces).map Prod.fst) program := by
      rw [hJoin, LineEnd.cut_append hLine hCut, List.map_cons, List.map_cons, holds_cons_iff,
        holds_cons_iff]
      simp only [hOthers]
    cases ending with
    | text => exact absurd rfl hEnd
    | lineFeed => exact hStep rfl fun _ => ih
    | both => exact hStep rfl fun _ => ih
    | carriageReturn =>
      by_cases hFeed : (LineEnd.join pieces).head? = some '\n'
      · -- the two line ends are one, and the empty line between them is gone
        obtain ⟨after, hAfter⟩ := List.head?_eq_some_iff.mp hFeed
        have hBoth : LineEnd.cut (LineEnd.carriageReturn.chars ++ LineEnd.join pieces) =
            ([], .both) :: LineEnd.cut after := by
          rw [hAfter]
          rfl
        have hEmpty : LineEnd.cut (LineEnd.join pieces) = ([], .lineFeed) :: LineEnd.cut after := by
          rw [hAfter]
          rfl
        refine hStep hBoth fun rest => ?_
        rw [← ih, hEmpty, List.map_cons, holds_blank_iff onOneLine_nil trailer_nil]
      · exact hStep (LineEnd.cut_carriageReturn hFeed) fun _ => ih

/-- An edit of lines leaves lines. -/
theorem Edit.formed {pieces pieces' : List (List Char × LineEnd)} (h : Edit pieces pieces')
    (hFormed : Formed pieces) : Formed pieces' := by
  induction h with
  | append hAdded _ => exact hFormed.with_line (hFormed.onOneLine.append hAdded)
  | prepend hGap => exact hFormed.with_line (hGap.onOneLine.append hFormed.onOneLine)
  | insert hBlank _ hEnd => exact .line hBlank hEnd hFormed
  | insertLast hBlank _ hEnd => exact .line hFormed.onOneLine hEnd (.last hBlank)
  | replace hEnd hEnd' =>
    cases hFormed with
    | last => exact absurd rfl hEnd
    | line hLine _ hRest => exact .line hLine hEnd' hRest
  | further hEdit ih =>
    cases hFormed with
    | last => cases hEdit
    | line hLine hEnd hRest => exact .line hLine hEnd (ih hRest)

/-- The lines hold the same program after an edit. -/
theorem Edit.holds {pieces pieces' : List (List Char × LineEnd)} (h : Edit pieces pieces')
    (hFormed : Formed pieces) {program : List Statement}
    (hHolds : Holds (pieces.map Prod.fst) program) : Holds (pieces'.map Prod.fst) program := by
  induction h generalizing program with
  | append _ hAdded => exact hHolds.cons_imp (fun hReads => hReads.append hAdded) id
  | prepend hGap => exact hHolds.cons_imp (fun hReads => hReads.prepend hGap hFormed.onOneLine) id
  | insert hBlank hTrailer _ => exact (holds_blank_iff hBlank hTrailer).mpr hHolds
  | insertLast hBlank hTrailer _ => exact hHolds.cons_imp id (holds_blank_iff hBlank hTrailer).mpr
  | replace => exact hHolds
  | further hEdit ih =>
    cases hFormed with
    | last => cases hEdit
    | line _ _ hRest => exact hHolds.cons_imp id (ih hRest)

/-- A text holds the same program after an edit. -/
theorem Reformats.holds {source edited : String} (h : Reformats source edited)
    {program : List Statement}
    (hHolds : Holds ((LineEnd.cut source.toList).map Prod.fst) program) :
    Holds ((LineEnd.cut edited.toList).map Prod.fst) program := by
  obtain ⟨pieces, pieces', hFormed, hSource, hEdit, hEdited⟩ := h
  rw [hSource, holds_cut_join hFormed] at hHolds
  rw [hEdited, holds_cut_join (hEdit.formed hFormed)]
  exact hEdit.holds hFormed hHolds

/-- **Formatting**: a text that assembles still does after any edits of its blanks, its comments and
its line ends, and to the same image with the same variables and labels. -/
theorem assemble_reformatted {source edited : String}
    (hEdits : Relation.ReflTransGen Reformats source edited) {verbose : Bool} {o : Object}
    (h : (assemble source verbose).result = .ok o) :
    ∃ o', (assemble edited verbose).result = .ok o' ∧ o'.image = o.image ∧
      o'.symbols = o.symbols := by
  obtain ⟨located, hRead, hResult⟩ := result_assemble_eq_ok_iff.mp h
  refine exists_assemble_of_holds ?_ hResult verbose
  induction hEdits with
  | refl => exact readSource_iff_holds.mp ⟨located, hRead, rfl⟩
  | tail _ hEdit ih => exact hEdit.holds ih

/-- A comment that could end a header or begin a text, and a line end that comes together with that
of an empty line. -/
theorem assemble_reformatted_comment :
    ∃ o o', (assemble "section .data:\nnum x 5\n\nsection .code:\nhlt" false).result = .ok o ∧
      (assemble "section .data:;: \"\nnum x 5\r\nsection .code:\n  hlt" false).result = .ok o' ∧
      o'.image = o.image ∧ o'.symbols = o.symbols := by
  have hComment : Reformats "section .data:\nnum x 5\n\nsection .code:\nhlt"
      "section .data:;: \"\nnum x 5\n\nsection .code:\nhlt" :=
    @Reformats.of_cut _ _ [("section .data:".toList, .lineFeed), ("num x 5".toList, .lineFeed),
        ([], .lineFeed), ("section .code:".toList, .lineFeed), ("hlt".toList, .text)] _ rfl
      (@Edit.append _ ";: \"".toList _ _ (by decide) (@Trailer.comment [] _ nofun)) rfl
  have hEnd : Reformats "section .data:;: \"\nnum x 5\n\nsection .code:\nhlt"
      "section .data:;: \"\nnum x 5\r\nsection .code:\nhlt" :=
    @Reformats.of_cut _ _ [("section .data:;: \"".toList, .lineFeed),
        ("num x 5".toList, .lineFeed), ([], .lineFeed), ("section .code:".toList, .lineFeed),
        ("hlt".toList, .text)] _ rfl
      (.further (@Edit.replace _ _ .carriageReturn _ nofun nofun)) rfl
  have hBlanks : Reformats "section .data:;: \"\nnum x 5\r\nsection .code:\nhlt"
      "section .data:;: \"\nnum x 5\r\nsection .code:\n  hlt" :=
    @Reformats.of_cut _ _ [("section .data:;: \"".toList, .lineFeed), ("num x 5".toList, .both),
        ("section .code:".toList, .lineFeed), ("hlt".toList, .text)] _ rfl
      (.further (.further (.further (@Edit.prepend _ [' ', ' '] _ _ (by decide))))) rfl
  have hEdits := ((Relation.ReflTransGen.single hComment).tail hEnd).tail hBlanks
  obtain ⟨o, hSource⟩ : ∃ o,
      (assemble "section .data:\nnum x 5\n\nsection .code:\nhlt" false).result = .ok o :=
    ⟨_, rfl⟩
  obtain ⟨o', hEdited, hSame⟩ := assemble_reformatted hEdits hSource
  exact ⟨o, o', hSource, hEdited, hSame⟩

end StackProcessor.Assembly
