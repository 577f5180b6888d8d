import StackProcessor.Json.Reader
import StackProcessor.Proofs.Json.Numeral

/-!
# StackProcessor — texts that spell a value

`Spells depth text value` says that the reader, wherever it expects a value and `depth` more
containers may be opened, takes exactly this text and delivers this value, whatever stands behind it
(`Stops`: no more of a number). Spellings are put together as values are: of an integer, of a quoted
text without escapes (`isPlain`), and of the items and members of a container.

## Results
- `spells_integer`, `spells_null`, `spells_quoted` : the scalar values of an image.
- `spells_array`, `spells_object` : containers, from the spellings of what they hold; the members of
  an object come out sorted (`insertAll`).
- `ofText?_of_spells` : a text that spells a value stands for it.
-/

namespace StackProcessor.Json

-- ---------------------------------------------------------------------------
-- Taking one token
-- ---------------------------------------------------------------------------

/-- The text does not go on with a character that a number could take in. -/
def Stops (rest : List Char) : Prop := ∀ c ∈ rest.head?, isNumberChar c = false

theorem stops_cons {c : Char} (h : isNumberChar c = false) (rest : List Char) :
    Stops (c :: rest) := by
  intro x hx
  cases hx
  exact h

/-- A token does not begin with a gap. -/
theorem dropWhile_isGap_of_take {cs rest : List Char} {t : Token}
    (h : Token.take cs = some (t, rest)) : cs.dropWhile isGap = cs := by
  cases cs with
  | nil => rfl
  | cons c tail =>
    apply List.dropWhile_cons_of_neg
    intro hGap
    have hChar : c = ' ' ∨ c = '\t' ∨ c = '\n' ∨ c = '\r' := by simpa [isGap, or_assoc] using hGap
    rcases hChar with rfl | rfl | rfl | rfl
    all_goals cases h

theorem ne_nil_of_take {cs rest : List Char} {t : Token} (h : Token.take cs = some (t, rest)) :
    cs ≠ [] := by
  rintro rfl
  cases h

namespace ReaderState

/-- What is read depends on the text behind the first gaps only. -/
theorem read_eq (s : ReaderState) (cs : List Char) :
    s.read cs =
      if (cs.dropWhile isGap).isEmpty then s.result?
      else (Token.take (cs.dropWhile isGap)).bind fun p =>
        (s.step p.1).bind fun s' => s'.read p.2 := by
  rw [read]
  by_cases hEmpty : (cs.dropWhile isGap).isEmpty
  · simp only [if_pos hEmpty]
  · simp only [if_neg hEmpty]
    split
    · rename_i hTake
      rw [hTake, Option.bind_none]
    · rename_i t rest hTake
      rw [hTake, Option.bind_some]
      cases s.step t <;> rfl

/-- The reader takes a token. -/
theorem read_of_take {s s' : ReaderState} {cs rest : List Char} {t : Token}
    (hTake : Token.take cs = some (t, rest)) (hStep : s.step t = some s') :
    s.read cs = s'.read rest := by
  have hSome : ¬ cs.isEmpty = true := by simpa using ne_nil_of_take hTake
  rw [read_eq, dropWhile_isGap_of_take hTake, if_neg hSome, hTake, Option.bind_some, hStep,
    Option.bind_some]

/-- The reader passes over a gap. -/
theorem read_gap {c : Char} (h : isGap c = true) (s : ReaderState) (cs : List Char) :
    s.read (c :: cs) = s.read cs := by
  rw [read_eq s (c :: cs), read_eq s cs, List.dropWhile_cons_of_pos h]

theorem read_gaps {gaps : List Char} (h : ∀ c ∈ gaps, isGap c = true) (s : ReaderState)
    (cs : List Char) : s.read (gaps ++ cs) = s.read cs := by
  induction gaps with
  | nil => rfl
  | cons c rest ih =>
    obtain ⟨hc, hRest⟩ := List.forall_mem_cons.mp h
    rw [List.cons_append, read_gap hc, ih hRest]

end ReaderState

-- ---------------------------------------------------------------------------
-- Spellings
-- ---------------------------------------------------------------------------

/-- Wherever a value may begin and `depth` more containers may be opened, the reader takes the text
and delivers the value. -/
def Spells (depth : Nat) (text : List Char) (value : Json) : Prop :=
  ∀ (containers : List Container) (expected : Expected) (rest : List Char),
    expected = .value ∨ expected = .firstItem →
    containers.length + depth ≤ ReaderState.greatestDepth → Stops rest →
    ReaderState.read ⟨containers, expected⟩ (text ++ rest) =
      (ReaderState.deliver value containers).read rest

theorem Spells.mono {d e : Nat} {text : List Char} {value : Json} (h : Spells d text value)
    (hLe : d ≤ e) : Spells e text value := by
  intro containers expected rest hExpected hDepth hStops
  exact h containers expected rest hExpected (by omega) hStops

theorem step_of_expected {expected : Expected} (h : expected = .value ∨ expected = .firstItem)
    {t : Token} (hToken : t ≠ .closeArray) (containers : List Container) :
    ReaderState.step ⟨containers, expected⟩ t = ReaderState.begin containers t := by
  rcases h with rfl | rfl
  · rfl
  · cases t <;> first | rfl | exact absurd rfl hToken

/-- A token that is a value spells it. -/
theorem spells_of_take {text : List Char} {value : Json}
    (h : ∀ rest, Stops rest → Token.take (text ++ rest) = some (.scalar value, rest)) :
    Spells 0 text value := by
  intro containers expected rest hExpected _ hStops
  have hStep := step_of_expected (t := .scalar value) hExpected Token.noConfusion containers
  exact ReaderState.read_of_take (h rest hStops) hStep

-- ---------------------------------------------------------------------------
-- Scalars
-- ---------------------------------------------------------------------------

theorem spells_null : Spells 0 ['n', 'u', 'l', 'l'] .null := by
  apply spells_of_take
  intro rest _
  rfl

theorem take_of_digit {c : Char} (h : c.isDigit = true ∨ c = '-') (rest : List Char) :
    Token.take (c :: rest) =
      (takeNumber c rest).map fun (n, rest) => (.scalar (.number n), rest) := by
  have hFirst : (c.isDigit || c == '-') = true := by simpa using h
  unfold Token.take
  split
  -- the last line of the table, where numbers are
  case h_11 tail _ _ _ _ _ _ _ _ _ _ hCons =>
    cases hCons
    rw [if_pos hFirst]
  -- no other token begins with a digit or a minus sign
  all_goals
    rename_i hCons
    cases hCons
  all_goals exact absurd hFirst (by decide)

/-- The characters of an integer are taken to the last one, and no further. -/
theorem takeNumber_toString {n : Int} (h : IntegerInRange n) {c : Char} {tail rest : List Char}
    (hText : (toString n).toList = c :: tail) (hChars : ∀ x ∈ tail, isNumberChar x = true)
    (hStops : Stops rest) : takeNumber c (tail ++ rest) = some (.integer n, rest) := by
  have hTake : rest.takeWhile isNumberChar = [] := by
    cases rest with
    | nil => rfl
    | cons x xs => exact List.takeWhile_cons_of_neg (by simp [hStops x rfl])
  have hDrop : rest.dropWhile isNumberChar = rest := by
    cases rest with
    | nil => rfl
    | cons x xs => exact List.dropWhile_cons_of_neg (by simp [hStops x rfl])
  rw [takeNumber, List.takeWhile_append_of_pos hChars, List.dropWhile_append_of_pos hChars, hTake,
    hDrop, List.append_nil, ← hText, Number.ofText?_toString h]
  rfl

theorem spells_integer {n : Int} (h : IntegerInRange n) :
    Spells 0 (toString n).toList (.number (.integer n)) := by
  apply spells_of_take
  intro rest hStops
  obtain ⟨c, tail, hText, hFirst, hChars⟩ := Number.toString_eq_cons n
  rw [hText, List.cons_append, take_of_digit hFirst,
    takeNumber_toString h hText hChars hStops]
  rfl

/-- A character that stands for itself between quotes. -/
def isPlain (c : Char) : Bool := c != '"' && c != '\\' && 32 ≤ c.toNat

theorem takeText_plain {text : List Char} (h : ∀ c ∈ text, isPlain c = true) (rest : List Char) :
    takeText (text ++ '"' :: rest) = some (text, rest) := by
  induction text with
  | nil => rw [List.nil_append, takeText]
  | cons c tail ih =>
    obtain ⟨hc, hTail⟩ := List.forall_mem_cons.mp h
    simp only [isPlain, Bool.and_eq_true, bne_iff_ne, ne_eq, decide_eq_true_eq] at hc
    obtain ⟨⟨hQuote, hBackslash⟩, hControl⟩ := hc
    rw [List.cons_append, takeText, if_neg (by omega), ih hTail]
    · rfl
    · exact hQuote
    · exact hBackslash

theorem take_quoted {text : List Char} (h : ∀ c ∈ text, isPlain c = true) (rest : List Char) :
    Token.take ('"' :: (text ++ '"' :: rest)) =
      some (.scalar (.string (String.ofList text)), rest) := by
  simp only [Token.take, takeText_plain h, Option.map_some]

theorem spells_quoted {text : List Char} (h : ∀ c ∈ text, isPlain c = true) :
    Spells 0 ('"' :: text ++ ['"']) (.string (String.ofList text)) := by
  apply spells_of_take
  intro rest _
  rw [List.append_assoc]
  exact take_quoted h rest

-- ---------------------------------------------------------------------------
-- Containers
-- ---------------------------------------------------------------------------

/-- What stands behind the first of several texts: each of them, with a separator before it. -/
theorem intercalate_cons_eq_append_flatMap (separator first : List Char)
    (others : List (List Char)) :
    separator.intercalate (first :: others) = first ++ others.flatMap (separator ++ ·) := by
  induction others generalizing first with
  | nil => simp
  | cons text rest ih =>
    rw [List.intercalate_cons_cons, ih]
    simp

theorem stops_comma (rest : List Char) : Stops (',' :: rest) := stops_cons rfl rest

theorem stops_flatMap (gaps : List Char) (texts : List (List Char)) {rest : List Char}
    (h : Stops rest) : Stops (texts.flatMap (',' :: gaps ++ ·) ++ rest) := by
  cases texts with
  | nil => exact h
  | cons text others => exact stops_comma _

/-- A member of an object: its key between quotes, a colon, a blank and its value. -/
def memberText (p : String × List Char × Json) : List Char :=
  '"' :: (p.1.toList ++ '"' :: ':' :: ' ' :: p.2.1)

/-- The key needs no escapes, and the text spells the value. -/
structure SpellsMember (depth : Nat) (p : String × List Char × Json) : Prop where
  plain : ∀ c ∈ p.1.toList, isPlain c = true
  spells : Spells depth p.2.1 p.2.2

/-- The members, put into an object one after the other. -/
def insertAll (members : List (String × List Char × Json)) (before : List (String × Json)) :
    List (String × Json) :=
  members.foldl (fun object p => insertMember p.1 p.2.2 object) before

/-- One member, where a key is expected. -/
theorem read_member {depth : Nat} {p : String × List Char × Json} (hp : SpellsMember depth p)
    {expected : Expected} (hExpected : expected = .key ∨ expected = .firstKey)
    (before : List (String × Json)) (last : String) {outer : List Container}
    (hDepth : outer.length + (depth + 1) ≤ ReaderState.greatestDepth) {rest : List Char}
    (hStops : Stops rest) :
    ReaderState.read ⟨.object before last :: outer, expected⟩ (memberText p ++ rest) =
      ReaderState.read ⟨.object (insertMember p.1 p.2.2 before) p.1 :: outer, .separator⟩ rest := by
  have hKey : ReaderState.step ⟨.object before last :: outer, expected⟩
      (.scalar (.string (String.ofList p.1.toList))) =
        some ⟨.object before p.1 :: outer, .colon⟩ := by
    rw [String.ofList_toList]
    rcases hExpected with rfl | rfl <;> rfl
  have hColon : ReaderState.step ⟨.object before p.1 :: outer, .colon⟩ .colon =
      some ⟨.object before p.1 :: outer, .value⟩ := rfl
  have hInside : (Container.object before p.1 :: outer).length + depth ≤
      ReaderState.greatestDepth := by
    rw [List.length_cons]
    omega
  have hValue := hp.spells (.object before p.1 :: outer) .value rest (Or.inl rfl) hInside hStops
  simp only [memberText, List.cons_append, List.append_assoc]
  -- the key, the colon, the blank and the value
  rw [ReaderState.read_of_take (take_quoted hp.plain _) hKey, ReaderState.read_of_take rfl hColon,
    ReaderState.read_gap rfl, hValue]
  rfl

section

variable {depth : Nat} {gaps : List Char} (hGaps : ∀ c ∈ gaps, isGap c = true)

include hGaps

/-- Items that follow others, up to the end of the array. -/
theorem read_items {items : List (List Char × Json)} (hItems : ∀ p ∈ items, Spells depth p.1 p.2)
    (before : List Json) {outer : List Container}
    (hDepth : outer.length + (depth + 1) ≤ ReaderState.greatestDepth) (rest : List Char) :
    ReaderState.read ⟨.array before :: outer, .separator⟩
        ((items.map Prod.fst).flatMap (',' :: gaps ++ ·) ++ ']' :: rest) =
      (ReaderState.deliver (.array (before.reverse ++ items.map Prod.snd)) outer).read rest := by
  induction items generalizing before with
  | nil =>
    have hTake : Token.take (']' :: rest) = some (.closeArray, rest) := rfl
    have hStep : ReaderState.step ⟨.array before :: outer, .separator⟩ .closeArray =
        some (ReaderState.deliver (.array before.reverse) outer) := rfl
    simpa using ReaderState.read_of_take hTake hStep
  | cons p others ih =>
    obtain ⟨hp, hOthers⟩ := List.forall_mem_cons.mp hItems
    have hStep : ReaderState.step ⟨.array before :: outer, .separator⟩ .comma =
        some ⟨.array before :: outer, .value⟩ := rfl
    have hStops := stops_flatMap gaps (others.map Prod.fst)
      (stops_cons (c := ']') rfl rest)
    have hInside : (Container.array before :: outer).length + depth ≤
        ReaderState.greatestDepth := by
      rw [List.length_cons]
      omega
    have hItem := hp (.array before :: outer) .value _ (Or.inl rfl) hInside hStops
    simp only [List.map_cons, List.flatMap_cons, List.cons_append, List.append_assoc] at hItem ⊢
    -- the comma, the gap behind it, this item, and then the others
    rw [ReaderState.read_of_take rfl hStep, ReaderState.read_gaps hGaps, hItem]
    refine (ih hOthers (p.2 :: before)).trans ?_
    simp

/-- An array is spelled by the spellings of its items, of which there is at least one. -/
theorem spells_array {first : List Char × Json} {others : List (List Char × Json)}
    (hItems : ∀ p ∈ first :: others, Spells depth p.1 p.2) :
    Spells (depth + 1)
      ('[' :: (',' :: gaps).intercalate ((first :: others).map Prod.fst) ++ [']'])
      (.array ((first :: others).map Prod.snd)) := by
  intro containers expected rest hExpected hDepth hStops
  obtain ⟨hSpells, hOthers⟩ := List.forall_mem_cons.mp hItems
  have hOpen : ReaderState.step ⟨containers, expected⟩ .openArray =
      some ⟨.array [] :: containers, .firstItem⟩ := by
    rw [step_of_expected hExpected Token.noConfusion, ReaderState.begin, ReaderState.enter,
      if_pos (by omega)]
  have hStopsItems := stops_flatMap gaps (others.map Prod.fst)
    (stops_cons (c := ']') rfl rest)
  have hInside : (Container.array [] :: containers).length + depth ≤
      ReaderState.greatestDepth := by
    rw [List.length_cons]
    omega
  have hFirst := hSpells (.array [] :: containers) .firstItem _ (Or.inr rfl) hInside hStopsItems
  have hRest := read_items hGaps hOthers [first.2] hDepth rest
  rw [List.map_cons, intercalate_cons_eq_append_flatMap]
  simp only [List.cons_append, List.append_assoc, List.nil_append] at hFirst hRest ⊢
  rw [ReaderState.read_of_take rfl hOpen, hFirst]
  exact hRest

/-- Members that follow others, up to the end of the object. -/
theorem read_members {members : List (String × List Char × Json)}
    (hMembers : ∀ p ∈ members, SpellsMember depth p) (before : List (String × Json)) (last : String)
    {outer : List Container} (hDepth : outer.length + (depth + 1) ≤ ReaderState.greatestDepth)
    (rest : List Char) :
    ReaderState.read ⟨.object before last :: outer, .separator⟩
        ((members.map memberText).flatMap (',' :: gaps ++ ·) ++ '\x7d' :: rest) =
      (ReaderState.deliver (.object (insertAll members before)) outer).read rest := by
  induction members generalizing before last with
  | nil =>
    have hTake : Token.take ('\x7d' :: rest) = some (.closeObject, rest) := rfl
    have hStep : ReaderState.step ⟨.object before last :: outer, .separator⟩ .closeObject =
        some (ReaderState.deliver (.object before) outer) := rfl
    exact ReaderState.read_of_take hTake hStep
  | cons p others ih =>
    obtain ⟨hp, hOthers⟩ := List.forall_mem_cons.mp hMembers
    have hStep : ReaderState.step ⟨.object before last :: outer, .separator⟩ .comma =
        some ⟨.object before last :: outer, .key⟩ := rfl
    have hStops := stops_flatMap gaps (others.map memberText)
      (stops_cons (c := '\x7d') rfl rest)
    have hMember := read_member hp (Or.inl rfl) before last hDepth hStops
    simp only [List.map_cons, List.flatMap_cons, List.cons_append, List.append_assoc] at hMember ⊢
    -- the comma, the gap behind it, this member, and then the others
    rw [ReaderState.read_of_take rfl hStep, ReaderState.read_gaps hGaps, hMember]
    exact ih hOthers (insertMember p.1 p.2.2 before) p.1

/-- An object is spelled by its members, of which there is at least one. -/
theorem spells_object {first : String × List Char × Json}
    {others : List (String × List Char × Json)}
    (hMembers : ∀ p ∈ first :: others, SpellsMember depth p) :
    Spells (depth + 1)
      ('\x7b' :: (',' :: gaps).intercalate ((first :: others).map memberText) ++ ['\x7d'])
      (.object (insertAll (first :: others) [])) := by
  intro containers expected rest hExpected hDepth hStops
  obtain ⟨hMember, hOthers⟩ := List.forall_mem_cons.mp hMembers
  have hOpen : ReaderState.step ⟨containers, expected⟩ .openObject =
      some ⟨.object [] "" :: containers, .firstKey⟩ := by
    rw [step_of_expected hExpected Token.noConfusion, ReaderState.begin, ReaderState.enter,
      if_pos (by omega)]
  have hStopsMembers := stops_flatMap gaps (others.map memberText)
    (stops_cons (c := '\x7d') rfl rest)
  have hFirst := read_member hMember (Or.inr rfl) [] "" hDepth hStopsMembers
  have hRest := read_members hGaps hOthers [(first.1, first.2.2)] first.1 hDepth rest
  rw [List.map_cons, intercalate_cons_eq_append_flatMap]
  simp only [List.cons_append, List.append_assoc, List.nil_append] at hFirst hRest ⊢
  rw [ReaderState.read_of_take rfl hOpen, hFirst]
  exact hRest

end

/-- A text that spells a value is read as that value. -/
theorem ofText?_of_spells {depth : Nat} {text : List Char} {value : Json}
    (h : Spells depth text value) (hDepth : depth ≤ ReaderState.greatestDepth) :
    ofText? text = some value := by
  have hStops : Stops [] := by
    intro c hc
    cases hc
  have hRead := h [] .value [] (Or.inl rfl) (by simpa using hDepth) hStops
  rw [List.append_nil] at hRead
  rw [ofText?, ReaderState.initial, hRead, ReaderState.read_eq]
  rfl

end StackProcessor.Json
