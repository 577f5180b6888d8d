import StackProcessor.Json.Basic

/-!
# StackProcessor — quoted texts

How a text stands between quotes. On writing, only the quote, the backslash and control characters
are escaped, the latter by their short names where they have one. On reading, any character may be
escaped; one beyond the basic plane is escaped as two units. A control character that is not escaped
and half a pair of units are refused.

## Results
- `length_lt_of_takeText` : what `takeText` leaves is shorter than what it was given, as the closing
  quote is taken; the readers of values end by this.
-/

namespace StackProcessor.Json

/-! ## Writing -/

/-- The digit of a number below sixteen. -/
def hexDigit (n : Nat) : Char := if n < 10 then Char.ofNat (48 + n) else Char.ofNat (87 + n)

/-- A character inside a text. -/
def escape (c : Char) : List Char :=
  match c with
  | '"' => ['\\', '"']
  | '\\' => ['\\', '\\']
  | '\x08' => ['\\', 'b']
  | '\t' => ['\\', 't']
  | '\n' => ['\\', 'n']
  | '\x0c' => ['\\', 'f']
  | '\r' => ['\\', 'r']
  | _ =>
    if c.toNat < 32 then
      ['\\', 'u', '0', '0', hexDigit (c.toNat / 16), hexDigit (c.toNat % 16)]
    else [c]

/-- A text between quotes. -/
def renderString (s : String) : String := "\"" ++ String.ofList (s.toList.flatMap escape) ++ "\""

/-! ## Reading -/

/-- The number of a hexadecimal digit. -/
def hexValue? (c : Char) : Option Nat :=
  if c.isDigit then some (c.toNat - 48)
  else if 'a' ≤ c ∧ c ≤ 'f' then some (c.toNat - 87)
  else if 'A' ≤ c ∧ c ≤ 'F' then some (c.toNat - 55)
  else none

/-- Takes four hexadecimal digits. -/
def takeUnit : List Char → Option (Nat × List Char)
  | a :: b :: c :: d :: rest => do
    let a ← hexValue? a
    let b ← hexValue? b
    let c ← hexValue? c
    let d ← hexValue? d
    some (((a * 16 + b) * 16 + c) * 16 + d, rest)
  | _ => none

/-- Takes the second half of a character that is written as two units. -/
def takeLowUnit (high : Nat) : List Char → Option (Char × List Char)
  | '\\' :: 'u' :: rest => do
    let (low, rest) ← takeUnit rest
    if 0xDC00 ≤ low ∧ low < 0xE000 then
      some (Char.ofNat (0x10000 + (high - 0xD800) * 0x400 + (low - 0xDC00)), rest)
    else none
  | _ => none

/-- Takes what follows the letter `u` of an escaped character. -/
def takeUnicode (cs : List Char) : Option (Char × List Char) := do
  let (unit, rest) ← takeUnit cs
  -- a second half may not stand first
  if 0xDC00 ≤ unit ∧ unit < 0xE000 then none
  else if 0xD800 ≤ unit ∧ unit < 0xDC00 then takeLowUnit unit rest
  else some (Char.ofNat unit, rest)

/-- Takes what follows the backslash of an escaped character. -/
def takeEscaped : List Char → Option (Char × List Char)
  | '"' :: rest => some ('"', rest)
  | '\\' :: rest => some ('\\', rest)
  | '/' :: rest => some ('/', rest)
  | 'b' :: rest => some ('\x08', rest)
  | 'f' :: rest => some ('\x0c', rest)
  | 'n' :: rest => some ('\n', rest)
  | 'r' :: rest => some ('\r', rest)
  | 't' :: rest => some ('\t', rest)
  | 'u' :: rest => takeUnicode rest
  | _ => none

theorem length_lt_of_takeUnit {cs rest : List Char} {n : Nat} (h : takeUnit cs = some (n, rest)) :
    rest.length < cs.length := by
  unfold takeUnit at h
  split at h
  · simp only [Option.bind_eq_bind, Option.bind_eq_some_iff, Option.some.injEq,
      Prod.mk.injEq] at h
    obtain ⟨_, _, _, _, _, _, _, _, _, rfl⟩ := h
    simp only [List.length_cons]
    omega
  · simp at h

theorem length_lt_of_takeLowUnit {cs rest : List Char} {n : Nat} {c : Char}
    (h : takeLowUnit n cs = some (c, rest)) : rest.length < cs.length := by
  unfold takeLowUnit at h
  split at h
  · rename_i tail
    simp only [Option.bind_eq_bind, Option.bind_eq_some_iff] at h
    obtain ⟨⟨low, rest'⟩, hunit, hlow⟩ := h
    have hlt := length_lt_of_takeUnit hunit
    simp only at hlow
    split at hlow
    · simp only [Option.some.injEq, Prod.mk.injEq] at hlow
      obtain ⟨_, rfl⟩ := hlow
      simp only [List.length_cons]
      omega
    · simp at hlow
  · simp at h

theorem length_lt_of_takeUnicode {cs rest : List Char} {c : Char}
    (h : takeUnicode cs = some (c, rest)) : rest.length < cs.length := by
  unfold takeUnicode at h
  simp only [Option.bind_eq_bind, Option.bind_eq_some_iff] at h
  obtain ⟨⟨unit, rest'⟩, hunit, h⟩ := h
  have hlt := length_lt_of_takeUnit hunit
  simp only at h
  split at h
  · simp at h
  · split at h
    · have hlow := length_lt_of_takeLowUnit h
      omega
    · simp only [Option.some.injEq, Prod.mk.injEq] at h
      obtain ⟨_, rfl⟩ := h
      exact hlt

theorem length_lt_of_takeEscaped {cs rest : List Char} {c : Char}
    (h : takeEscaped cs = some (c, rest)) : rest.length < cs.length := by
  unfold takeEscaped at h
  split at h
  -- the letter `u` is followed by digits, every other letter stands alone
  case h_9 tail =>
    have hlt := length_lt_of_takeUnicode h
    simp only [List.length_cons]
    omega
  all_goals
    simp only [Option.some.injEq, Prod.mk.injEq, reduceCtorEq] at h
  all_goals
    obtain ⟨_, rfl⟩ := h
    simp

/-- Takes the rest of a text behind its opening quote. -/
def takeText (cs : List Char) : Option (List Char × List Char) :=
  match cs with
  | [] => none
  | '"' :: rest => some ([], rest)
  | '\\' :: rest =>
    match _h : takeEscaped rest with
    | none => none
    | some (c, rest') => (takeText rest').map fun (text, rest) => (c :: text, rest)
  | c :: rest =>
    if c.toNat < 32 then none else (takeText rest).map fun (text, rest) => (c :: text, rest)
termination_by cs.length
decreasing_by
  · have hlt := length_lt_of_takeEscaped _h
    simp only [List.length_cons]
    omega
  · simp

theorem length_lt_of_takeText {cs text rest : List Char} (h : takeText cs = some (text, rest)) :
    rest.length < cs.length := by
  fun_induction takeText cs generalizing text with
  | case1 => simp at h
  | case2 tail =>
    simp only [Option.some.injEq, Prod.mk.injEq] at h
    obtain ⟨_, rfl⟩ := h
    simp
  | case3 => simp at h
  | case4 tail c rest' hescaped ih =>
    obtain ⟨⟨text', rest''⟩, htext, heq⟩ := Option.map_eq_some_iff.mp h
    simp only [Prod.mk.injEq] at heq
    obtain ⟨_, rfl⟩ := heq
    have hlt := length_lt_of_takeEscaped hescaped
    have hrest := ih htext
    simp only [List.length_cons]
    omega
  | case5 => simp at h
  | case6 c tail _ _ _ ih =>
    obtain ⟨⟨text', rest''⟩, htext, heq⟩ := Option.map_eq_some_iff.mp h
    simp only [Prod.mk.injEq] at heq
    obtain ⟨_, rfl⟩ := heq
    have hrest := ih htext
    simp only [List.length_cons]
    omega

end StackProcessor.Json
