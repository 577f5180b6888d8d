import StackProcessor.Json.Number
import StackProcessor.Json.Quoted

/-!
# StackProcessor — JSON tokens

The brackets, separators and scalar values that a JSON text consists of. `Token.take` takes one from
the front of a text; what follows it is left to the reader of values, which will not have a number
or a word run into another.

## Results
- `Token.length_lt_of_take` : what `Token.take` leaves is shorter than what it was given.
-/

namespace StackProcessor.Json

/-- A token. -/
inductive Token where
  | openArray
  | closeArray
  | openObject
  | closeObject
  | comma
  | colon
  | scalar (value : Json)
  deriving Inhabited

/-- Whether the character may stand between tokens. -/
def isGap (c : Char) : Bool := c == ' ' || c == '\t' || c == '\n' || c == '\r'

/-! ## Tokens -/

/-- Whether the character may occur in a number. -/
def isNumberChar (c : Char) : Bool :=
  c.isDigit || c == '-' || c == '+' || c == '.' || c == 'e' || c == 'E'

/-- Takes the number that begins with `c`: all characters that may belong to it. -/
def takeNumber (c : Char) (rest : List Char) : Option (Number × List Char) :=
  (Number.ofText? (c :: rest.takeWhile isNumberChar)).map fun n =>
    (n, rest.dropWhile isNumberChar)

/-- Takes a token from the front of a text. -/
def Token.take : List Char → Option (Token × List Char)
  | '[' :: rest => some (.openArray, rest)
  | ']' :: rest => some (.closeArray, rest)
  | '\x7b' :: rest => some (.openObject, rest)
  | '\x7d' :: rest => some (.closeObject, rest)
  | ',' :: rest => some (.comma, rest)
  | ':' :: rest => some (.colon, rest)
  | '"' :: rest =>
    (takeText rest).map fun (text, rest) => (.scalar (.string (String.ofList text)), rest)
  | 'n' :: 'u' :: 'l' :: 'l' :: rest => some (.scalar .null, rest)
  | 't' :: 'r' :: 'u' :: 'e' :: rest => some (.scalar (.bool true), rest)
  | 'f' :: 'a' :: 'l' :: 's' :: 'e' :: rest => some (.scalar (.bool false), rest)
  | c :: rest =>
    if c.isDigit || c == '-' then
      (takeNumber c rest).map fun (n, rest) => (.scalar (.number n), rest)
    else none
  | [] => none

theorem length_dropWhile_le (p : Char → Bool) (cs : List Char) :
    (cs.dropWhile p).length ≤ cs.length :=
  (List.dropWhile_sublist p).length_le

theorem Token.length_lt_of_take {cs rest : List Char} {t : Token}
    (h : Token.take cs = some (t, rest)) : rest.length < cs.length := by
  unfold Token.take at h
  split at h
  case h_7 tail =>
    obtain ⟨⟨text, rest'⟩, htext, heq⟩ := Option.map_eq_some_iff.mp h
    simp only [Prod.mk.injEq] at heq
    obtain ⟨_, rfl⟩ := heq
    have hlt := length_lt_of_takeText htext
    simp only [List.length_cons]
    omega
  case h_11 c tail _ _ _ _ _ _ _ _ _ _ =>
    split at h
    · obtain ⟨⟨n, rest'⟩, hnumber, heq⟩ := Option.map_eq_some_iff.mp h
      obtain ⟨m, _, hrest⟩ := Option.map_eq_some_iff.mp hnumber
      simp only [Prod.mk.injEq] at heq hrest
      obtain ⟨_, rfl⟩ := heq
      obtain ⟨_, rfl⟩ := hrest
      have hle := length_dropWhile_le isNumberChar tail
      simp only [List.length_cons]
      omega
    · simp at h
  all_goals
    simp only [Option.some.injEq, Prod.mk.injEq, reduceCtorEq] at h
  all_goals
    obtain ⟨_, rfl⟩ := h
    simp only [List.length_cons]
    omega

end StackProcessor.Json
