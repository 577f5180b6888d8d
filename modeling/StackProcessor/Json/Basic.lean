/-!
# StackProcessor — JSON values

A `Number` is an integer if it is written as one and fits into 64 bits, with or without a sign, and
a floating-point number otherwise. The members of an object are sorted by their keys, and a key
occurs once: `insertMember` puts a later value in the place of an earlier one.
-/

namespace StackProcessor

namespace Json

/-- A JSON number. -/
inductive Number where
  /-- An integer from `-2 ^ 63` to `2 ^ 64 - 1`. -/
  | integer (n : Int)
  /-- Any other finite number. -/
  | float (x : Float)
  deriving Repr, Inhabited

end Json

/-- A JSON value. -/
inductive Json where
  | null
  | bool (b : Bool)
  | number (n : Json.Number)
  | string (s : String)
  | array (items : List Json)
  | object (members : List (String × Json))
  deriving Inhabited

namespace Json

/-- Gives a key a value. A value that the key had before is lost. -/
def insertMember (key : String) (value : Json) : List (String × Json) → List (String × Json)
  | [] => [(key, value)]
  | (k, v) :: rest =>
    if key < k then (key, value) :: (k, v) :: rest
    else if key = k then (key, value) :: rest
    else (k, v) :: insertMember key value rest

/-- The integer, if the value is one. -/
def integer? : Json → Option Int
  | number (.integer n) => some n
  | _ => none

/-- The integer, if the value is one that is not negative. -/
def natural? (j : Json) : Option Nat :=
  match j.integer? with
  | some n => if 0 ≤ n then some n.toNat else none
  | none => none

/-- The text, if the value is one. -/
def string? : Json → Option String
  | string s => some s
  | _ => none

end Json

end StackProcessor
