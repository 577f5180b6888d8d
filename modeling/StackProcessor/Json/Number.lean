import StackProcessor.Json.Basic

/-!
# StackProcessor — reading JSON numbers

The characters of a number are first taken apart into the parts of a `Numeral`: sign, integer
digits, fraction and exponent. `gather` then makes up a significand of 64 bits from the digits. An
integer whose digits all fit stays an integer, as far as its sign allows it (`ofSignificand`). Any
other number is the significand, as a floating-point number, times or divided by a power of ten
(`float?`): digits that no longer fit into the significand count as powers of ten before the point
and are dropped behind it. A number beyond the largest floating-point number is not read.
-/

namespace StackProcessor.Json

/-- The parts of a number as it is written. -/
structure Numeral where
  negative : Bool
  /-- The digits before the point. -/
  whole : List Char
  /-- The digits behind the point, if there is one. -/
  fraction : Option (List Char)
  /-- The sign and the digits of the exponent, if there is one. -/
  exponent : Option (Bool × List Char)
  deriving DecidableEq, Repr

namespace Numeral

/-- Digits at the front of a text, of which there has to be one, and the rest. -/
def takeDigits (cs : List Char) : Option (List Char × List Char) :=
  let digits := cs.takeWhile Char.isDigit
  if digits.isEmpty then none else some (digits, cs.dropWhile Char.isDigit)

/-- The integer digits at the front of a text. Only the number zero begins with a zero. -/
def takeWhole (cs : List Char) : Option (List Char × List Char) := do
  let (digits, rest) ← takeDigits cs
  if digits.head? = some '0' ∧ digits.length ≠ 1 then none else some (digits, rest)

/-- The fraction at the front of a text, if there is one. -/
def takeFraction (cs : List Char) : Option (Option (List Char) × List Char) :=
  match cs with
  | '.' :: rest => (takeDigits rest).map fun (digits, rest) => (some digits, rest)
  | _ => some (none, cs)

/-- The digits of an exponent behind its sign. -/
def takeExponentDigits (negative : Bool) (cs : List Char) :
    Option (Option (Bool × List Char) × List Char) :=
  (takeDigits cs).map fun (digits, rest) => (some (negative, digits), rest)

/-- The exponent at the front of a text, if there is one. -/
def takeExponent (cs : List Char) : Option (Option (Bool × List Char) × List Char) :=
  match cs with
  | 'e' :: '-' :: rest | 'E' :: '-' :: rest => takeExponentDigits true rest
  | 'e' :: '+' :: rest | 'E' :: '+' :: rest => takeExponentDigits false rest
  | 'e' :: rest | 'E' :: rest => takeExponentDigits false rest
  | _ => some (none, cs)

/-- The parts of a number behind its sign. -/
def ofUnsigned? (negative : Bool) (cs : List Char) : Option Numeral := do
  let (whole, rest) ← takeWhole cs
  let (fraction, rest) ← takeFraction rest
  let (exponent, rest) ← takeExponent rest
  if rest.isEmpty then some ⟨negative, whole, fraction, exponent⟩ else none

/-- The parts of a number, if the text is one. -/
def ofText? (cs : List Char) : Option Numeral :=
  match cs with
  | '-' :: rest => ofUnsigned? true rest
  | _ => ofUnsigned? false cs

/-- Appends digits to a significand as long as it fits into 64 bits, and gives the digits that are
left. -/
def gather (significand : Nat) : List Char → Nat × List Char
  | [] => (significand, [])
  | d :: rest =>
    let next := 10 * significand + (d.toNat - '0'.toNat)
    if next < 1 <<< 64 then gather next rest else (significand, d :: rest)

/-- The value of an exponent. -/
def exponentValue : Option (Bool × List Char) → Int
  | none => 0
  | some (negative, digits) =>
    let magnitude : Int := Nat.ofDigitChars 10 digits 0
    if negative then -magnitude else magnitude

/-- The greatest power of ten by which a number is scaled at once. -/
def greatestPower : Nat := 308

/-- A power of ten. -/
def powerOfTen (n : Nat) : Float := Float.ofScientific 1 false n

/-- `x · 10 ^ exponent`, unless it is too large. -/
def scale (x : Float) (exponent : Int) : Option Float :=
  if exponent.natAbs ≤ greatestPower then
    -- one multiplication or division rounds once
    if 0 ≤ exponent then
      let y := x * powerOfTen exponent.natAbs
      if y.isInf then none else some y
    else some (x / powerOfTen exponent.natAbs)
  else if x == 0 then some x
  else if 0 ≤ exponent then none
  -- a very small number is reached in several divisions, each of which rounds
  else scale (x / powerOfTen greatestPower) (exponent + greatestPower)
termination_by exponent.natAbs
decreasing_by
  simp only [greatestPower] at *
  omega

/-- A floating-point number from a significand, an exponent and a sign. -/
def float? (negative : Bool) (significand : Nat) (exponent : Int) : Option Number :=
  (scale significand.toUInt64.toFloat exponent).map fun x => .float (if negative then -x else x)

/-- A number without fraction and exponent whose digits fit into the significand. -/
def ofSignificand (negative : Bool) (significand : Nat) : Number :=
  if negative then
    -- there is no integer minus zero, and none below the signed range
    if significand = 0 ∨ 1 <<< 63 < significand then .float (-significand.toUInt64.toFloat)
    else .integer (-significand)
  else .integer significand

/-- The number that the parts stand for. -/
def value? (n : Numeral) : Option Number :=
  let (significand, beyond) := gather 0 n.whole
  match n.fraction, n.exponent, beyond with
  | none, none, [] => some (ofSignificand n.negative significand)
  | none, exponent, _ =>
    float? n.negative significand (beyond.length + exponentValue exponent)
  | some fraction, exponent, _ =>
    let (significand, dropped) := gather significand fraction
    let places : Int := fraction.length - dropped.length
    float? n.negative significand (beyond.length - places + exponentValue exponent)

end Numeral

/-- The number that a text stands for, if it does. -/
def Number.ofText? (cs : List Char) : Option Number := do
  let numeral ← Numeral.ofText? cs
  numeral.value?

end StackProcessor.Json
