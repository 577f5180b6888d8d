import StackProcessor.Decimal.Shortest

/-!
# StackProcessor — layout of decimals

`Decimal.render` writes a decimal with all its `places` while the power of ten of its first digit
lies in the range of a `Style`, and otherwise as `scientific`, with one digit before the point and
an exponent that always shows its sign. With all its places a decimal always shows a point and a
digit behind it. `renderFloat` is the text of a floating-point number: the places of its shortest
decimal, behind a minus sign if it is negative.
-/

namespace StackProcessor.Decimal

/-- Where decimals are written with all their places. -/
structure Style where
  /-- The least power of ten of the first digit. -/
  least : Int
  /-- The greatest power of ten of the first digit. -/
  greatest : Int
  deriving DecidableEq, Repr, Inhabited

/-- Zeros. -/
def zeros (n : Nat) : List Char := List.replicate n '0'

/-- The same number without zeros at the end of its digits. -/
def strip (d : Decimal) : List Char × Int :=
  let digits := Nat.toDigits 10 d.digits
  let kept := (digits.reverse.dropWhile (· == '0')).reverse
  (kept, d.exponent + (digits.length - kept.length : Nat))

/-- All places of `digits · 10 ^ exponent`. -/
def places (digits : List Char) (exponent : Int) : List Char :=
  let point := digits.length + exponent
  if 0 ≤ exponent then digits ++ zeros exponent.toNat ++ ['.', '0']
  else if 0 < point then digits.take point.toNat ++ '.' :: digits.drop point.toNat
  else '0' :: '.' :: zeros (-point).toNat ++ digits

/-- One digit before the point, the others behind it, and an exponent. -/
def scientific (digits : List Char) (exponent : Int) : List Char :=
  let first := exponent + digits.length - 1
  let fraction := if digits.length ≤ 1 then [] else '.' :: digits.drop 1
  let sign := if first < 0 then '-' else '+'
  digits.take 1 ++ fraction ++ 'e' :: sign :: Nat.toDigits 10 first.natAbs

/-- A positive decimal as text. -/
def render (style : Style) (d : Decimal) : String :=
  let (digits, exponent) := d.strip
  let first := exponent + digits.length - 1
  String.ofList <|
    if style.least ≤ first ∧ first ≤ style.greatest then places digits exponent
    else scientific digits exponent

/-- A finite floating-point number as text, in the fewest digits that read back. -/
def renderFloat (style : Style) (x : Float) : String :=
  let bits := x.toBits
  let sign := if bits.toNat < 1 <<< 63 then "" else "-"
  let magnitude := Binary.ofBits bits
  if magnitude.mantissa = 0 then sign ++ "0.0" else sign ++ magnitude.shortest.render style

end StackProcessor.Decimal
