/-!
# StackProcessor — shortest decimals

`Binary.shortest` is the decimal with the fewest digits that reads back as a given binary
floating-point number. A positive finite number of 64 bits is `mantissa · 2 ^ exponent`
(`Binary.ofBits`); the reals that round to it form an interval from `lower` to `upper`, whose ends
belong to it exactly when the mantissa is even (`readsBack`). On the grid of decimals with one, two,
three … digits the two neighbours of the number are tried in turn (`onGrid?`), and the first grid on
which one of them lies in the interval decides. If both do, the `nearer` one is taken, and of two
equally near ones the even one.

All of this is exact arithmetic on natural numbers: both sides of a comparison are brought to a
common scale by `scaleQuarters` and `scaleDigits`.
-/

namespace StackProcessor

/-- The number `digits · 10 ^ exponent`. -/
structure Decimal where
  digits : Nat
  exponent : Int
  deriving DecidableEq, Repr, Inhabited

namespace Decimal

/-- The positive number `mantissa · 2 ^ exponent`. -/
structure Binary where
  mantissa : Nat
  exponent : Int
  /-- Whether the gap to the number below is half as wide as the gap above. -/
  narrowBelow : Bool
  deriving DecidableEq, Repr, Inhabited

namespace Binary

/-- The number that 64 bits stand for, sign apart. The bits are those of a finite number. -/
def ofBits (bits : UInt64) : Binary :=
  let fraction : Nat := bits.toNat % (1 <<< 52)
  let biased : Nat := (bits.toNat >>> 52) % (1 <<< 11)
  if biased = 0 then ⟨fraction, -1074, false⟩
  else ⟨(1 <<< 52) + fraction, (biased : Int) - 1075, fraction == 0 && 1 < biased⟩

/-- The number in quarters of its last binary place. -/
def quarters (x : Binary) : Nat := 4 * x.mantissa

/-- The lower end of the interval of `x`, in the same unit. -/
def lower (x : Binary) : Nat := if x.narrowBelow then x.quarters - 1 else x.quarters - 2

/-- The upper end of the interval of `x`, in the same unit. -/
def upper (x : Binary) : Nat := x.quarters + 2

/-- `count` quarters of the last binary place of `x`, on the scale common to all numbers that are
compared with decimals of this exponent. -/
def scaleQuarters (x : Binary) (exponent : Int) (count : Nat) : Nat :=
  (count <<< (x.exponent - 2).toNat) * Nat.pow 10 (-exponent).toNat

/-- A decimal with this exponent on the same scale. -/
def scaleDigits (x : Binary) (exponent : Int) (digits : Nat) : Nat :=
  (digits <<< (2 - x.exponent).toNat) * Nat.pow 10 exponent.toNat

/-- Whether a decimal lies in the interval of the reals that round to `x`. -/
def readsBack (x : Binary) (d : Decimal) : Bool :=
  let scaled := x.scaleDigits d.exponent d.digits
  let lower := x.scaleQuarters d.exponent x.lower
  let upper := x.scaleQuarters d.exponent x.upper
  if x.mantissa % 2 = 0 then lower ≤ scaled && scaled ≤ upper else lower < scaled && scaled < upper

/-- The decimal of this exponent next below `x`, or `x` itself. -/
def floorDigits (x : Binary) (exponent : Int) : Nat :=
  x.scaleQuarters exponent x.quarters / x.scaleDigits exponent 1

/-- The nearer to `x` of two neighbours on a grid, the even one if both are equally near. -/
def nearer (x : Binary) (exponent : Int) (below : Nat) : Nat :=
  let value := x.scaleQuarters exponent x.quarters
  let down := value - x.scaleDigits exponent below
  let up := x.scaleDigits exponent (below + 1) - value
  if down < up then below
  else if up < down then below + 1
  else if below % 2 = 0 then below
  else below + 1

/-- The decimal of this exponent that reads back as `x` and is nearest to it. -/
def onGrid? (x : Binary) (exponent : Int) : Option Decimal :=
  let below := x.floorDigits exponent
  match x.readsBack ⟨below, exponent⟩, x.readsBack ⟨below + 1, exponent⟩ with
  | true, true => some ⟨x.nearer exponent below, exponent⟩
  | true, false => some ⟨below, exponent⟩
  | false, true => some ⟨below + 1, exponent⟩
  | false, false => none

/-- The power of ten of the first decimal digit of `x`. -/
def firstPlace (x : Binary) : Int :=
  let value := x.scaleQuarters 0 x.quarters
  let unit := x.scaleDigits 0 1
  -- dividing `a` digits by `b` digits puts the first digit at the place `a - b` or one below
  let guess : Int := (Nat.toDigits 10 value).length - (Nat.toDigits 10 unit).length
  if value * Nat.pow 10 (-guess).toNat < unit * Nat.pow 10 guess.toNat then guess - 1 else guess

/-- More digits than this are never needed. -/
def enoughDigits : Nat := 17

/-- The decimal with the fewest digits that reads back as `x`. -/
def shortest (x : Binary) : Decimal :=
  let first := x.firstPlace
  let grids := (List.range enoughDigits).map fun (n : Nat) => first - n
  match grids.findSome? x.onGrid? with
  | some d => d
  -- without a grid that serves, the number itself is a decimal
  | none => ⟨(x.mantissa <<< x.exponent.toNat) * Nat.pow 5 (-x.exponent).toNat, min x.exponent 0⟩

end Binary

end Decimal

end StackProcessor
