import PdfSchema.Double.Basic
import PdfSchema.Text.Numeral

namespace PdfSchema.Double

def digitCount (n : Nat) : Nat := (Nat.toDigits 10 n).length

/-- The double nearest to `digits * 10 ^ scale`. Beyond 400 places the answer is zero or infinity
whatever the digits are. -/
def ofDecimal (negative : Bool) (digits : Nat) (scale : Int) : Double :=
  if digits = 0 then zero negative
  else if scale + digitCount digits > 400 then infinity negative
  else if scale + digitCount digits < -400 then zero negative
  else ofRatio negative (digits * Nat.pow 10 scale.toNat) (Nat.pow 10 (-scale).toNat)

def ofNumeral (s : List Char) : Double :=
  let negative := s.head? = some '-'
  let body := if negative then s.drop 1 else s
  let whole := body.takeWhile Char.isDigit
  let places := (body.dropWhile Char.isDigit).drop 1
  ofDecimal negative (Text.decimalValue (whole ++ places)) (-(places.length : Int))

structure Decimal where
  digits : Nat
  scale : Int
  deriving DecidableEq, Repr

/-- Four times the magnitude of `x` and of the two ends of the interval that rounds to it, all over
one power of two: the value is `mid`, the ends are `low` and `high`, the unit is
`2 ^ (x.exponent - 2)`. -/
structure Interval where
  low : Nat
  mid : Nat
  high : Nat
  closed : Bool
  scale : Int

def interval (x : Double) : Interval :=
  let m := x.mantissa
  let narrow := x.fractionField = 0 && x.exponentField > 1
  { low := 4 * m - (if narrow then 1 else 2)
    mid := 4 * m
    high := 4 * m + 2
    closed := m % 2 = 0
    scale := x.exponent - 2 }

def Interval.contains (i : Interval) (d : Decimal) : Bool :=
  let unit := Nat.pow 10 (-d.scale).toNat <<< i.scale.toNat
  let value := (d.digits * Nat.pow 10 d.scale.toNat) <<< (-i.scale).toNat
  if i.closed then i.low * unit ≤ value && value ≤ i.high * unit
  else i.low * unit < value && value < i.high * unit

def Interval.distance (i : Interval) (d : Decimal) : Nat :=
  let unit := Nat.pow 10 (-d.scale).toNat <<< i.scale.toNat
  let value := (d.digits * Nat.pow 10 d.scale.toNat) <<< (-i.scale).toNat
  (value - i.mid * unit) + (i.mid * unit - value)

/-- The point of the grid of multiples of `10 ^ scale` that rounds to the value and is nearest to
it, if there is one. -/
def Interval.onGrid? (i : Interval) (scale : Int) : Option Decimal :=
  let floor := (i.mid * Nat.pow 10 (-scale).toNat) <<< i.scale.toNat /
    Nat.pow 10 scale.toNat <<< (-i.scale).toNat
  let below : Decimal := ⟨floor, scale⟩
  let above : Decimal := ⟨floor + 1, scale⟩
  if i.contains below && i.contains above then
    some (if i.distance above < i.distance below then above else below)
  else if i.contains below then some below
  else if i.contains above then some above
  else none

def leadingExponent (x : Double) : Int :=
  let (num, den) := x.ratio
  let guess : Int := (digitCount num : Int) - digitCount den
  if num * Nat.pow 10 (-guess).toNat < den * Nat.pow 10 guess.toNat then guess - 1 else guess

def Decimal.normal (d : Decimal) : Decimal :=
  let ds := (Nat.toDigits 10 d.digits).reverse
  let zeros := (ds.takeWhile (· = '0')).length
  if d.digits = 0 then d else ⟨d.digits / Nat.pow 10 zeros, d.scale + zeros⟩

/-- The decimal of fewest digits that reads back as the magnitude of the finite number `x`, and of
those the nearest. -/
def shortest (x : Double) : Decimal :=
  if x.mantissa = 0 then ⟨0, 0⟩
  else
    let top := leadingExponent x
    match (List.range 17).findSome? fun n => x.interval.onGrid? (top - Int.ofNat n) with
    | some d => d.normal
    | none => ⟨0, 0⟩

end PdfSchema.Double
