import InfixCalc.Double.Decimal

/-!
# The text of a double

A double is written with the digits of its shortest decimal.  A layout says which
decimal exponents are written out in full and whether a whole number still gets a point.
Zeros at the end of a fraction are never written.

A numeral that is read is a row of digits with at most one point in it.  Its value is
the double nearest to the number it writes, and infinity beyond the largest double.
-/

namespace InfixCalc

open InfixCalc.Rounding

/-! ## Writing -/

structure Layout where
  /-- Is a number whose first digit has this decimal exponent written in full? -/
  isPositional : Int → Bool
  /-- Is a whole number written with a fraction of `0`? -/
  pointAlways : Bool

/-- Numbers inside an expression have no power of ten and no idle point. -/
def Layout.literal : Layout := ⟨fun _ => true, false⟩

/-- Values shown as results keep a point, and only those from `10 ^ (-4)` up to
below `10 ^ 16` are written in full. -/
def Layout.result : Layout := ⟨fun exponent => -4 ≤ exponent ∧ exponent < 16, true⟩

def withoutTrailingZeros (digits : List Char) : List Char :=
  (digits.reverse.dropWhile (· == '0')).reverse

/-- The digits of a number before and after the decimal point. -/
structure Columns where
  whole : List Char
  fraction : List Char
  deriving DecidableEq, Repr

/-- The digits are padded with zeros up to the point, on whichever side of it
they end; at least one digit stands before it. -/
def Decimal.columns (decimal : Decimal) : Columns :=
  let digits := Nat.toDigits 10 decimal.coefficient
  match decimal.exponent with
  | .ofNat zeros => ⟨digits ++ List.replicate zeros '0', []⟩
  | .negSucc n =>
    let places := n + 1
    let padded := List.replicate (places + 1 - digits.length) '0' ++ digits
    let wholeLength := padded.length - places
    ⟨padded.take wholeLength, withoutTrailingZeros (padded.drop wholeLength)⟩

/-- An absent fraction takes its point along. -/
def fractionText (fraction : List Char) : List Char :=
  if fraction.isEmpty then [] else '.' :: fraction

def Columns.text (columns : Columns) : List Char :=
  columns.whole ++ fractionText columns.fraction

/-- A power of ten, with its sign and at least two digits. -/
def powerText (exponent : Int) : List Char :=
  let digits := Nat.toDigits 10 exponent.natAbs
  'e' :: (if exponent < 0 then '-' else '+') ::
    (List.replicate (2 - digits.length) '0' ++ digits)

def Layout.magnitudeText (layout : Layout) (decimal : Decimal) : List Char :=
  let digits := Nat.toDigits 10 decimal.coefficient
  let leading : Int := decimal.exponent + (digits.length - 1 : Nat)
  if layout.isPositional leading then
    let columns := decimal.columns
    if layout.pointAlways ∧ columns.fraction = [] then columns.whole ++ ['.', '0']
    else columns.text
  else
    digits.take 1 ++ fractionText (withoutTrailingZeros (digits.drop 1)) ++
      powerText leading

/-- The text of a double.  What is not a number has no sign either. -/
def Layout.text (layout : Layout) (value : Float) : String :=
  let magnitude := magnitudeOf value
  if infiniteMagnitude < magnitude then "nan"
  else
    let digits :=
      if magnitude = infiniteMagnitude then ['i', 'n', 'f']
      else layout.magnitudeText (shortestDecimal magnitude)
    String.ofList (if isSigned value then '-' :: digits else digits)

/-! ## Reading -/

/-- The number written by a row of decimal digits. -/
def digitsValue (digits : List Char) : Nat :=
  digits.foldl (fun number digit => 10 * number + (digit.toNat - '0'.toNat)) 0

/-- The value of a row of digits and points, if it has a digit and at most one
point. -/
def numeralValue? (numeral : List Char) : Option Float :=
  let digits := numeral.filter (· != '.')
  let fraction := (numeral.dropWhile (· != '.')).drop 1
  if digits = [] ∨ 1 < numeral.count '.' then none
  else
    some (ofMagnitude
      (nearestMagnitude (digitsValue digits) (Nat.pow 10 fraction.length)))

end InfixCalc
