/-!
# Doubles as multiples of the least positive double

Every finite double is a whole number of units of `2 ^ (-1074)`, so rounding to
a double is a question about natural numbers.  The *magnitude* of a double is
its bit pattern without the sign bit; magnitudes are ordered like the values
they stand for, and the successor of the largest finite one is infinity.
-/

namespace InfixCalc.Rounding

/-- The bits below the exponent field. -/
def fractionSize : Nat := Nat.pow 2 52

/-- The magnitude of infinity; every larger one belongs to no number. -/
def infiniteMagnitude : Nat := 2047 * fractionSize

/-- The least positive double is `2 ^ (-1074)`. -/
def unitsPerOne : Nat := Nat.pow 2 1074

/-- The number of units of `2 ^ (-1074)` in a finite magnitude. -/
def units (magnitude : Nat) : Nat :=
  let exponent := magnitude / fractionSize
  let fraction := magnitude % fractionSize
  if exponent = 0 then fraction
  else (fractionSize + fraction) * Nat.pow 2 (exponent - 1)

/-- The whole number nearest to a quotient; a half goes to the even neighbour. -/
def roundedQuotient (numerator denominator : Nat) : Nat :=
  let quotient := numerator / denominator
  let twice := 2 * (numerator % denominator)
  if twice < denominator then quotient
  else if denominator < twice then quotient + 1
  else quotient + quotient % 2

/-- The magnitude nearest to `numerator / denominator`.  A double has 53
significant bits, so the bits that have to go are counted first; a carry out of
the fraction lands in the exponent, where it belongs. -/
def nearestMagnitude (numerator denominator : Nat) : Nat :=
  let scaled := numerator * unitsPerOne
  let dropped := Nat.log2 (scaled / denominator) - 52
  min infiniteMagnitude
    (dropped * fractionSize + roundedQuotient scaled (denominator * Nat.pow 2 dropped))

/-- The double with a clear sign and the given magnitude. -/
def ofMagnitude (magnitude : Nat) : Float :=
  Float.ofBits (UInt64.ofNat magnitude)

def magnitudeOf (value : Float) : Nat :=
  value.toBits.toNat % Nat.pow 2 63

/-- The sign bit, which zero has too. -/
def isSigned (value : Float) : Bool :=
  Nat.pow 2 63 ≤ value.toBits.toNat

end InfixCalc.Rounding
