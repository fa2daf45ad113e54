import InfixCalc.Double.Rounding

/-!
# Decimals and the shortest one that reads back

A decimal is a natural number times a power of ten.  For every finite magnitude
the shortest decimal that rounds to it is found by trying both neighbours of the
exact value on the grid of one digit, then of two digits, and so on.
-/

namespace InfixCalc

open InfixCalc.Rounding

/-- The number `coefficient * 10 ^ exponent`. -/
structure Decimal where
  coefficient : Nat
  exponent : Int
  deriving DecidableEq, Repr

/-- The magnitude a decimal rounds to. -/
def Decimal.magnitude (decimal : Decimal) : Nat :=
  match decimal.exponent with
  | .ofNat zeros => nearestMagnitude (decimal.coefficient * Nat.pow 10 zeros) 1
  | .negSucc n => nearestMagnitude decimal.coefficient (Nat.pow 10 (n + 1))

/-- The exact value of a magnitude, with 1074 decimal places. -/
def exactDecimal (magnitude : Nat) : Decimal :=
  ⟨units magnitude * Nat.pow 5 1074, -1074⟩

/-- One less than the number of decimal digits.  `1233 / 4096` is a little less
than the decimal logarithm of two, so the guess from the binary length is at most
one too small. -/
def leadingPlace (number : Nat) : Nat :=
  let guess := Nat.log2 number * 1233 / 4096
  if Nat.pow 10 (guess + 1) ≤ number then guess + 1 else guess

/-- The better of the two neighbours of `exact` on the grid of multiples of
`10 ^ dropped`, among those that round to `magnitude`: the nearer one, and the even
one when both are equally near. -/
def nearestOnGrid? (magnitude dropped : Nat) (exact : Decimal) : Option Decimal :=
  let step := Nat.pow 10 dropped
  let below : Decimal := ⟨exact.coefficient / step, exact.exponent + dropped⟩
  let above : Decimal := ⟨below.coefficient + 1, below.exponent⟩
  let twice := 2 * (exact.coefficient % step)
  let choice :=
    if twice < step ∨ twice = step ∧ below.coefficient % 2 = 0 then [below, above]
    else [above, below]
  choice.find? fun decimal => decimal.magnitude = magnitude

/-- The shortest decimal that rounds to `magnitude`.  Seventeen digits always
suffice; the exact value stands behind them. -/
def shortestDecimal (magnitude : Nat) : Decimal :=
  if magnitude = 0 then ⟨0, 0⟩
  else
    let exact := exactDecimal magnitude
    let place := leadingPlace exact.coefficient
    let found := (List.range 17).findSome? fun more =>
      nearestOnGrid? magnitude (place - more) exact
    found.getD exact

end InfixCalc
