import Mathlib
import InfixCalc.Double.Decimal
import InfixCalc.Proofs.CorrectRounding

/-!
# Rounding what needs no rounding

Rounding looks only at a quotient, not at the numbers that make it, and leaves every
finite double as it is.  So the exact decimal of a double rounds to that double, and
the shortest decimal does by the way it is found.
-/

namespace InfixCalc

open InfixCalc.Rounding

/-! ## Quotients -/

theorem nearestMagnitude_mul_left {factor denominator : Nat} (hfactor : 0 < factor)
    (hpositive : 0 < denominator) (numerator : Nat) :
    nearestMagnitude (factor * numerator) (factor * denominator) =
      nearestMagnitude numerator denominator := by
  have hequal : factor * numerator * denominator =
    numerator * (factor * denominator) := by ring
  have hscaled := Nat.mul_pos hfactor hpositive
  exact Nat.le_antisymm (nearestMagnitude_mono hscaled hpositive hequal.le)
    (nearestMagnitude_mono hpositive hscaled hequal.ge)

theorem unitsPerOne_pos : 0 < unitsPerOne := by
  unfold unitsPerOne
  apply Nat.two_pow_pos

/-- A magnitude stands for its units, so it reaches the middle in front of it and not
the one behind it. -/
theorem nearestMagnitude_units {magnitude : Nat}
    (hfinite : magnitude < infiniteMagnitude) :
    nearestMagnitude (units magnitude) unitsPerOne = magnitude := by
  refine Nat.le_antisymm (Nat.le_of_lt_succ (Nat.lt_of_not_le fun habove => ?_)) ?_
  · exact not_liesBeyond_of_unreached unitsPerOne_pos le_rfl
      ((succ_le_nearestMagnitude_iff unitsPerOne_pos hfinite).mp habove)
  · cases magnitude with
    | zero => exact Nat.zero_le _
    | succ before =>
        exact (succ_le_nearestMagnitude_iff unitsPerOne_pos
          (Nat.lt_of_succ_lt hfinite)).mpr
            (liesBeyond_of_reached unitsPerOne_pos le_rfl)

theorem nearestMagnitude_zero {denominator : Nat} (hpositive : 0 < denominator) :
    nearestMagnitude 0 denominator = 0 := by
  refine Nat.le_zero.mp ?_
  calc
    nearestMagnitude 0 denominator ≤ nearestMagnitude (units 0) unitsPerOne :=
      nearestMagnitude_mono hpositive unitsPerOne_pos
        (by rw [Nat.zero_mul]; exact Nat.zero_le _)
    _ = 0 := nearestMagnitude_units (by decide)

/-! ## Decimals -/

theorem nearestMagnitude_tenPow (numerator places : Nat) :
    nearestMagnitude (numerator * 5 ^ places) (10 ^ places) =
      nearestMagnitude numerator (2 ^ places) := by
  have hpower : 10 ^ places = 5 ^ places * 2 ^ places := by rw [← Nat.mul_pow]
  rw [hpower, Nat.mul_comm numerator,
    nearestMagnitude_mul_left (Nat.pow_pos (by decide)) (Nat.two_pow_pos places)]

theorem Decimal.magnitude_of_negSucc {decimal : Decimal} {n : Nat}
    (hexponent : decimal.exponent = .negSucc n) :
    decimal.magnitude = nearestMagnitude decimal.coefficient (10 ^ (n + 1)) := by
  unfold Decimal.magnitude
  rw [hexponent]
  rfl

/-- A decimal in parts of `10 ^ (-places)`, if it has no further places. -/
def Decimal.scaled (decimal : Decimal) (places : Nat) : Nat :=
  decimal.coefficient * 10 ^ (decimal.exponent + places).toNat

theorem Decimal.magnitude_eq_scaled {decimal : Decimal} {places : Nat}
    (hplaces : 0 ≤ decimal.exponent + places) :
    decimal.magnitude = nearestMagnitude (decimal.scaled places) (10 ^ places) := by
  have hten : 0 < 10 := by decide
  obtain ⟨coefficient, exponent⟩ := decimal
  dsimp only [Decimal.scaled] at hplaces ⊢
  cases exponent with
  | ofNat zeros =>
      have hexponent : (Int.ofNat zeros + places).toNat = places + zeros := by
        rw [Int.ofNat_eq_natCast]
        omega
      have hscaled :=
        nearestMagnitude_mul_left (Nat.pow_pos (n := places) hten) Nat.one_pos
          (coefficient * 10 ^ zeros)
      rw [Nat.mul_one] at hscaled
      rw [hexponent, Nat.pow_add, Nat.mul_left_comm, hscaled]
      rfl
  | negSucc n =>
      obtain ⟨more, rfl⟩ : ∃ more, places = n + 1 + more :=
        Nat.exists_eq_add_of_le (by rw [Int.negSucc_eq] at hplaces; omega)
      have hexponent : (Int.negSucc n + ((n + 1 + more : Nat) : Int)).toNat = more := by
        rw [Int.negSucc_eq]
        omega
      have hscaled := nearestMagnitude_mul_left (Nat.pow_pos (n := more) hten)
        (Nat.pow_pos (n := n + 1) hten) coefficient
      rw [hexponent, Nat.mul_comm coefficient, Nat.add_comm (n + 1),
        Nat.pow_add, hscaled]
      exact Decimal.magnitude_of_negSucc rfl

theorem Decimal.magnitude_mono {first second : Decimal} {places : Nat}
    (hfirst : 0 ≤ first.exponent + places) (hsecond : 0 ≤ second.exponent + places)
    (hle : first.scaled places ≤ second.scaled places) :
    first.magnitude ≤ second.magnitude := by
  have hpositive : 0 < 10 ^ places := Nat.pow_pos (by decide)
  rw [Decimal.magnitude_eq_scaled hfirst, Decimal.magnitude_eq_scaled hsecond]
  exact nearestMagnitude_mono hpositive hpositive (Nat.mul_le_mul_right _ hle)

theorem Decimal.magnitude_of_zero {decimal : Decimal}
    (hzero : decimal.coefficient = 0) : decimal.magnitude = 0 := by
  have hplaces : 0 ≤ decimal.exponent + decimal.exponent.natAbs := by omega
  rw [Decimal.magnitude_eq_scaled hplaces, Decimal.scaled, hzero, Nat.zero_mul]
  exact nearestMagnitude_zero (Nat.pow_pos (by decide))

/-- The exact decimal has as many places as the least positive double. -/
theorem exists_places (magnitude : Nat) :
    ∃ places : Nat, 23 ≤ places ∧ places ≤ 1074 ∧
      (exactDecimal magnitude).coefficient = units magnitude * 5 ^ places ∧
      (exactDecimal magnitude).exponent = -(places : Int) ∧
        unitsPerOne = 2 ^ places := by
  refine ⟨1074, by decide, by decide, ?_, rfl, ?_⟩
  · exact congrArg (units magnitude * ·) Nat.pow_eq
  · unfold unitsPerOne
    exact Nat.pow_eq

theorem magnitude_exactDecimal {magnitude : Nat}
    (hfinite : magnitude < infiniteMagnitude) :
    (exactDecimal magnitude).magnitude = magnitude := by
  obtain ⟨places, -, -, hcoefficient, hexponent, hunits⟩ := exists_places magnitude
  have hzero : (exactDecimal magnitude).exponent + places = 0 := by omega
  rw [Decimal.magnitude_eq_scaled hzero.ge, Decimal.scaled, hzero, hcoefficient,
    Int.toNat_zero, Nat.pow_zero, Nat.mul_one, nearestMagnitude_tenPow, ← hunits,
    nearestMagnitude_units hfinite]

theorem magnitude_of_nearestOnGrid {magnitude dropped : Nat} {exact decimal : Decimal}
    (hfound : nearestOnGrid? magnitude dropped exact = some decimal) :
    decimal.magnitude = magnitude := by
  have haccepted := List.find?_some hfound
  exact of_decide_eq_true haccepted

/-- The shortest decimal of a finite double rounds to that double. -/
theorem magnitude_shortestDecimal {magnitude : Nat}
    (hfinite : magnitude < infiniteMagnitude) :
    (shortestDecimal magnitude).magnitude = magnitude := by
  unfold shortestDecimal
  by_cases hzero : magnitude = 0
  · rw [if_pos hzero, hzero]
    exact Decimal.magnitude_of_zero rfl
  · rw [if_neg hzero]
    dsimp only
    cases hfound : (List.range 17).findSome? fun more => nearestOnGrid? magnitude
        (leadingPlace (exactDecimal magnitude).coefficient - more)
        (exactDecimal magnitude) with
    | none => exact magnitude_exactDecimal hfinite
    | some decimal =>
        obtain ⟨more, -, hgrid⟩ := List.exists_of_findSome?_eq_some hfound
        exact magnitude_of_nearestOnGrid hgrid

end InfixCalc
