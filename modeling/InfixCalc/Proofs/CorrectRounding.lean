import Mathlib
import InfixCalc.Double.Rounding

/-!
# Rounding to the nearest double

Which magnitude a quotient is rounded to depends only on which middles between
neighbouring magnitudes it lies beyond.  So rounding is monotone, it looks only at a
quotient and not at the numbers that make it, and no magnitude lies nearer to the
quotient than the one it finds; of two that lie equally near it finds the even one.
-/

namespace InfixCalc

open InfixCalc.Rounding

/-! ## Units -/

theorem fractionSize_pos : 0 < fractionSize :=
  Nat.two_pow_pos 52

theorem units_of_significand {shift significand : Nat}
    (hleast : shift = 0 ∨ fractionSize ≤ significand)
    (hmost : significand ≤ 2 * fractionSize) :
    units (shift * fractionSize + significand) = significand * 2 ^ shift := by
  have hpositive := fractionSize_pos
  have hparts (exponent fraction : Nat) (hfraction : fraction < fractionSize) :
      units (exponent * fractionSize + fraction) =
        if exponent = 0 then fraction
        else (fractionSize + fraction) * 2 ^ (exponent - 1) := by
    have hexponent :
        (exponent * fractionSize + fraction) / fractionSize = exponent := by
      rw [Nat.mul_comm, Nat.mul_add_div hpositive, Nat.div_eq_of_lt hfraction,
        Nat.add_zero]
    have hrest : (exponent * fractionSize + fraction) % fractionSize = fraction := by
      rw [Nat.mul_comm, Nat.mul_add_mod, Nat.mod_eq_of_lt hfraction]
    simp only [units, hexponent, hrest, Nat.pow_eq]
  rcases Nat.lt_or_ge significand fractionSize with hsubnormal | hnormal
  · obtain rfl : shift = 0 := by omega
    rw [hparts 0 significand hsubnormal, if_pos rfl, Nat.pow_zero, Nat.mul_one]
  · obtain ⟨fraction, rfl⟩ := Nat.exists_eq_add_of_le hnormal
    rcases Nat.lt_or_ge fraction fractionSize with hfraction | hcarry
    · have hsum : shift * fractionSize + (fractionSize + fraction) =
          (shift + 1) * fractionSize + fraction := by ring
      rw [hsum, hparts _ _ hfraction, if_neg (Nat.succ_ne_zero _), Nat.add_sub_cancel]
    · obtain rfl : fraction = fractionSize := by omega
      have hsum : shift * fractionSize + (fractionSize + fractionSize) =
          (shift + 2) * fractionSize + 0 := by ring
      have hshift : shift + 2 - 1 = shift + 1 := rfl
      rw [hsum, hparts _ _ hpositive, if_neg (Nat.succ_ne_zero _), hshift, Nat.pow_succ]
      ring

/-- Every magnitude is a significand of at most 53 bits and the bits it is shifted by;
only the least magnitudes have a shorter significand. -/
theorem exists_parts (magnitude : Nat) :
    ∃ shift significand, magnitude = shift * fractionSize + significand ∧
      (shift = 0 ∨ fractionSize ≤ significand) ∧ significand < 2 * fractionSize := by
  have hfraction : magnitude % fractionSize < fractionSize :=
    Nat.mod_lt _ fractionSize_pos
  have hparts := Nat.div_add_mod' magnitude fractionSize
  cases hexponent : magnitude / fractionSize with
  | zero =>
      rw [hexponent] at hparts
      exact ⟨0, magnitude % fractionSize, hparts.symm, .inl rfl, by omega⟩
  | succ shift =>
      rw [hexponent, Nat.succ_mul] at hparts
      exact ⟨shift, fractionSize + magnitude % fractionSize, by omega,
        .inr (by omega), by omega⟩

/-- From one magnitude to the next the units grow by a step that is not finer than the
53 bits of a significand. -/
theorem exists_step (magnitude : Nat) :
    ∃ step, 0 < step ∧ units (magnitude + 1) = units magnitude + step ∧
      units (magnitude + 1) ≤ 2 * fractionSize * step := by
  obtain ⟨shift, significand, rfl, hleast, hmost⟩ := exists_parts magnitude
  have hunits := units_of_significand hleast hmost.le
  have hnext : units (shift * fractionSize + significand + 1) =
      (significand + 1) * 2 ^ shift := by
    rw [Nat.add_assoc]
    exact units_of_significand (by omega) hmost
  refine ⟨2 ^ shift, Nat.two_pow_pos shift, ?_, ?_⟩
  · rw [hnext, hunits, Nat.succ_mul]
  · rw [hnext]
    exact Nat.mul_le_mul_right _ hmost

theorem strictMono_units : StrictMono units := by
  refine strictMono_nat_of_lt_succ fun magnitude => ?_
  obtain ⟨step, hpositive, hnext, -⟩ := exists_step magnitude
  omega

/-! ## Halves -/

/-- A quotient is rounded up beyond the half, and on the half to an even number. -/
theorem succ_le_roundedQuotient_iff {numerator denominator : Nat}
    (hpositive : 0 < denominator) (number : Nat) :
    number + 1 ≤ roundedQuotient numerator denominator ↔
      (2 * number + 1) * denominator < 2 * numerator ∨
        (2 * number + 1) * denominator = 2 * numerator ∧ (number + 1) % 2 = 0 := by
  have hparts := Nat.div_add_mod' numerator denominator
  have hrest := Nat.mod_lt numerator hpositive
  dsimp only [roundedQuotient]
  set quotient := numerator / denominator
  set rest := numerator % denominator
  have hsplit : (2 * number + 1) * denominator =
      2 * (number * denominator) + denominator := by
    ring
  rw [hsplit]
  rcases Nat.lt_trichotomy number quotient with hbelow | rfl | habove
  · have hmul : (number + 1) * denominator ≤ quotient * denominator :=
      Nat.mul_le_mul_right _ hbelow
    rw [Nat.succ_mul] at hmul
    split_ifs <;> omega
  · split_ifs <;> omega
  · have hmul : (quotient + 1) * denominator ≤ number * denominator :=
      Nat.mul_le_mul_right _ habove
    rw [Nat.succ_mul] at hmul
    split_ifs <;> omega

theorem le_roundedQuotient {number numerator denominator : Nat}
    (hpositive : 0 < denominator) (hleast : number * denominator ≤ numerator) :
    number ≤ roundedQuotient numerator denominator := by
  cases number with
  | zero => exact Nat.zero_le _
  | succ number =>
      refine (succ_le_roundedQuotient_iff hpositive number).mpr (.inl ?_)
      calc
        (2 * number + 1) * denominator < (2 * number + 2) * denominator :=
          Nat.mul_lt_mul_of_pos_right (Nat.lt_succ_self _) hpositive
        _ = 2 * ((number + 1) * denominator) := by ring
        _ ≤ 2 * numerator := Nat.mul_le_mul_left 2 hleast

theorem roundedQuotient_le {number numerator denominator : Nat}
    (hpositive : 0 < denominator) (hmost : numerator ≤ number * denominator) :
    roundedQuotient numerator denominator ≤ number := by
  refine Nat.le_of_lt_succ (Nat.lt_of_not_le fun habove => ?_)
  have hbeyond := (succ_le_roundedQuotient_iff hpositive number).mp habove
  have hsplit : (2 * number + 1) * denominator =
      2 * (number * denominator) + denominator := by
    ring
  rw [hsplit] at hbeyond
  omega

/-! ## Rounding to a magnitude -/

theorem nearestMagnitude_le (numerator denominator : Nat) :
    nearestMagnitude numerator denominator ≤ infiniteMagnitude :=
  Nat.min_le_left _ _

/-- The quotient lies beyond the middle between a magnitude and the next one, or in the
middle if the next one is even. -/
def LiesBeyond (magnitude numerator denominator : Nat) : Prop :=
  (units magnitude + units (magnitude + 1)) * denominator <
    2 * (numerator * unitsPerOne) ∨
      (units magnitude + units (magnitude + 1)) * denominator =
        2 * (numerator * unitsPerOne) ∧ (magnitude + 1) % 2 = 0

theorem liesBeyond_of_reached {magnitude numerator denominator : Nat}
    (hpositive : 0 < denominator)
    (hreached : units (magnitude + 1) * denominator ≤ numerator * unitsPerOne) :
    LiesBeyond magnitude numerator denominator := by
  have hgrows :=
    Nat.mul_lt_mul_of_pos_right (strictMono_units (Nat.lt_add_one magnitude)) hpositive
  refine .inl ?_
  rw [Nat.add_mul]
  omega

theorem not_liesBeyond_of_unreached {magnitude numerator denominator : Nat}
    (hpositive : 0 < denominator)
    (hunreached : numerator * unitsPerOne ≤ units magnitude * denominator) :
    ¬LiesBeyond magnitude numerator denominator := by
  have hgrows :=
    Nat.mul_lt_mul_of_pos_right (strictMono_units (Nat.lt_add_one magnitude)) hpositive
  unfold LiesBeyond
  rw [Nat.add_mul]
  omega

/-- What is left when bits are dropped has at most 53 bits, and no fewer if
any are dropped. -/
theorem bounds_of_dropped {scaled denominator dropped : Nat}
    (hpositive : 0 < denominator)
    (hdropped : dropped = Nat.log2 (scaled / denominator) - 52) :
    scaled ≤ 2 * fractionSize * (denominator * 2 ^ dropped) ∧
      (dropped = 0 ∨ fractionSize * (denominator * 2 ^ dropped) ≤ scaled) := by
  have hpower : 2 ^ (52 + dropped) * denominator =
      fractionSize * (denominator * 2 ^ dropped) := by
    rw [fractionSize, Nat.pow_eq, Nat.pow_add]
    ring
  constructor
  · have hmost : scaled / denominator < 2 ^ (52 + dropped + 1) :=
      Nat.lt_log2_self.trans_le (Nat.pow_le_pow_right (by decide) (by omega))
    have hscaled := (Nat.div_lt_iff_lt_mul hpositive).mp hmost
    rw [Nat.pow_succ, Nat.mul_right_comm, hpower] at hscaled
    rw [Nat.mul_assoc]
    omega
  · rcases Nat.eq_zero_or_pos dropped with hnone | hsome
    · exact .inl hnone
    · right
      have hnonzero : scaled / denominator ≠ 0 := by
        intro hzero
        rw [hzero, Nat.log2_zero] at hdropped
        omega
      have hleast : 2 ^ (52 + dropped) ≤ scaled / denominator :=
        (Nat.le_log2 hnonzero).mp (by omega)
      rw [← hpower]
      exact (Nat.le_div_iff_mul_le hpositive).mp hleast

/-- Which magnitude a quotient is rounded to depends on the middles between neighbours
only. -/
theorem succ_le_nearestMagnitude_iff {magnitude numerator denominator : Nat}
    (hpositive : 0 < denominator) (hfinite : magnitude < infiniteMagnitude) :
    magnitude + 1 ≤ nearestMagnitude numerator denominator ↔
      LiesBeyond magnitude numerator denominator := by
  dsimp only [nearestMagnitude]
  rw [Nat.pow_eq, Nat.le_min, and_iff_right (Nat.succ_le_of_lt hfinite)]
  generalize hdropped : Nat.log2 (numerator * unitsPerOne / denominator) - 52 = dropped
  obtain ⟨hmost, hleast⟩ := bounds_of_dropped hpositive hdropped.symm
  have hstep : 0 < denominator * 2 ^ dropped :=
    Nat.mul_pos hpositive (Nat.two_pow_pos dropped)
  have hscaled (count : Nat) : count * 2 ^ dropped * denominator =
      count * (denominator * 2 ^ dropped) := by
    ring
  -- The magnitudes of the binade in which the quotient lies, those below it
  -- and those above it.
  by_cases hbelow : dropped ≠ 0 ∧ magnitude < dropped * fractionSize + fractionSize
  · have hnormal := hleast.resolve_left hbelow.1
    have hrounded := le_roundedQuotient hstep hnormal
    have hunits := strictMono_units.monotone (Nat.succ_le_of_lt hbelow.2)
    rw [units_of_significand (.inr le_rfl) (by omega)] at hunits
    refine iff_of_true (by omega) (liesBeyond_of_reached hpositive ?_)
    exact (Nat.mul_le_mul_right denominator hunits).trans ((hscaled _).trans_le hnormal)
  by_cases habove : dropped * fractionSize + 2 * fractionSize ≤ magnitude
  · have hrounded := roundedQuotient_le hstep hmost
    have hunits := strictMono_units.monotone habove
    rw [units_of_significand (.inr (by omega)) le_rfl] at hunits
    refine iff_of_false (by omega) (not_liesBeyond_of_unreached hpositive ?_)
    exact hmost.trans
      ((hscaled _).symm.trans_le (Nat.mul_le_mul_right denominator hunits))
  · have hfront : dropped * fractionSize ≤ magnitude := by
      by_cases hnone : dropped = 0
      · rw [hnone, Nat.zero_mul]
        exact Nat.zero_le _
      · omega
    obtain ⟨significand, rfl⟩ := Nat.exists_eq_add_of_le hfront
    have hmiddle : (units (dropped * fractionSize + significand) +
        units (dropped * fractionSize + significand + 1)) * denominator =
        (2 * significand + 1) * (denominator * 2 ^ dropped) := by
      rw [Nat.add_assoc, units_of_significand (by omega) (by omega),
        units_of_significand (by omega) (by omega)]
      ring
    have heven : (dropped * fractionSize + significand + 1) % 2 =
        (significand + 1) % 2 := by
      have hsize : dropped * fractionSize = 2 * (dropped * 2 ^ 51) := by
        rw [fractionSize, Nat.pow_eq]
        ring
      omega
    rw [LiesBeyond, hmiddle, heven, ← succ_le_roundedQuotient_iff hstep]
    omega

theorem LiesBeyond.mono {magnitude numerator denominator other otherDenominator : Nat}
    (hbeyond : LiesBeyond magnitude numerator denominator) (hpositive : 0 < denominator)
    (hotherPositive : 0 < otherDenominator)
    (hle : numerator * otherDenominator ≤ other * denominator) :
    LiesBeyond magnitude other otherDenominator := by
  unfold LiesBeyond at hbeyond ⊢
  generalize units magnitude + units (magnitude + 1) = twice at hbeyond ⊢
  have hscaled : 2 * (numerator * unitsPerOne) * otherDenominator ≤
      2 * (other * unitsPerOne) * denominator := by
    calc
      2 * (numerator * unitsPerOne) * otherDenominator =
          2 * unitsPerOne * (numerator * otherDenominator) := by ring
      _ ≤ 2 * unitsPerOne * (other * denominator) := Nat.mul_le_mul_left _ hle
      _ = 2 * (other * unitsPerOne) * denominator := by ring
  rcases hbeyond with hbeyond | ⟨hmiddle, heven⟩
  · left
    refine Nat.lt_of_mul_lt_mul_right (a := denominator) ?_
    rw [Nat.mul_right_comm]
    exact (Nat.mul_lt_mul_of_pos_right hbeyond hotherPositive).trans_le hscaled
  · have hreached : twice * otherDenominator ≤ 2 * (other * unitsPerOne) := by
      refine Nat.le_of_mul_le_mul_right ?_ hpositive
      rw [Nat.mul_right_comm, hmiddle]
      exact hscaled
    exact hreached.lt_or_eq.imp id fun hequal => ⟨hequal, heven⟩

/-- A larger quotient is not rounded to a lesser magnitude. -/
theorem nearestMagnitude_mono {numerator denominator other otherDenominator : Nat}
    (hpositive : 0 < denominator) (hotherPositive : 0 < otherDenominator)
    (hle : numerator * otherDenominator ≤ other * denominator) :
    nearestMagnitude numerator denominator ≤
      nearestMagnitude other otherDenominator := by
  have hnumber := nearestMagnitude_le numerator denominator
  cases hmagnitude : nearestMagnitude numerator denominator with
  | zero => exact Nat.zero_le _
  | succ magnitude =>
      rw [hmagnitude] at hnumber
      have hbeyond := (succ_le_nearestMagnitude_iff hpositive hnumber).mp hmagnitude.ge
      exact (succ_le_nearestMagnitude_iff hotherPositive hnumber).mpr
        (hbeyond.mono hpositive hotherPositive hle)

/-- How far a magnitude lies from a quotient. -/
def distance (magnitude numerator denominator : Nat) : Nat :=
  Nat.dist (units magnitude * denominator) (numerator * unitsPerOne)

/-- No magnitude lies nearer to a quotient than the one to which it is rounded, and of
two that lie equally near it is the even one. -/
theorem nearestMagnitude_isNearest {numerator denominator other : Nat}
    (hpositive : 0 < denominator) (hnumber : other ≤ infiniteMagnitude)
    (hother : other ≠ nearestMagnitude numerator denominator) :
    distance (nearestMagnitude numerator denominator) numerator denominator <
        distance other numerator denominator ∨
      distance (nearestMagnitude numerator denominator) numerator denominator =
          distance other numerator denominator ∧
        nearestMagnitude numerator denominator % 2 = 0 := by
  have hmost := nearestMagnitude_le numerator denominator
  generalize hnearest : nearestMagnitude numerator denominator =
    nearest at hmost hother ⊢
  simp only [distance, Nat.dist]
  rcases Nat.lt_or_gt_of_ne hother with hbelow | habove
  · obtain ⟨before, rfl⟩ := Nat.exists_eq_succ_of_ne_zero (Nat.ne_zero_of_lt hbelow)
    have hbeyond := (succ_le_nearestMagnitude_iff hpositive hmost).mp hnearest.ge
    have hunits := Nat.mul_le_mul_right denominator
      (strictMono_units.monotone (Nat.le_of_lt_succ hbelow))
    have hgrows :=
      Nat.mul_lt_mul_of_pos_right (strictMono_units (Nat.lt_add_one before)) hpositive
    rw [LiesBeyond, Nat.add_mul] at hbeyond
    simp only [Nat.succ_eq_add_one]
    omega
  · have hbeyond : ¬LiesBeyond nearest numerator denominator := by
      rw [← succ_le_nearestMagnitude_iff hpositive (habove.trans_le hnumber), hnearest]
      exact Nat.not_succ_le_self nearest
    have hunits := Nat.mul_le_mul_right denominator
      (strictMono_units.monotone (Nat.succ_le_of_lt habove))
    have hgrows :=
      Nat.mul_lt_mul_of_pos_right (strictMono_units (Nat.lt_add_one nearest)) hpositive
    rw [LiesBeyond, Nat.add_mul] at hbeyond
    simp only [Nat.succ_eq_add_one] at hunits
    omega

end InfixCalc
