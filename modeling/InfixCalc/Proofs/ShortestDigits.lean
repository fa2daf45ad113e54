import Mathlib
import InfixCalc.Proofs.NumeralText

/-!
# The shortest decimal

The search for a decimal goes from the grid of one digit to that of seventeen.  On
each grid only the two neighbours of the exact value have to be tried, since rounding
is monotone; and seventeen digits are finer than the steps between doubles, so the
search never fails.  So no decimal that rounds to a double has fewer digits than the
one that is found.
-/

namespace InfixCalc

open InfixCalc.Rounding

/-! ## The grid of a number of digits -/

/-- The multiple of `10 ^ dropped` in parts of the exact decimal. -/
def gridDecimal (exact : Decimal) (dropped count : Nat) : Decimal :=
  ⟨count, exact.exponent + dropped⟩

variable {magnitude dropped count : Nat} {exact : Decimal}

theorem scaled_gridDecimal {places : Nat} (hplaces : 0 ≤ exact.exponent + places) :
    (gridDecimal exact dropped count).scaled places =
      count * 10 ^ dropped * 10 ^ (exact.exponent + places).toNat := by
  have hexponent : (exact.exponent + dropped + places).toNat =
      dropped + (exact.exponent + places).toNat := by omega
  rw [Decimal.scaled, gridDecimal, hexponent, Nat.pow_add, Nat.mul_assoc]

theorem gridDecimal_mono {other : Nat} (hle : count ≤ other) :
    (gridDecimal exact dropped count).magnitude ≤
      (gridDecimal exact dropped other).magnitude := by
  have hplaces : 0 ≤ exact.exponent + dropped + exact.exponent.natAbs := by omega
  exact Decimal.magnitude_mono hplaces hplaces (Nat.mul_le_mul_right _ hle)

theorem magnitude_gridDecimal_le (hle : count * 10 ^ dropped ≤ exact.coefficient) :
    (gridDecimal exact dropped count).magnitude ≤ exact.magnitude := by
  have hplaces : 0 ≤ exact.exponent + exact.exponent.natAbs := by omega
  refine Decimal.magnitude_mono (by simp only [gridDecimal]; omega) hplaces ?_
  rw [scaled_gridDecimal hplaces]
  exact Nat.mul_le_mul_right _ hle

theorem le_magnitude_gridDecimal (hle : exact.coefficient ≤ count * 10 ^ dropped) :
    exact.magnitude ≤ (gridDecimal exact dropped count).magnitude := by
  have hplaces : 0 ≤ exact.exponent + exact.exponent.natAbs := by omega
  refine Decimal.magnitude_mono hplaces (by simp only [gridDecimal]; omega) ?_
  rw [scaled_gridDecimal hplaces]
  exact Nat.mul_le_mul_right _ hle

/-- If any multiple is rounded like the exact decimal, then so is one of its two
neighbours. -/
theorem exists_nearestOnGrid (hexact : exact.magnitude = magnitude)
    (hcount : (gridDecimal exact dropped count).magnitude = magnitude) :
    ∃ decimal, nearestOnGrid? magnitude dropped exact = some decimal := by
  have hstep : 0 < 10 ^ dropped := Nat.pow_pos (by decide)
  let quotient := exact.coefficient / 10 ^ dropped
  have hneighbour : (gridDecimal exact dropped quotient).magnitude = magnitude ∨
      (gridDecimal exact dropped (quotient + 1)).magnitude = magnitude := by
    rcases Nat.lt_or_ge quotient count with habove | hbelow
    · right
      have hexceeds : exact.coefficient ≤ (quotient + 1) * 10 ^ dropped :=
        (Nat.lt_mul_of_div_lt (Nat.lt_succ_self quotient) hstep).le
      exact Nat.le_antisymm ((gridDecimal_mono habove).trans hcount.le)
        (hexact.ge.trans (le_magnitude_gridDecimal hexceeds))
    · left
      have hwithin : quotient * 10 ^ dropped ≤ exact.coefficient :=
        Nat.div_mul_le_self _ _
      exact Nat.le_antisymm ((magnitude_gridDecimal_le hwithin).trans hexact.le)
        (hcount.ge.trans (gridDecimal_mono hbelow))
  rw [← Option.isSome_iff_exists, nearestOnGrid?, List.find?_isSome]
  rcases hneighbour with hbelow | habove
  · refine ⟨gridDecimal exact dropped quotient, ?_, decide_eq_true hbelow⟩
    split <;> simp [gridDecimal, quotient]
  · refine ⟨gridDecimal exact dropped (quotient + 1), ?_, decide_eq_true habove⟩
    split <;> simp [gridDecimal, quotient]

theorem coefficient_of_nearestOnGrid {decimal : Decimal}
    (hfound : nearestOnGrid? magnitude dropped exact = some decimal) :
    decimal.coefficient ≤ exact.coefficient / 10 ^ dropped + 1 := by
  have hmem := List.mem_of_find?_eq_some hfound
  split at hmem <;> simp at hmem <;> rcases hmem with rfl | rfl <;> simp

/-! ## Digits -/

theorem tenPow_le_twoPow {places bits place length : Nat}
    (hratio : 10 ^ places ≤ 2 ^ bits) (hpositive : 0 < bits)
    (hplace : bits * place ≤ places * length) : 10 ^ place ≤ 2 ^ length := by
  refine (Nat.pow_le_pow_iff_left (Nat.ne_of_gt hpositive)).mp ?_
  calc
    (10 ^ place) ^ bits = 10 ^ (bits * place) := by rw [← Nat.pow_mul, Nat.mul_comm]
    _ ≤ 10 ^ (places * length) := Nat.pow_le_pow_right (by decide) hplace
    _ = (10 ^ places) ^ length := Nat.pow_mul ..
    _ ≤ (2 ^ bits) ^ length := Nat.pow_le_pow_left hratio length
    _ = (2 ^ length) ^ bits := Nat.pow_right_comm ..

/-- The ratio may be too small by a factor of two each time, which some places more
make up for. -/
theorem twoPow_le_tenPow {places bits place length more : Nat}
    (hratio : 2 ^ bits ≤ 2 * 10 ^ places) (hpositive : 0 < bits)
    (hmore : length ≤ 3 * more) (hplace : places * length + more ≤ bits * place) :
    2 ^ length ≤ 10 ^ place := by
  have hspare : 2 ^ length ≤ 10 ^ more := by
    calc
      2 ^ length ≤ 2 ^ (3 * more) := Nat.pow_le_pow_right (by decide) hmore
      _ = 8 ^ more := Nat.pow_mul ..
      _ ≤ 10 ^ more := Nat.pow_le_pow_left (by decide) more
  refine (Nat.pow_le_pow_iff_left (Nat.ne_of_gt hpositive)).mp ?_
  calc
    (2 ^ length) ^ bits = (2 ^ bits) ^ length := Nat.pow_right_comm ..
    _ ≤ (2 * 10 ^ places) ^ length := Nat.pow_le_pow_left hratio length
    _ = 2 ^ length * 10 ^ (places * length) := by rw [Nat.mul_pow, Nat.pow_mul]
    _ ≤ 10 ^ more * 10 ^ (places * length) := Nat.mul_le_mul_right _ hspare
    _ = 10 ^ (places * length + more) := by rw [← Nat.pow_add, Nat.add_comm]
    _ ≤ 10 ^ (bits * place) := Nat.pow_le_pow_right (by decide) hplace
    _ = (10 ^ place) ^ bits := by rw [← Nat.pow_mul, Nat.mul_comm]

/-- The guess from the binary length is exact or one too small, and one comparison
tells. -/
theorem leadingPlace_spec {number length : Nat} (hpositive : 0 < number)
    (hnumber : number < 2 ^ length) (hlength : length ≤ 8192) :
    10 ^ leadingPlace number ≤ number ∧ number < 10 ^ (leadingPlace number + 1) := by
  have hbits := (Nat.log2_lt (Nat.ne_of_gt hpositive)).mpr hnumber
  have hleast := Nat.log2_self_le (Nat.ne_of_gt hpositive)
  have hmost := Nat.lt_log2_self (n := number)
  have hlow : 10 ^ (Nat.log2 number * 1233 / 4096) ≤ 2 ^ Nat.log2 number :=
    @tenPow_le_twoPow 1233 4096 _ _ (by decide +kernel) (by decide) (by omega)
  have hhigh : 2 ^ (Nat.log2 number + 1) ≤ 10 ^ (Nat.log2 number * 1233 / 4096 + 2) :=
    @twoPow_le_tenPow 1233 4096 _ _ 2864 (by decide +kernel) (by decide) (by omega)
      (by omega)
  dsimp only [leadingPlace]
  split
  · exact ⟨by assumption, hmost.trans_le hhigh⟩
  · exact ⟨hlow.trans hleast, Nat.lt_of_not_le (by assumption)⟩

theorem units_mul_lt {magnitude : Nat} (hfinite : magnitude < infiniteMagnitude)
    (places : Nat) : units magnitude * 5 ^ places < 2 ^ (2099 + 3 * places) := by
  obtain ⟨shift, significand, rfl, hleast, hmost⟩ := exists_parts magnitude
  have hshift : shift ≤ 2046 := by
    unfold infiniteMagnitude at hfinite
    by_contra hmore
    have hmul := Nat.mul_le_mul_right fractionSize (Nat.lt_of_not_le hmore)
    omega
  rw [units_of_significand hleast hmost.le]
  calc
    significand * 2 ^ shift * 5 ^ places <
      2 * fractionSize * 2 ^ shift * 8 ^ places := by
      refine Nat.mul_lt_mul_of_lt_of_le ?_ (Nat.pow_le_pow_left (by decide) places) ?_
      · exact Nat.mul_lt_mul_of_pos_right hmost (Nat.two_pow_pos shift)
      · exact Nat.pow_pos (by decide)
    _ = 2 ^ (53 + shift + 3 * places) := by
      rw [fractionSize, Nat.pow_eq, Nat.pow_add, Nat.pow_add, Nat.pow_mul]
    _ ≤ 2 ^ (2099 + 3 * places) := Nat.pow_le_pow_right (by decide) (by omega)

/-! ## Seventeen digits -/

theorem roundedQuotient_near {denominator : Nat} (hpositive : 0 < denominator)
    (numerator : Nat) :
    2 * numerator ≤
        2 * (roundedQuotient numerator denominator * denominator) + denominator ∧
      2 * (roundedQuotient numerator denominator * denominator) ≤
        2 * numerator + denominator := by
  have hparts := Nat.div_add_mod' numerator denominator
  have hrest := Nat.mod_lt numerator hpositive
  have hnext := Nat.add_one_mul (numerator / denominator) denominator
  dsimp only [roundedQuotient]
  split_ifs
  · omega
  · omega
  · rcases Nat.mod_two_eq_zero_or_one (numerator / denominator) with heven | hodd
    · rw [heven, Nat.add_zero]
      omega
    · rw [hodd]
      omega

/-- A grid of seventeen digits is finer than the steps from one magnitude to the
next. -/
theorem step_lt_of_digits {count step growth scale : Nat}
    (hgrowth : count ≤ 2 * fractionSize * growth) (hpositive : 0 < growth * scale)
    (hdigits : 10 ^ 16 * step ≤ count * scale) : step < growth * scale := by
  have hsize : 2 * fractionSize < 10 ^ 16 := by decide
  refine Nat.lt_of_mul_lt_mul_left (a := 10 ^ 16) ?_
  calc
    10 ^ 16 * step ≤ count * scale := hdigits
    _ ≤ 2 * fractionSize * growth * scale := Nat.mul_le_mul_right _ hgrowth
    _ = 2 * fractionSize * (growth * scale) := Nat.mul_assoc ..
    _ < 10 ^ 16 * (growth * scale) := Nat.mul_lt_mul_of_pos_right hsize hpositive

theorem liesBeyond_scaled_iff {magnitude numerator scale : Nat} :
    LiesBeyond magnitude numerator (scale * unitsPerOne) ↔
      (units magnitude + units (magnitude + 1)) * scale < 2 * numerator ∨
        (units magnitude + units (magnitude + 1)) * scale = 2 * numerator ∧
          (magnitude + 1) % 2 = 0 := by
  rw [LiesBeyond, ← Nat.mul_assoc, ← Nat.mul_assoc,
    Nat.mul_lt_mul_right unitsPerOne_pos,
    Nat.mul_left_inj (Nat.ne_of_gt unitsPerOne_pos)]

/-- The multiple nearest to the exact value is rounded like it. -/
theorem nearestMagnitude_of_digits {magnitude step scale : Nat}
    (hfinite : magnitude < infiniteMagnitude) (hstep : 0 < step) (hscale : 0 < scale)
    (hdigits : 10 ^ 16 * step ≤ units magnitude * scale) :
    nearestMagnitude (roundedQuotient (units magnitude * scale) step * step)
      (scale * unitsPerOne) = magnitude := by
  obtain ⟨hleast, hmost⟩ := roundedQuotient_near hstep (units magnitude * scale)
  generalize roundedQuotient (units magnitude * scale) step * step =
    multiple at hleast hmost ⊢
  have hpositive := Nat.mul_pos hscale unitsPerOne_pos
  -- The multiple is less than half a step off, so it stays between the
  -- middles on both sides.
  refine Nat.le_antisymm (Nat.le_of_lt_succ (Nat.lt_of_not_le fun habove => ?_)) ?_
  · have hbeyond := (succ_le_nearestMagnitude_iff hpositive hfinite).mp habove
    obtain ⟨growth, hgrows, hnext, hgrowth⟩ := exists_step magnitude
    have hfine := step_lt_of_digits (by omega) (Nat.mul_pos hgrows hscale) hdigits
    rw [liesBeyond_scaled_iff, hnext, Nat.add_mul, Nat.add_mul] at hbeyond
    omega
  · cases magnitude with
    | zero => exact Nat.zero_le _
    | succ before =>
        refine (succ_le_nearestMagnitude_iff hpositive (Nat.lt_of_succ_lt hfinite)).mpr
          (liesBeyond_scaled_iff.mpr (.inl ?_))
        obtain ⟨growth, hgrows, hnext, hgrowth⟩ := exists_step before
        have hfine := step_lt_of_digits hgrowth (Nat.mul_pos hgrows hscale) hdigits
        rw [hnext, Nat.add_mul] at hleast
        rw [hnext, Nat.add_mul, Nat.add_mul]
        omega

/-! ## Numbers of few digits -/

/-- No more than `count` digits are left of the number without the zeros at its end. -/
def FitsIn (count number : Nat) : Prop :=
  ∃ significand zeros, significand < 10 ^ count ∧ number = significand * 10 ^ zeros

theorem FitsIn.mono {count more number : Nat} (hfits : FitsIn count number)
    (hle : count ≤ more) : FitsIn more number := by
  obtain ⟨significand, zeros, hdigits, hnumber⟩ := hfits
  exact ⟨significand, zeros, hdigits.trans_le (Nat.pow_le_pow_right (by decide) hle),
    hnumber⟩

theorem fitsIn_of_le {count number : Nat} (hpositive : 0 < count)
    (hle : number ≤ 10 ^ count) : FitsIn count number := by
  rcases hle.lt_or_eq with hlt | rfl
  · exact ⟨number, 0, hlt, by rw [Nat.pow_zero, Nat.mul_one]⟩
  · exact ⟨1, count,
      Nat.one_lt_pow (Nat.ne_of_gt hpositive) (by decide), by rw [Nat.one_mul]⟩

theorem fitsIn_mul_tenPow_iff {count number zeros : Nat} :
    FitsIn count (number * 10 ^ zeros) ↔ FitsIn count number := by
  constructor
  · rintro ⟨significand, places, hdigits, hnumber⟩
    have hpositive : 0 < 10 ^ zeros := Nat.pow_pos (by decide)
    rcases Nat.le_total zeros places with hmore | hfewer
    · obtain ⟨rest, rfl⟩ := Nat.exists_eq_add_of_le' hmore
      rw [Nat.pow_add, ← Nat.mul_assoc] at hnumber
      exact ⟨significand, rest, hdigits, Nat.eq_of_mul_eq_mul_right hpositive hnumber⟩
    · have hle : number ≤ significand := by
        refine Nat.le_of_mul_le_mul_right ?_ hpositive
        rw [hnumber]
        exact Nat.mul_le_mul_left _ (Nat.pow_le_pow_right (by decide) hfewer)
      exact ⟨number, 0, hle.trans_lt hdigits, by rw [Nat.pow_zero, Nat.mul_one]⟩
  · rintro ⟨significand, places, hdigits, rfl⟩
    exact ⟨significand, places + zeros, hdigits, by rw [Nat.pow_add, Nat.mul_assoc]⟩

/-- A decimal of few digits either lies on their grid or below all numbers of this
size. -/
theorem exists_gridDecimal_of_digits {place more significand : Nat} {exponent : Int}
    (hplace : 10 ^ place ≤ exact.coefficient) (hmore : more ≤ place)
    (hdigits : significand < 10 ^ (more + 1))
    (hmagnitude : (Decimal.mk significand exponent).magnitude = exact.magnitude) :
    ∃ count, (gridDecimal exact (place - more) count).magnitude = exact.magnitude := by
  let places := exponent.natAbs + exact.exponent.natAbs
  let own := (exponent + places).toNat
  let grid := (exact.exponent + (place - more : Nat) + places).toNat
  have hown : 0 ≤ exponent + places := by omega
  have hgrid : 0 ≤ exact.exponent + (place - more : Nat) + places := by omega
  -- With places beyond the grid the digits end below the first place of the exact
  -- value, so that place's own number stands between the two decimals.
  rcases Int.lt_or_le exponent (exact.exponent + (place - more : Nat))
    with hfiner | hcoarser
  · have hbelow : 10 ^ more * 10 ^ (place - more) ≤ exact.coefficient := by
      rwa [← Nat.pow_add, Nat.add_sub_cancel' hmore]
    have hscaled : significand * 10 ^ own ≤ 10 ^ more * 10 ^ grid := by
      calc
        significand * 10 ^ own ≤ 10 ^ (more + 1) * 10 ^ own :=
          Nat.mul_le_mul_right _ hdigits.le
        _ = 10 ^ more * 10 ^ (own + 1) := by ring
        _ ≤ 10 ^ more * 10 ^ grid :=
          Nat.mul_le_mul_left _ (Nat.pow_le_pow_right (by decide) (by omega))
    have habove : (Decimal.mk significand exponent).magnitude ≤
        (gridDecimal exact (place - more) (10 ^ more)).magnitude :=
      Decimal.magnitude_mono hown hgrid hscaled
    exact ⟨10 ^ more, Nat.le_antisymm (magnitude_gridDecimal_le hbelow)
      (hmagnitude.ge.trans habove)⟩
  · obtain ⟨zeros, hzeros⟩ : ∃ zeros, own = zeros + grid :=
      Nat.exists_eq_add_of_le' (by omega)
    have hscaled : significand * 10 ^ own = significand * 10 ^ zeros * 10 ^ grid := by
      rw [hzeros, Nat.pow_add, Nat.mul_assoc]
    have hsame : (Decimal.mk significand exponent).magnitude =
        (gridDecimal exact (place - more) (significand * 10 ^ zeros)).magnitude :=
      Nat.le_antisymm (Decimal.magnitude_mono hown hgrid hscaled.le)
        (Decimal.magnitude_mono hgrid hown hscaled.ge)
    exact ⟨significand * 10 ^ zeros, hsame.symm.trans hmagnitude⟩

theorem magnitude_gridDecimal {places : Nat}
    (hexponent : exact.exponent = -(places : Int)) :
    (gridDecimal exact dropped count).magnitude =
      nearestMagnitude (count * 10 ^ dropped) (10 ^ places) := by
  have hzero : exact.exponent + places = 0 := by omega
  have hplaces : 0 ≤ (gridDecimal exact dropped count).exponent + places := by
    simp only [gridDecimal]
    omega
  rw [Decimal.magnitude_eq_scaled hplaces, scaled_gridDecimal hzero.ge, hzero,
    Int.toNat_zero, Nat.pow_zero, Nat.mul_one]

/-- On the grid of seventeen digits some multiple is rounded like the exact value. -/
theorem exists_gridDecimal_seventeen {place : Nat}
    (hfinite : magnitude < infiniteMagnitude) (hmost : 16 ≤ place)
    (hplace : 10 ^ place ≤ (exactDecimal magnitude).coefficient) :
    ∃ count, (gridDecimal (exactDecimal magnitude) (place - 16) count).magnitude =
      magnitude := by
  obtain ⟨places, -, -, hcoefficient, hexponent, hunits⟩ := exists_places magnitude
  have hpower : 10 ^ places = 5 ^ places * unitsPerOne := by rw [hunits, ← Nat.mul_pow]
  have hdigits : 10 ^ 16 * 10 ^ (place - 16) ≤ units magnitude * 5 ^ places := by
    rwa [← Nat.pow_add, Nat.add_sub_cancel' hmost, ← hcoefficient]
  refine ⟨roundedQuotient (units magnitude * 5 ^ places) (10 ^ (place - 16)), ?_⟩
  rw [magnitude_gridDecimal hexponent, hpower]
  exact nearestMagnitude_of_digits hfinite (Nat.pow_pos (by decide))
    (Nat.pow_pos (by decide)) hdigits

theorem leadingPlace_exactDecimal (hfinite : magnitude < infiniteMagnitude)
    (hpositive : 0 < magnitude) :
    16 ≤ leadingPlace (exactDecimal magnitude).coefficient ∧
      10 ^ leadingPlace (exactDecimal magnitude).coefficient ≤
        (exactDecimal magnitude).coefficient ∧
      (exactDecimal magnitude).coefficient <
        10 ^ (leadingPlace (exactDecimal magnitude).coefficient + 1) := by
  obtain ⟨places, hleast, hmost, hcoefficient, -, -⟩ := exists_places magnitude
  have hunits : 0 < units magnitude := Nat.zero_lt_of_lt (strictMono_units hpositive)
  have hdigits : 10 ^ 16 ≤ (exactDecimal magnitude).coefficient := by
    rw [hcoefficient]
    calc
      10 ^ 16 ≤ 5 ^ 23 := by decide
      _ ≤ 5 ^ places := Nat.pow_le_pow_right (by decide) hleast
      _ ≤ units magnitude * 5 ^ places := Nat.le_mul_of_pos_left _ hunits
  generalize (exactDecimal magnitude).coefficient = number at hcoefficient hdigits ⊢
  have hnonzero : 0 < number := (Nat.pow_pos (by decide)).trans_le hdigits
  have hnumber : number < 2 ^ (2099 + 3 * places) :=
    hcoefficient.trans_lt (units_mul_lt hfinite places)
  obtain ⟨hlow, hhigh⟩ := leadingPlace_spec hnonzero hnumber (by omega)
  have hplace := (Nat.pow_lt_pow_iff_right (by decide)).mp (hdigits.trans_lt hhigh)
  exact ⟨Nat.le_of_lt_succ hplace, hlow, hhigh⟩

/-! ## The search -/

theorem exists_findSome_range {α : Type} (search : Nat → Option α) {number index : Nat}
    {value : α} (hindex : index < number) (hvalue : search index = some value) :
    ∃ earlier found, earlier ≤ index ∧ search earlier = some found ∧
      (List.range number).findSome? search = some found := by
  induction number with
  | zero => exact absurd hindex (Nat.not_lt_zero index)
  | succ number ih =>
      rw [List.range_succ, List.findSome?_append]
      rcases Nat.lt_succ_iff_lt_or_eq.mp hindex with hbefore | rfl
      · obtain ⟨earlier, found, hearlier, hsearch, hfound⟩ := ih hbefore
        exact ⟨earlier, found, hearlier, hsearch, by rw [hfound]; rfl⟩
      · cases hfound : (List.range index).findSome? search with
        | none => exact ⟨index, value, le_rfl, hvalue, by simp [hvalue]⟩
        | some found =>
            obtain ⟨earlier, hmem, hsearch⟩ := List.exists_of_findSome?_eq_some hfound
            exact ⟨earlier, found, (List.mem_range.mp hmem).le, hsearch, rfl⟩

/-- Where the search succeeds, the decimal has no more digits than the grid. -/
theorem fitsIn_of_nearestOnGrid {place more : Nat} {decimal : Decimal}
    (hplace : exact.coefficient < 10 ^ (place + 1)) (hmore : more ≤ place)
    (hfound : nearestOnGrid? magnitude (place - more) exact = some decimal) :
    FitsIn (more + 1) decimal.coefficient := by
  have hquotient : exact.coefficient / 10 ^ (place - more) < 10 ^ (more + 1) := by
    rw [Nat.div_lt_iff_lt_mul (Nat.pow_pos (by decide)), ← Nat.pow_add]
    have hsum : more + 1 + (place - more) = place + 1 := by omega
    rwa [hsum]
  exact fitsIn_of_le (Nat.succ_pos more)
    ((coefficient_of_nearestOnGrid hfound).trans (Nat.succ_le_of_lt hquotient))

/-- Zeros at the end of a coefficient may stand in the exponent as well. -/
theorem magnitude_mul_tenPow {significand zeros : Nat} {exponent : Int} :
    (Decimal.mk (significand * 10 ^ zeros) exponent).magnitude =
      (Decimal.mk significand (exponent + zeros)).magnitude := by
  have hplaces : 0 ≤ exponent + exponent.natAbs := by omega
  have hzeros : (exponent + zeros + exponent.natAbs).toNat =
      zeros + (exponent + exponent.natAbs).toNat := by omega
  have hscaled :
    (Decimal.mk (significand * 10 ^ zeros) exponent).scaled exponent.natAbs =
      (Decimal.mk significand (exponent + zeros)).scaled exponent.natAbs := by
    simp only [Decimal.scaled, hzeros, Nat.pow_add, Nat.mul_assoc]
  have hmore : 0 ≤ (Decimal.mk significand (exponent + zeros)).exponent +
      exponent.natAbs := by
    dsimp only
    omega
  rw [Decimal.magnitude_eq_scaled hplaces, Decimal.magnitude_eq_scaled hmore, hscaled]

/-- If some decimal of at most seventeen digits rounds to a double, the search stops at
a decimal that has no more digits. -/
theorem fitsIn_shortestDecimal (hfinite : magnitude < infiniteMagnitude)
    (hpositive : 0 < magnitude) {more count : Nat} (hmore : more < 17)
    (hcount :
      (gridDecimal (exactDecimal magnitude)
        (leadingPlace (exactDecimal magnitude).coefficient - more) count).magnitude =
          magnitude) :
    FitsIn (more + 1) (shortestDecimal magnitude).coefficient := by
  obtain ⟨hmost, -, hplace⟩ := leadingPlace_exactDecimal hfinite hpositive
  obtain ⟨decimal, hgrid⟩ :=
    exists_nearestOnGrid (magnitude_exactDecimal hfinite) hcount
  obtain ⟨earlier, found, hearlier, hsearch, hfound⟩ := exists_findSome_range
    (fun more => nearestOnGrid? magnitude
      (leadingPlace (exactDecimal magnitude).coefficient - more)
      (exactDecimal magnitude))
    hmore hgrid
  have hshortest : shortestDecimal magnitude = found := by
    unfold shortestDecimal
    rw [if_neg (Nat.ne_of_gt hpositive)]
    exact congrArg (Option.getD · _) hfound
  rw [hshortest]
  exact (fitsIn_of_nearestOnGrid hplace (by omega) hsearch).mono
    (Nat.succ_le_succ hearlier)

/-- No decimal that rounds to a finite double has fewer digits than its shortest
decimal. -/
theorem shortestDecimal_shortest {count : Nat} {other : Decimal}
    (hfinite : magnitude < infiniteMagnitude) (hother : other.magnitude = magnitude)
    (hcount : FitsIn count other.coefficient) :
    FitsIn count (shortestDecimal magnitude).coefficient := by
  rcases Nat.eq_zero_or_pos magnitude with rfl | hpositive
  · exact ⟨0, 0, Nat.pow_pos (by decide), rfl⟩
  obtain ⟨hmost, hplace, -⟩ := leadingPlace_exactDecimal hfinite hpositive
  obtain ⟨coefficient, exponent⟩ := other
  obtain ⟨significand, zeros, hdigits, rfl⟩ := hcount
  rw [magnitude_mul_tenPow] at hother
  cases count with
  | zero =>
      have hzero : significand = 0 := by omega
      rw [Decimal.magnitude_of_zero hzero] at hother
      exact absurd hother (Nat.ne_of_lt hpositive)
  | succ more =>
      rcases Nat.lt_or_ge more 17 with hfew | hmany
      · have hexact := magnitude_exactDecimal hfinite
        obtain ⟨multiple, hmultiple⟩ :=
          exists_gridDecimal_of_digits hplace (by omega) hdigits
            (hother.trans hexact.symm)
        exact fitsIn_shortestDecimal hfinite hpositive hfew (hmultiple.trans hexact)
      · obtain ⟨multiple, hmultiple⟩ :=
          exists_gridDecimal_seventeen hfinite hmost hplace
        exact (fitsIn_shortestDecimal hfinite hpositive (by decide) hmultiple).mono
          (by omega)

/-! ## Printed numerals -/

/-- In print a decimal has zeros more or fewer at the end, and no other digits. -/
theorem exists_zeros_columns (decimal : Decimal) :
    ∃ zeros dropped,
      digitsValue (decimal.columns.whole ++ decimal.columns.fraction) * 10 ^ dropped =
        decimal.coefficient * 10 ^ zeros := by
  obtain ⟨coefficient, exponent⟩ := decimal
  cases exponent with
  | ofNat zeros =>
      refine ⟨zeros, 0, ?_⟩
      simp only [Decimal.columns, List.append_nil, digitsValue_append_zeros,
        digitsValue_toDigits, Nat.pow_zero, Nat.mul_one]
      exact Nat.mul_comm ..
  | negSucc n =>
      dsimp only [Decimal.columns]
      generalize hpadded :
        List.replicate (n + 1 + 1 - (Nat.toDigits 10 coefficient).length) '0' ++
          Nat.toDigits 10 coefficient = padded
      obtain ⟨dropped, htrimmed⟩ :=
        exists_trailingZeros (padded.drop (padded.length - (n + 1)))
      refine ⟨0, dropped, ?_⟩
      rw [Nat.mul_comm, ← digitsValue_append_zeros, List.append_assoc, ← htrimmed,
        List.take_append_drop, ← hpadded, digitsValue_zeros_append,
        digitsValue_toDigits, Nat.pow_zero, Nat.mul_one]

/-- The number that the digits of a numeral write without its point. -/
def digitsNumber (numeral : List Char) : Nat :=
  digitsValue (numeral.filter (· != '.'))

theorem fitsIn_literalDigits_iff {count : Nat} {decimal : Decimal} :
    FitsIn count (digitsNumber (literalDigits decimal)) ↔
      FitsIn count decimal.coefficient := by
  obtain ⟨-, hwhole, hfraction, -⟩ := readsBack_columns decimal
  obtain ⟨zeros, dropped, hdigits⟩ := exists_zeros_columns decimal
  rw [digitsNumber, literalDigits, Columns.text, filter_numeral hwhole hfraction,
    ← fitsIn_mul_tenPow_iff, hdigits, fitsIn_mul_tenPow_iff]

theorem exists_decimal_of_numeral {numeral : List Char} {value : Float}
    (hvalue : numeralValue? numeral = some value) :
    ∃ exponent, (Decimal.mk (digitsNumber numeral) exponent).magnitude =
      magnitudeOf value := by
  unfold numeralValue? at hvalue
  dsimp only at hvalue
  split at hvalue
  · cases hvalue
  · obtain rfl := Option.some.inj hvalue
    generalize ((numeral.dropWhile (· != '.')).drop 1).length = places
    refine ⟨-places, ?_⟩
    have hzero :
        (Decimal.mk (digitsNumber numeral) (-places)).exponent + places = 0 := by
      dsimp only
      omega
    rw [magnitudeOf_ofMagnitude (nearestMagnitude_le _ _),
      Decimal.magnitude_eq_scaled hzero.ge, Decimal.scaled, hzero, Int.toNat_zero,
      Nat.pow_zero, Nat.mul_one]
    rfl

/-- A number that was read from a numeral is printed with no more digits than it was
read with, zeros at the end aside. -/
theorem fitsIn_literalDigits_of_numeral {count : Nat} {numeral : List Char}
    {value : Float} (hvalue : numeralValue? numeral = some value)
    (hfinite : magnitudeOf value < infiniteMagnitude)
    (hcount : FitsIn count (digitsNumber numeral)) :
    FitsIn count
      (digitsNumber (literalDigits (shortestDecimal (magnitudeOf value)))) := by
  obtain ⟨exponent, hmagnitude⟩ := exists_decimal_of_numeral hvalue
  exact fitsIn_literalDigits_iff.mpr
    (shortestDecimal_shortest hfinite hmagnitude hcount)

end InfixCalc
