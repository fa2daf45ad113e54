import Mathlib
import InfixCalc.Double.Text
import InfixCalc.Proofs.DoubleBits
import InfixCalc.Proofs.ExactRounding

/-!
# Reading back what a numeral writes

A number inside an expression is written as digits with at most one point.  The zeros
that pad them are read without changing the number, and the zeros left out at the end
change numerator and denominator alike.  So the text of a decimal is read as the double
that the decimal rounds to.

What is proved of expressions and their texts rests on no more of a printer of doubles
than that it writes such digits, a sign in front of them, and words for infinity and for
what is not a number.  The layout of numbers inside an expression is such a printer.
-/

namespace InfixCalc

open InfixCalc.Rounding

/-! ## Rows of digits -/

theorem digitsValue_eq (digits : List Char) :
    digitsValue digits = Nat.ofDigitChars 10 digits 0 :=
  rfl

theorem digitsValue_toDigits (number : Nat) :
    digitsValue (Nat.toDigits 10 number) = number := by
  rw [digitsValue_eq, Nat.ofDigitChars_ten_toDigits]

theorem digitsValue_append_zeros (digits : List Char) (zeros : Nat) :
    digitsValue (digits ++ List.replicate zeros '0') =
      10 ^ zeros * digitsValue digits := by
  simp only [digitsValue_eq, Nat.ofDigitChars_append, Nat.ofDigitChars_replicate_zero]

theorem digitsValue_zeros_append (digits : List Char) (zeros : Nat) :
    digitsValue (List.replicate zeros '0' ++ digits) = digitsValue digits := by
  simp only [digitsValue_eq, Nat.ofDigitChars_append, Nat.ofDigitChars_replicate_zero,
    Nat.mul_zero]

/-- What is left out at the end of a fraction is zeros. -/
theorem exists_trailingZeros (digits : List Char) :
    ∃ zeros, digits = withoutTrailingZeros digits ++ List.replicate zeros '0' := by
  let dropped := digits.rtakeWhile (· == '0')
  have hzeros : dropped = List.replicate dropped.length '0' := by
    refine List.eq_replicate_of_mem fun char hmem => ?_
    have hzero := List.mem_rtakeWhile_imp hmem
    exact eq_of_beq hzero
  refine ⟨dropped.length, ?_⟩
  rw [← hzeros]
  exact List.rdropWhile_append_rtakeWhile.symm

/-! ## Numerals -/

theorem ne_point_of_isDigit {char : Char} (hdigit : char.isDigit = true) :
    char ≠ '.' := by
  intro heq
  rw [heq] at hdigit
  exact absurd hdigit (by decide)

theorem filter_digits {digits : List Char}
    (hdigits : ∀ char ∈ digits, char.isDigit = true) :
    digits.filter (· != '.') = digits :=
  List.filter_eq_self.mpr fun char hmem =>
    bne_iff_ne.mpr (ne_point_of_isDigit (hdigits char hmem))

theorem filter_numeral {whole fraction : List Char}
    (hwhole : ∀ char ∈ whole, char.isDigit = true)
    (hfraction : ∀ char ∈ fraction, char.isDigit = true) :
    (whole ++ fractionText fraction).filter (· != '.') = whole ++ fraction := by
  rw [List.filter_append, filter_digits hwhole, fractionText]
  split
  · rename_i hempty
    rw [List.isEmpty_iff.mp hempty, List.filter_nil]
  · rw [List.filter_cons_of_neg (by decide), filter_digits hfraction]

theorem count_point_digits {digits : List Char}
    (hdigits : ∀ char ∈ digits, char.isDigit = true) : digits.count '.' = 0 :=
  List.count_eq_zero.mpr fun hmem => ne_point_of_isDigit (hdigits '.' hmem) rfl

theorem dropWhile_digits_append {digits : List Char}
    (hdigits : ∀ char ∈ digits, char.isDigit = true) (rest : List Char) :
    (digits ++ rest).dropWhile (· != '.') = rest.dropWhile (· != '.') :=
  List.dropWhile_append_of_pos fun char hmem =>
    bne_iff_ne.mpr (ne_point_of_isDigit (hdigits char hmem))

theorem numeralValue?_digits {whole fraction : List Char} (hnonempty : whole ≠ [])
    (hwhole : ∀ char ∈ whole, char.isDigit = true)
    (hfraction : ∀ char ∈ fraction, char.isDigit = true) :
    numeralValue? (whole ++ fractionText fraction) = some (ofMagnitude
      (nearestMagnitude (digitsValue (whole ++ fraction)) (10 ^ fraction.length))) := by
  by_cases hempty : fraction = []
  · have hpoints : ¬(whole = [] ∨ 1 < whole.count '.') := by
      rw [count_point_digits hwhole]
      exact fun habsurd => habsurd.elim hnonempty (by decide)
    have hbehind : whole.dropWhile (· != '.') = [] := by
      have hdropped := dropWhile_digits_append hwhole []
      rwa [List.append_nil] at hdropped
    rw [hempty]
    simp only [fractionText, List.isEmpty_nil, if_true, List.append_nil, numeralValue?,
      filter_digits hwhole, if_neg hpoints, hbehind, List.drop_nil, Nat.pow_eq]
  · have htext : fractionText fraction = '.' :: fraction :=
      if_neg (by rwa [List.isEmpty_iff])
    have hdigits := filter_numeral hwhole hfraction
    rw [htext] at hdigits
    have hpoints : (whole ++ '.' :: fraction).count '.' = 1 := by
      rw [List.count_append, count_point_digits hwhole, List.count_cons_self,
        count_point_digits hfraction]
    have haccepted : ¬(whole ++ fraction = [] ∨ 1 < 1) := by
      rintro (hnothing | hseveral)
      · exact hnonempty (List.append_eq_nil_iff.mp hnothing).1
      · exact absurd hseveral (by decide)
    have hbehind : (whole ++ '.' :: fraction).dropWhile (· != '.') =
        '.' :: fraction := by
      rw [dropWhile_digits_append hwhole]
      exact List.dropWhile_cons_of_neg (by decide)
    simp only [htext, numeralValue?, hdigits, hpoints, if_neg haccepted, hbehind,
      List.drop_succ_cons, List.drop_zero, Nat.pow_eq]

/-! ## Decimals -/

/-- The columns of a decimal hold digits only, and they are read as what it rounds
to. -/
structure ReadsBack (columns : Columns) (magnitude : Nat) : Prop where
  nonempty : columns.whole ≠ []
  whole : ∀ char ∈ columns.whole, char.isDigit = true
  fraction : ∀ char ∈ columns.fraction, char.isDigit = true
  value : nearestMagnitude (digitsValue (columns.whole ++ columns.fraction))
    (10 ^ columns.fraction.length) = magnitude

theorem isDigit_of_mem_zeros {zeros : Nat} {char : Char}
    (hmem : char ∈ List.replicate zeros '0') : char.isDigit = true := by
  rw [List.eq_of_mem_replicate hmem]
  decide

theorem isDigit_of_mem_toDigits {number : Nat} {char : Char}
    (hmem : char ∈ Nat.toDigits 10 number) : char.isDigit = true :=
  Nat.isDigit_of_mem_toDigits (by decide) (by decide) hmem

theorem readsBack_whole (coefficient zeros : Nat) :
    ReadsBack ⟨Nat.toDigits 10 coefficient ++ List.replicate zeros '0', []⟩
      (nearestMagnitude (coefficient * 10 ^ zeros) 1) where
  nonempty := List.append_ne_nil_of_left_ne_nil Nat.toDigits_ne_nil _
  whole char hmem := by
    rcases List.mem_append.mp hmem with hdigit | hzero
    · exact isDigit_of_mem_toDigits hdigit
    · exact isDigit_of_mem_zeros hzero
  fraction char hmem := absurd hmem List.not_mem_nil
  value := by
    rw [List.append_nil, digitsValue_append_zeros, digitsValue_toDigits, Nat.mul_comm]
    rfl

/-- Leaving out the zeros at the end of a fraction divides numerator and denominator
by the same power of ten. -/
theorem readsBack_trimmed {whole fraction : List Char} {magnitude : Nat}
    (hreads : ReadsBack ⟨whole, fraction⟩ magnitude) :
    ReadsBack ⟨whole, withoutTrailingZeros fraction⟩ magnitude := by
  obtain ⟨hnonempty, hwhole, hfraction, hvalue⟩ := hreads
  obtain ⟨zeros, hzeros⟩ := exists_trailingZeros fraction
  have hlength : fraction.length = zeros + (withoutTrailingZeros fraction).length := by
    have hlengths := congrArg List.length hzeros
    rw [List.length_append, List.length_replicate] at hlengths
    omega
  refine ⟨hnonempty, hwhole, fun char hmem => hfraction char ?_, ?_⟩
  · rw [hzeros]
    exact List.mem_append_left _ hmem
  · calc
      nearestMagnitude (digitsValue (whole ++ withoutTrailingZeros fraction))
          (10 ^ (withoutTrailingZeros fraction).length) =
          nearestMagnitude
            (10 ^ zeros * digitsValue (whole ++ withoutTrailingZeros fraction))
            (10 ^ zeros * 10 ^ (withoutTrailingZeros fraction).length) :=
        (nearestMagnitude_mul_left (Nat.pow_pos (by decide))
          (Nat.pow_pos (by decide)) _).symm
      _ =
        nearestMagnitude (digitsValue (whole ++ fraction)) (10 ^ fraction.length) := by
        rw [← digitsValue_append_zeros, List.append_assoc, ← hzeros, ← Nat.pow_add,
          ← hlength]
      _ = magnitude := hvalue

/-- Digits padded with zeros in front, and parted at the point. -/
theorem readsBack_parted (coefficient places : Nat) :
    let digits := Nat.toDigits 10 coefficient
    let padded := List.replicate (places + 1 - digits.length) '0' ++ digits
    ReadsBack
      ⟨padded.take (padded.length - places), padded.drop (padded.length - places)⟩
      (nearestMagnitude coefficient (10 ^ places)) := by
  intro digits padded
  have hlength : places + 1 ≤ padded.length := by
    rw [List.length_append, List.length_replicate]
    omega
  have hdigits : ∀ char ∈ padded, char.isDigit = true := by
    intro char hmem
    rcases List.mem_append.mp hmem with hzero | hdigit
    · exact isDigit_of_mem_zeros hzero
    · exact isDigit_of_mem_toDigits hdigit
  refine ⟨?_, fun char hmem => hdigits char (List.mem_of_mem_take hmem),
    fun char hmem => hdigits char (List.mem_of_mem_drop hmem), ?_⟩
  · intro hnothing
    have hnone := congrArg List.length hnothing
    rw [List.length_take, List.length_nil] at hnone
    omega
  · have hplaces : (padded.drop (padded.length - places)).length = places := by
      rw [List.length_drop]
      omega
    rw [List.take_append_drop, hplaces, digitsValue_zeros_append, digitsValue_toDigits]

theorem readsBack_columns (decimal : Decimal) :
    ReadsBack decimal.columns decimal.magnitude := by
  obtain ⟨coefficient, exponent⟩ := decimal
  cases exponent with
  | ofNat zeros => exact readsBack_whole coefficient zeros
  | negSucc n => exact readsBack_trimmed (readsBack_parted coefficient (n + 1))

theorem ReadsBack.numeralValue? {columns : Columns} {magnitude : Nat}
    (hreads : ReadsBack columns magnitude) :
    numeralValue? columns.text = some (ofMagnitude magnitude) := by
  obtain ⟨hnonempty, hwhole, hfraction, hvalue⟩ := hreads
  rw [Columns.text, numeralValue?_digits hnonempty hwhole hfraction, hvalue]

theorem ReadsBack.text_ne_nil {columns : Columns} {magnitude : Nat}
    (hreads : ReadsBack columns magnitude) : columns.text ≠ [] :=
  List.append_ne_nil_of_left_ne_nil hreads.nonempty _

/-- The text is made of digits and perhaps a point. -/
theorem ReadsBack.isNumeralChar {columns : Columns} {magnitude : Nat}
    (hreads : ReadsBack columns magnitude) {char : Char} (hmem : char ∈ columns.text) :
    char = '.' ∨ char.isDigit = true := by
  rcases List.mem_append.mp hmem with hwhole | hfraction
  · exact .inr (hreads.whole char hwhole)
  · unfold fractionText at hfraction
    split at hfraction
    · cases hfraction
    · rcases List.mem_cons.mp hfraction with hpoint | hdigit
      · exact .inl hpoint
      · exact .inr (hreads.fraction char hdigit)

/-- The digits of a decimal inside an expression. -/
def literalDigits (decimal : Decimal) : List Char :=
  decimal.columns.text

theorem magnitudeText_literal (decimal : Decimal) :
    Layout.literal.magnitudeText decimal = literalDigits decimal := by
  simp only [Layout.magnitudeText, Layout.literal, if_true, Bool.false_eq_true,
    false_and, if_false, literalDigits]

/-! ## Doubles -/

/-- The text of a double without its sign. -/
def unsignedText (value : Float) : List Char :=
  if magnitudeOf value = infiniteMagnitude then ['i', 'n', 'f']
  else literalDigits (shortestDecimal (magnitudeOf value))

theorem toList_literalText {value : Float}
    (hnumber : magnitudeOf value ≤ infiniteMagnitude) :
    (Layout.literal.text value).toList =
      if isSigned value then '-' :: unsignedText value else unsignedText value := by
  simp only [Layout.text, if_neg (Nat.not_lt.mpr hnumber), String.toList_ofList,
    magnitudeText_literal, unsignedText]

theorem literalText_eq {value : Float} (hfinite : magnitudeOf value < infiniteMagnitude)
    (hsign : isSigned value = false) :
    Layout.literal.text value =
      String.ofList (literalDigits (shortestDecimal (magnitudeOf value))) := by
  have htext := toList_literalText hfinite.le
  rw [hsign, if_neg Bool.false_ne_true, unsignedText, if_neg hfinite.ne] at htext
  rw [← htext, String.ofList_toList]

/-- The sign is written in front of what the negated double is written as. -/
theorem toList_literalText_of_signed {value : Float}
    (hnumber : magnitudeOf value ≤ infiniteMagnitude)
    (hsigned : isSigned value = true) :
    (Layout.literal.text value).toList =
      '-' :: (Layout.literal.text (-value)).toList := by
  have hmagnitude := magnitudeOf_neg hnumber
  have hclear : isSigned (-value) = false := by
    rw [isSigned_neg hnumber, hsigned, Bool.not_true]
  have hunsigned : unsignedText (-value) = unsignedText value := by
    rw [unsignedText, unsignedText, hmagnitude]
  rw [toList_literalText hnumber, if_pos hsigned,
    toList_literalText (hmagnitude.trans_le hnumber), hclear, if_neg Bool.false_ne_true,
    hunsigned]

/-! ## Printers -/

/-- What is asked of a printer of doubles that knows no powers of ten. -/
structure IsPositional (print : Float → String) : Prop where
  /-- A finite double without a sign is printed as digits with at most one point, and
  the number they write rounds to it. -/
  digits {value : Float} (hfinite : magnitudeOf value < infiniteMagnitude)
    (hclear : isSigned value = false) :
    ∃ columns, ReadsBack columns (magnitudeOf value) ∧
      (print value).toList = columns.text
  /-- The sign of a number stands in front of what the negated number is printed as. -/
  sign {value : Float} (hnumber : magnitudeOf value ≤ infiniteMagnitude)
    (hsigned : isSigned value = true) :
    (print value).toList = '-' :: (print (-value)).toList
  infinity {value : Float} (hinfinite : magnitudeOf value = infiniteMagnitude)
    (hclear : isSigned value = false) : print value = "inf"
  notNumber {value : Float} (hnot : infiniteMagnitude < magnitudeOf value) :
    print value = "nan"

theorem isPositional_literalText : IsPositional Layout.literal.text where
  digits {value} hfinite hclear := by
    have hreads := readsBack_columns (shortestDecimal (magnitudeOf value))
    rw [magnitude_shortestDecimal hfinite] at hreads
    refine ⟨_, hreads, ?_⟩
    rw [literalText_eq hfinite hclear, String.toList_ofList, literalDigits]
  sign := toList_literalText_of_signed
  infinity {value} hinfinite hclear := by
    have htext := toList_literalText hinfinite.le
    rw [hclear, if_neg Bool.false_ne_true, unsignedText, if_pos hinfinite] at htext
    rw [← String.ofList_toList (s := Layout.literal.text value), htext]
  notNumber hnot := by
    simp only [Layout.text, if_pos hnot]

section
variable {print : Float → String} (hprint : IsPositional print)
include hprint

/-- A finite double without a sign is printed as a numeral whose value it is. -/
theorem IsPositional.numeralValue? {value : Float}
    (hfinite : magnitudeOf value < infiniteMagnitude)
    (hclear : isSigned value = false) :
    numeralValue? (print value).toList = some value := by
  obtain ⟨columns, hreads, htext⟩ := hprint.digits hfinite hclear
  rw [htext, hreads.numeralValue?, ofMagnitude_magnitudeOf hclear]

theorem IsPositional.toList_ne_nil {value : Float}
    (hfinite : magnitudeOf value < infiniteMagnitude)
    (hclear : isSigned value = false) : (print value).toList ≠ [] := by
  obtain ⟨columns, hreads, htext⟩ := hprint.digits hfinite hclear
  rw [htext]
  exact hreads.text_ne_nil

theorem IsPositional.isNumeralChar {value : Float}
    (hfinite : magnitudeOf value < infiniteMagnitude) (hclear : isSigned value = false)
    {char : Char} (hmem : char ∈ (print value).toList) :
    char = '.' ∨ char.isDigit = true := by
  obtain ⟨columns, hreads, htext⟩ := hprint.digits hfinite hclear
  rw [htext] at hmem
  exact hreads.isNumeralChar hmem

end

end InfixCalc
