import InfixCalc.Proofs.RoundTrip

/-!
# The tokens of a printed number

A finite double is printed without a power of ten and without a blank, so its text is
one run of digits, behind a minus if the double has a sign.  The run is read as that
very double, or as its negation behind the minus.  So the text tells every two finite
doubles apart, zeros of both signs included.
-/

namespace InfixCalc

open InfixCalc.Rounding

variable {print : Float → String}

theorem tokenize_print_of_clear (hprint : IsPositional print) {value : Float}
    (hfinite : magnitudeOf value < infiniteMagnitude)
    (hclear : isSigned value = false) :
    tokenize (print value) = .ok [⟨.number, print value, 0, some value⟩] :=
  scan_of_scansTo (scansTo_print hprint hfinite hclear 0)

theorem tokenize_print_of_signed (hprint : IsPositional print) {value : Float}
    (hfinite : magnitudeOf value < infiniteMagnitude)
    (hsigned : isSigned value = true) :
    tokenize (print value) =
      .ok [⟨.operator .sub, "-", 0, none⟩,
        ⟨.number, print (-value), 1, some (-value)⟩] := by
  have hnegated : magnitudeOf (-value) < infiniteMagnitude :=
    (magnitudeOf_neg hfinite.le).trans_lt hfinite
  have hclear : isSigned (-value) = false := by
    rw [isSigned_neg hfinite.le, hsigned, Bool.not_true]
  have hminus : classify '-' = .symbol (.operator .sub) := classify_symbol .sub
  have hscans := (scansTo_print hprint hnegated hclear (0 + 1)).symbol hminus
  rw [tokenize, hprint.sign hfinite.le hsigned]
  exact scan_of_scansTo hscans

/-- The tokens of a printed number show its sign and its magnitude. -/
theorem eq_of_print (hprint : IsPositional print) {value other : Float}
    (hvalue : magnitudeOf value < infiniteMagnitude)
    (hother : magnitudeOf other < infiniteMagnitude)
    (htext : print value = print other) : value = other := by
  cases hsign : isSigned value with
  | false =>
      have htokens := tokenize_print_of_clear hprint hvalue hsign
      cases hsignOther : isSigned other with
      | false =>
          rw [htext, tokenize_print_of_clear hprint hother hsignOther] at htokens
          simp only [Except.ok.injEq, List.cons.injEq, Token.mk.injEq,
            Option.some.injEq] at htokens
          exact htokens.1.2.2.2.symm
      | true =>
          rw [htext, tokenize_print_of_signed hprint hother hsignOther] at htokens
          cases htokens
  | true =>
      have htokens := tokenize_print_of_signed hprint hvalue hsign
      cases hsignOther : isSigned other with
      | false =>
          rw [htext, tokenize_print_of_clear hprint hother hsignOther] at htokens
          cases htokens
      | true =>
          rw [htext, tokenize_print_of_signed hprint hother hsignOther] at htokens
          simp only [Except.ok.injEq, List.cons.injEq, Token.mk.injEq,
            Option.some.injEq] at htokens
          have hnegated : -other = -value := htokens.2.1.2.2.2
          refine eq_of_magnitudeOf (hsign.trans hsignOther.symm) ?_
          rw [← magnitudeOf_neg hvalue.le, ← hnegated, magnitudeOf_neg hother.le]

/-- Whichever positional printer prints a finite double, the text has tokens, and they
hold the double bit for bit: a single number if its sign is clear, otherwise a minus and
the negated double.  So two finite doubles of different bits are never printed alike. -/
theorem tokenize_print (hprint : IsPositional print) {value : Float}
    (hfinite : magnitudeOf value < infiniteMagnitude) :
    (isSigned value = false →
      tokenize (print value) = .ok [⟨.number, print value, 0, some value⟩]) ∧
    (isSigned value = true →
      tokenize (print value) =
        .ok [⟨.operator .sub, "-", 0, none⟩,
          ⟨.number, print (-value), 1, some (-value)⟩]) ∧
    ∀ other, magnitudeOf other < infiniteMagnitude → other.toBits ≠ value.toBits →
      print other ≠ print value := by
  refine ⟨tokenize_print_of_clear hprint hfinite,
    tokenize_print_of_signed hprint hfinite, ?_⟩
  intro other hother hbits htext
  exact hbits (congrArg Float.toBits (eq_of_print hprint hother hfinite htext))

theorem least_doubles_are_told_apart :
    let print := Layout.literal.text
    let least : Float := Float.ofBits 0x0000000000000001
    let negative : Float := Float.ofBits 0x8000000000000001
    IsPositional print ∧
      (magnitudeOf least < infiniteMagnitude ∧ isSigned least = false) ∧
      (magnitudeOf negative < infiniteMagnitude ∧ isSigned negative = true) ∧
      least.toBits ≠ negative.toBits ∧
      tokenize (print least) = .ok [⟨.number, print least, 0, some least⟩] ∧
      tokenize (print negative) =
        .ok [⟨.operator .sub, "-", 0, none⟩,
          ⟨.number, print (-negative), 1, some (-negative)⟩] ∧
      print least ≠ print negative := by
  intro print least negative
  have hprint : IsPositional print := isPositional_literalText
  have hleast : magnitudeOf least < infiniteMagnitude := by decide
  have hclear : isSigned least = false := by decide
  have hnegative : magnitudeOf negative < infiniteMagnitude := by decide
  have hsigned : isSigned negative = true := by decide
  have hbits : least.toBits ≠ negative.toBits := by decide
  obtain ⟨-, hminus, hapart⟩ := tokenize_print hprint hnegative
  exact ⟨hprint, ⟨hleast, hclear⟩, ⟨hnegative, hsigned⟩, hbits,
    (tokenize_print hprint hleast).1 hclear, hminus hsigned, hapart least hleast hbits⟩

end InfixCalc
