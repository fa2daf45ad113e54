import Mathlib
import InfixCalc.Double.Rounding

/-!
# The bits of a double

A double is unpacked into sign, exponent and significand, or into one of the special
values, and packing puts the same bits together again.  So a double is made from its
own bits, and one with a clear sign from its magnitude.  Negation turns over the sign of
a number and keeps its magnitude.
-/

namespace InfixCalc

open InfixCalc.Rounding
open Float.Model (Format UnpackedFloat)
open Float.Model.UnpackedFloat

/-! ## Fields -/

theorem toBitVec_ofBitVec (bit : BitVec 1) : (Sign.ofBitVec bit).toBitVec = bit := by
  rcases BitVec.eq_zero_or_eq_one bit with rfl | rfl <;> rfl

/-- Bits are their sign, their exponent and their fraction. -/
theorem packComponents_parts {spec : Format} (bits : BitVec spec.numBits) :
    packComponents spec (Sign.ofBitVec (unpackSign bits)) (unpackExponent bits)
      (unpackMantissa bits) = bits := by
  have hmantissa := spec.hm
  have hexponent := spec.he
  refine BitVec.eq_of_getLsbD_eq fun index hindex => ?_
  simp only [packComponents, toBitVec_ofBitVec, unpackSign, unpackExponent,
    unpackMantissa, BitVec.getLsbD_append, BitVec.getLsbD_cast,
    BitVec.getLsbD_extractLsb]
  split
  · rw [Nat.zero_add, decide_eq_true (by omega), Bool.true_and]
  · split
    · rw [decide_eq_true (by omega), Bool.true_and, Nat.add_sub_cancel' (by omega)]
    · have hlast : index = spec.mantissaBitsWithoutImplicit + spec.exponentBits := by
        simp only [Format.numBits] at hindex
        omega
      rw [decide_eq_true (by omega), Bool.true_and]
      congr 1
      omega

/-! ## Finite doubles -/

theorem pack_subnormal (sign : Sign) {mantissa : BitVec 52}
    (hpositive : 0 < mantissa.toNat) {exponent : Int} (hexponent : exponent = -1074) :
    pack .binary64 (.finite sign mantissa.toNat exponent hpositive) =
      packComponents .binary64 sign 0#_ mantissa := by
  have hbits : mantissa.toNat.log2 + 1 ≠ Format.binary64.mantissaBits := by
    have hlog := (Nat.log2_lt (Nat.ne_of_gt hpositive)).mpr mantissa.isLt
    simp only [Format.mantissaBits]
    omega
  have hbiased : (exponent + Format.binary64.exponentBias +
      Format.binary64.mantissaBitsWithoutImplicit).toNat = 1 := by
    rw [hexponent]
    rfl
  simp only [pack, hbiased, if_neg hbits]
  rw [if_neg (by decide), BitVec.ofNat_toNat]
  rfl

/-- A normal double leaves out the first bit of its significand. -/
theorem toNat_implicitBit (mantissa : BitVec 52) :
    (1#1 ++ mantissa).toNat = 2 ^ 52 + mantissa.toNat := by
  rw [BitVec.toNat_append, ← Nat.shiftLeft_add_eq_or_of_lt mantissa.isLt,
    Nat.shiftLeft_eq]
  rfl

theorem pack_normal (sign : Sign) {exponent : BitVec 11} (mantissa : BitVec 52)
    (hfinite : exponent ≠ -1#11) {unbiased : Int}
    (hunbiased : unbiased = exponent.toNat - 1075)
    (hpositive : 0 < (1#1 ++ mantissa).toNat) :
    pack .binary64 (.finite sign (1#1 ++ mantissa).toNat unbiased hpositive) =
      packComponents .binary64 sign exponent mantissa := by
  have hmantissa := mantissa.isLt
  have hbits : (1#1 ++ mantissa).toNat.log2 + 1 = Format.binary64.mantissaBits := by
    have hnonzero : 2 ^ 52 + mantissa.toNat ≠ 0 := by omega
    have hlog := (Nat.log2_eq_iff hnonzero).mpr ⟨Nat.le_add_right _ _, by omega⟩
    rw [toNat_implicitBit, hlog]
    rfl
  have hexponent : exponent.toNat + 1 < 2 ^ 11 := by
    have hbound := exponent.isLt
    have hother : exponent.toNat ≠ 2 ^ 11 - 1 :=
      fun heq => hfinite (BitVec.eq_of_toNat_eq heq)
    omega
  have hbiased : (unbiased + Format.binary64.exponentBias +
      Format.binary64.mantissaBitsWithoutImplicit).toNat = exponent.toNat := by
    have hbias : (Format.binary64.exponentBias : Int) = 1023 := rfl
    have hmantissaBits : (Format.binary64.mantissaBitsWithoutImplicit : Int) = 52 := rfl
    rw [hunbiased, hbias, hmantissaBits]
    omega
  have htruncated : BitVec.ofNat 52 (1#1 ++ mantissa).toNat = mantissa := by
    rw [toNat_implicitBit]
    apply BitVec.eq_of_toNat_eq
    rw [BitVec.toNat_ofNat, Nat.add_mod_left, Nat.mod_eq_of_lt hmantissa]
  simp only [pack, hbiased, hbits, if_true]
  rw [if_neg (by omega), BitVec.ofNat_toNat, htruncated]
  rfl

/-! ## All doubles -/

/-- The same value under another sign. -/
def withSign (sign : Sign) : UnpackedFloat → UnpackedFloat
  | .notANumber => .notANumber
  | .infinity _ => .infinity sign
  | .zero _ => .zero sign
  | .finite _ mantissa exponent hpositive => .finite sign mantissa exponent hpositive

theorem withSign_unpack {spec : Format} (bits : BitVec spec.numBits) :
    withSign (Sign.ofBitVec (unpackSign bits)) (unpack spec bits) =
      unpack spec bits := by
  dsimp only [unpack]
  split_ifs <;> rfl

theorem neg_unpack {spec : Format} (bits : BitVec spec.numBits) :
    neg (unpack spec bits) =
      withSign (-Sign.ofBitVec (unpackSign bits)) (unpack spec bits) := by
  dsimp only [unpack]
  split_ifs <;> rfl

/-- A number is packed with its own exponent and fraction, whatever sign it is given. -/
theorem pack_withSign {bits : BitVec Format.binary64.numBits}
    (hnumber : unpackExponent bits = -1#_ → unpackMantissa bits = 0#_) (sign : Sign) :
    pack .binary64 (withSign sign (unpack .binary64 bits)) =
      packComponents .binary64 sign (unpackExponent bits) (unpackMantissa bits) := by
  unfold unpack
  by_cases hspecial : unpackExponent bits = -1#_
  · have hmantissa := hnumber hspecial
    simp only [hspecial, hmantissa, if_true]
    rfl
  · by_cases hexponent : unpackExponent bits = 0#_
    · by_cases hmantissa : unpackMantissa bits = 0#_
      · simp only [hexponent, hmantissa, if_true, dif_pos]
        rfl
      · rw [if_neg hspecial, if_pos hexponent, dif_neg hmantissa]
        refine (pack_subnormal sign _ ?_).trans (by rw [hexponent])
        rw [hexponent]
        rfl
    · rw [if_neg hspecial, if_neg hexponent]
      exact pack_normal sign _ hspecial rfl _

/-- The only bits that packing does not give back are those of a NaN nobody writes. -/
theorem pack_unpacked {bits : BitVec Format.binary64.numBits}
    (hvalid : Format.binary64.Valid bits) :
    pack .binary64 (unpack .binary64 bits) = bits := by
  by_cases hnumber : unpackExponent bits = -1#_ → unpackMantissa bits = 0#_
  · rw [← withSign_unpack, pack_withSign hnumber, packComponents_parts]
  · obtain ⟨hspecial, hmantissa⟩ := Classical.not_imp.mp hnumber
    simp only [unpack, hspecial, hmantissa, if_true, if_false]
    exact (hvalid.eq_packedNaN hspecial hmantissa).symm

theorem ofBits_toBits (value : Float) : Float.ofBits value.toBits = value := by
  obtain ⟨⟨bits, hvalid⟩⟩ := value
  have hpacked := pack_unpacked hvalid
  simp only [Float.ofBits, Float.toBits, Float.Model.ofBits, Float.Model.pack, hpacked]

/-- A double with a clear sign is known by its magnitude. -/
theorem ofMagnitude_magnitudeOf {value : Float} (hsign : isSigned value = false) :
    ofMagnitude (magnitudeOf value) = value := by
  have hclear : value.toBits.toNat < Nat.pow 2 63 := by
    rw [isSigned, decide_eq_false_iff_not] at hsign
    exact Nat.not_le.mp hsign
  rw [ofMagnitude, magnitudeOf, Nat.mod_eq_of_lt hclear, UInt64.ofNat_toNat,
    ofBits_toBits]

/-! ## Magnitudes -/

/-- No magnitude up to that of infinity has the bits of a NaN. -/
theorem unpackMantissa_eq_zero {bits : BitVec Format.binary64.numBits}
    (hnumber : bits.toNat % 2 ^ 63 ≤ infiniteMagnitude)
    (hexponent : unpackExponent bits = -1#_) : unpackMantissa bits = 0#_ := by
  refine BitVec.eq_of_toNat_eq ?_
  have hfield := congrArg BitVec.toNat hexponent
  simp only [unpackExponent, BitVec.toNat_cast, BitVec.extractLsb_toNat,
    Nat.shiftRight_eq_div_pow] at hfield
  simp only [unpackMantissa, BitVec.toNat_cast, BitVec.extractLsb_toNat,
    Nat.shiftRight_eq_div_pow]
  have hlargest : bits.toNat / 2 ^ 52 % 2 ^ 11 = 2047 := hfield
  have hbound : bits.toNat % 2 ^ 63 ≤ 2047 * 2 ^ 52 := hnumber
  change bits.toNat / 2 ^ 0 % 2 ^ 52 = 0
  omega

theorem valid_of_magnitude {magnitude : Nat} (hnumber : magnitude ≤ infiniteMagnitude) :
    Format.binary64.Valid (UInt64.ofNat magnitude).toBitVec := by
  have hsmall : infiniteMagnitude < 2 ^ 63 := by decide
  have hbits : (UInt64.ofNat magnitude).toBitVec.toNat = magnitude :=
    Nat.mod_eq_of_lt (by omega)
  refine ⟨fun hexponent hmantissa =>
    absurd (unpackMantissa_eq_zero ?_ hexponent) hmantissa⟩
  rw [hbits]
  exact (Nat.mod_le _ _).trans hnumber

theorem toNat_toBits_ofMagnitude {magnitude : Nat}
    (hnumber : magnitude ≤ infiniteMagnitude) :
    (ofMagnitude magnitude).toBits.toNat = magnitude := by
  have hsmall : infiniteMagnitude < 2 ^ 64 := by decide
  have hpacked := pack_unpacked (valid_of_magnitude hnumber)
  have hbits : (ofMagnitude magnitude).toBits = UInt64.ofNat magnitude := by
    simp only [ofMagnitude, Float.ofBits, Float.toBits, Float.Model.ofBits,
      Float.Model.pack, hpacked]
  rw [hbits]
  exact Nat.mod_eq_of_lt (hnumber.trans_lt hsmall)

theorem magnitudeOf_ofMagnitude {magnitude : Nat}
    (hnumber : magnitude ≤ infiniteMagnitude) :
    magnitudeOf (ofMagnitude magnitude) = magnitude := by
  have hsmall : infiniteMagnitude < Nat.pow 2 63 := by decide
  rw [magnitudeOf, toNat_toBits_ofMagnitude hnumber]
  exact Nat.mod_eq_of_lt (hnumber.trans_lt hsmall)

theorem isSigned_ofMagnitude {magnitude : Nat}
    (hnumber : magnitude ≤ infiniteMagnitude) :
    isSigned (ofMagnitude magnitude) = false := by
  have hsmall : infiniteMagnitude < Nat.pow 2 63 := by decide
  rw [isSigned, toNat_toBits_ofMagnitude hnumber, decide_eq_false_iff_not]
  exact Nat.not_le.mpr (hnumber.trans_lt hsmall)

/-- Sign and magnitude make up a double. -/
theorem eq_of_magnitudeOf {value other : Float}
    (hsign : isSigned value = isSigned other)
    (hmagnitude : magnitudeOf value = magnitudeOf other) : value = other := by
  have hbits : value.toBits.toNat = other.toBits.toNat := by
    have hvalue := value.toBits.toNat_lt
    have hother := other.toBits.toNat_lt
    simp only [isSigned, decide_eq_decide, Nat.pow_eq] at hsign
    simp only [magnitudeOf, Nat.pow_eq] at hmagnitude
    omega
  rw [← ofBits_toBits value, ← ofBits_toBits other, UInt64.toNat_inj.mp hbits]

/-! ## Negation -/

theorem toNat_packComponents (sign : Sign) (exponent : BitVec 11)
    (mantissa : BitVec 52) :
    (packComponents .binary64 sign exponent mantissa).toNat =
      sign.toBitVec.toNat * 2 ^ 63 + (exponent ++ mantissa).toNat := by
  rw [packComponents, BitVec.append_assoc, BitVec.toNat_cast, BitVec.toNat_append,
    ← Nat.shiftLeft_add_eq_or_of_lt (exponent ++ mantissa).isLt, Nat.shiftLeft_eq]

theorem toNat_toBitVec_neg (sign : Sign) :
    (-sign).toBitVec.toNat = 1 - sign.toBitVec.toNat := by
  cases sign <;> rfl

theorem toNat_toBits_neg {value : Float}
    (hnumber : magnitudeOf value ≤ infiniteMagnitude) :
    (-value).toBits.toNat =
      if isSigned value then magnitudeOf value else 2 ^ 63 + magnitudeOf value := by
  let bits : BitVec Format.binary64.numBits := value.toBits.toBitVec
  let sign := Sign.ofBitVec (unpackSign bits)
  have hbits : value.toBits.toNat = sign.toBitVec.toNat * 2 ^ 63 +
      (unpackExponent bits ++ unpackMantissa bits).toNat := by
    rw [← toNat_packComponents, packComponents_parts]
    rfl
  have hnegated : (-value).toBits.toNat = (-sign).toBitVec.toNat * 2 ^ 63 +
      (unpackExponent bits ++ unpackMantissa bits).toNat := by
    rw [← toNat_packComponents, ← pack_withSign (unpackMantissa_eq_zero hnumber),
      ← neg_unpack]
    rfl
  have hsign : sign.toBitVec.toNat < 2 := BitVec.isLt _
  have hbelow : (unpackExponent bits ++ unpackMantissa bits).toNat < 2 ^ 63 :=
    BitVec.isLt _
  rw [hnegated, toNat_toBitVec_neg, isSigned, magnitudeOf, hbits]
  simp only [Nat.pow_eq, decide_eq_true_eq]
  split <;> omega

theorem magnitudeOf_lt (value : Float) : magnitudeOf value < 2 ^ 63 :=
  Nat.mod_lt _ (Nat.two_pow_pos 63)

theorem magnitudeOf_neg {value : Float}
    (hnumber : magnitudeOf value ≤ infiniteMagnitude) :
    magnitudeOf (-value) = magnitudeOf value := by
  have hbelow := magnitudeOf_lt value
  rw [magnitudeOf, Nat.pow_eq, toNat_toBits_neg hnumber]
  split <;> omega

theorem isSigned_neg {value : Float} (hnumber : magnitudeOf value ≤ infiniteMagnitude) :
    isSigned (-value) = !isSigned value := by
  have hbelow := magnitudeOf_lt value
  rw [isSigned, Nat.pow_eq, toNat_toBits_neg hnumber]
  cases isSigned value with
  | false => exact decide_eq_true (Nat.le_add_right _ _)
  | true => exact decide_eq_false (Nat.not_le.mpr hbelow)

end InfixCalc
