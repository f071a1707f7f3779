import Mathlib
import Conformance.Image.Texel
import Conformance.Proofs.Binary.Magnitude
import Conformance.Proofs.Binary.Widening

namespace Conformance

namespace Format

variable {f : Format}

theorem scaled_excess_lt {num den m : Nat} (hd : 0 < den) (hn : num < f.unity * den)
    (hm : m < 2 * f.binade) : m * 2 ^ f.excess (num / den) < f.unity := by
  have hs : 2 * f.binade * 2 ^ (f.scale - 1 - f.fractionBits) = f.unity := unity_eq_mul.symm
  have he : f.excess (num / den) ≤ f.scale - 1 - f.fractionBits := by
    apply excess_le
    rw [hs]
    exact (Nat.div_lt_iff_lt_mul hd).mpr hn
  calc m * 2 ^ f.excess (num / den) ≤ m * 2 ^ (f.scale - 1 - f.fractionBits) :=
        Nat.mul_le_mul_left _ (Nat.pow_le_pow_right (by omega) he)
    _ < 2 * f.binade * 2 ^ (f.scale - 1 - f.fractionBits) :=
        Nat.mul_lt_mul_of_pos_right hm (Nat.two_pow_pos _)
    _ = f.unity := hs

/-- Division of whole numbers that fit a significand loses less than multiplying back can tell. -/
theorem roundHalfEven_fraction {w m : Nat} (hw : w ≤ m) (h0 : 0 < m) (hm : m < 2 * f.binade) :
    roundHalfEven (f.units (f.nearestCode (w * f.unity * f.unity) (m * f.unity)) * m)
      f.unity = w := by
  have hu := f.unity_pos
  have hd : 0 < m * f.unity := Nat.mul_pos h0 hu
  obtain rfl | hlt := Nat.eq_or_lt_of_le hw
  · have hnum : w * f.unity * f.unity = f.unity * (w * f.unity) := by ring
    rw [hnum, units_nearestCode represents_unity hd, Nat.mul_comm, roundHalfEven_mul _ hu]
  · have hnum : w * f.unity * f.unity < f.unity * (m * f.unity) := by
      calc w * f.unity * f.unity < m * f.unity * f.unity :=
            Nat.mul_lt_mul_of_pos_right (Nat.mul_lt_mul_of_pos_right hlt hu) hu
        _ = f.unity * (m * f.unity) := by ring
    have hstep := scaled_excess_lt hd hnum hm
    obtain ⟨hupper, hlower⟩ := units_unboundedCode_error (f := f) (w * f.unity * f.unity) hd
    rw [nearestCode_eq_unboundedCode represents_unity hd hnum.le]
    set e := f.excess (w * f.unity * f.unity / (m * f.unity))
    set u := f.units (f.unboundedCode (w * f.unity * f.unity) (m * f.unity))
    have hu1 : 2 * (u * m) ≤ 2 * (w * f.unity) + m * 2 ^ e := by
      apply Nat.le_of_mul_le_mul_right _ hu
      calc 2 * (u * m) * f.unity = 2 * (u * (m * f.unity)) := by ring
        _ ≤ _ := hupper
        _ = (2 * (w * f.unity) + m * 2 ^ e) * f.unity := by ring
    have hu2 : 2 * (w * f.unity) ≤ 2 * (u * m) + m * 2 ^ e := by
      apply Nat.le_of_mul_le_mul_right _ hu
      calc 2 * (w * f.unity) * f.unity = 2 * (w * f.unity * f.unity) := by ring
        _ ≤ _ := hlower
        _ = (2 * (u * m) + m * 2 ^ e) * f.unity := by ring
    apply roundHalfEven_eq_of_near <;> omega

end Format

namespace Texel

open Binary

def fraction (negative : Bool) (w m : Nat) : Single :=
  nearest .single negative (w * Format.single.unity * Format.single.unity) (m * Format.single.unity)

theorem maxCode_eq (bits : Nat) : maxCode bits = 2 ^ bits - 1 := BitVec.toNat_allOnes

theorem natCast_maxCode (bits : Nat) : ((maxCode bits : Nat) : ℤ) = 2 ^ bits - 1 := by
  rw [maxCode_eq, Nat.cast_sub Nat.one_le_two_pow]
  push_cast
  rfl

theorem unsignedWord_eq (bits word : Nat) : unsignedWord bits word = word % 2 ^ bits :=
  BitVec.toNat_ofNat word bits

variable {negative : Bool} {w m : Nat}

@[simp]
theorem isNaN_fraction : (fraction negative w m).isNaN = false := isNaN_nearest ..

@[simp]
theorem isNegative_fraction : (fraction negative w m).isNegative = negative := isNegative_nearest ..

theorem code_fraction :
    (fraction negative w m).code = Format.single.nearestCode
      (w * Format.single.unity * Format.single.unity) (m * Format.single.unity) :=
  code_nearest ..

theorem units_one : Format.single.units (ofNat .single 1).code = Format.single.unity := by
  rw [units_ofNat (by decide), Nat.one_mul]

theorem div_ofNat {x : Single} (hx : x.isFinite)
    (hw : Format.single.units x.code = w * Format.single.unity) (h0 : 0 < m)
    (hm : m ≤ 2 * Format.single.binade) : x / ofNat .single m = fraction x.isNegative w m := by
  rw [div_of_isFinite hx (isFinite_ofNat hm) (isZero_ofNat h0 hm), hw, units_ofNat hm,
    (isMagnitude_ofNat m).isNegative, Bool.bne_false, fraction]

theorem code_fraction_le (hw : w ≤ m) (h0 : 0 < m) :
    (fraction negative w m).code ≤ (ofNat .single 1).code := by
  have hd : 0 < m * Format.single.unity := Nat.mul_pos h0 Format.single.unity_pos
  have hnum : w * Format.single.unity * Format.single.unity ≤
      Format.single.unity * (m * Format.single.unity) := by
    calc w * Format.single.unity * Format.single.unity
      _ ≤ m * Format.single.unity * Format.single.unity :=
          Nat.mul_le_mul_right _ (Nat.mul_le_mul_right _ hw)
      _ = Format.single.unity * (m * Format.single.unity) := by ring
  rw [← Format.single.units_strictMono.le_iff_le, units_one, code_fraction]
  exact Format.units_nearestCode_le Format.represents_unity hd hnum

theorem le_code_fraction (hw : m ≤ w) (h0 : 0 < m) :
    (ofNat .single 1).code ≤ (fraction negative w m).code := by
  have hd : 0 < m * Format.single.unity := Nat.mul_pos h0 Format.single.unity_pos
  have hnum : Format.single.unity * (m * Format.single.unity) ≤
      w * Format.single.unity * Format.single.unity := by
    calc Format.single.unity * (m * Format.single.unity) =
          m * Format.single.unity * Format.single.unity := by ring
      _ ≤ w * Format.single.unity * Format.single.unity :=
          Nat.mul_le_mul_right _ (Nat.mul_le_mul_right _ hw)
  rw [← Format.single.units_strictMono.le_iff_le, units_one, code_fraction]
  exact Format.le_units_nearestCode Format.represents_unity hd hnum

theorem isFinite_of_code_le {x : Single} (h : x.code ≤ (ofNat .single 1).code) : x.isFinite := by
  have hone := (isFinite_iff _).mp (isFinite_ofNat (f := .single) (n := 1) (by decide))
  rw [isFinite_iff]
  omega

theorem represents_scaled {n : Nat} (hn : Format.single.Represents n)
    (hm : m < 2 * Format.single.binade) :
    Format.double.Represents (n * 2 ^ (Format.double.scale - Format.single.scale) * m) := by
  obtain ⟨s, t, hs, ht, rfl⟩ := hn
  have hembeds := (Format.embeds_double .single).shift
  have hfits : 2 * Format.single.binade * (2 * Format.single.binade) ≤
      2 * Format.double.binade := by
    decide +kernel
  refine ⟨s * m, t + (Format.double.scale - Format.single.scale), ?_, by omega, by ring⟩
  exact (Nat.mul_lt_mul'' hs hm).trans_le hfits

/-- Scaling in double precision is exact, so that a single rounding is left. -/
theorem quantize_eq {v : Single} (hv : v.isFinite) (hm : m < 2 * Format.single.binade) :
    quantize m v =
      if v.isNegative then
        -(roundHalfEven (Format.single.units v.code * m) Format.single.unity : Int)
      else roundHalfEven (Format.single.units v.code * m) Format.single.unity := by
  have hembeds := Format.embeds_double .single
  have hmd : m ≤ 2 * Format.double.binade := by
    have hb := hembeds.binade
    omega
  set k := 2 ^ (Format.double.scale - Format.single.scale) with hk
  have hd := isFinite_convert hembeds hv
  have hu := units_convert hembeds hv
  have hs := represents_scaled (Format.represents_units ((isFinite_iff v).mp hv)) hm
  rw [← hk] at hu hs
  have hunity : Format.double.unity = Format.single.unity * k := by
    rw [Format.unity_widened hembeds, Nat.mul_comm]
  have hround : roundHalfEven (Format.single.units v.code * k * m) Format.double.unity =
      roundHalfEven (Format.single.units v.code * m) Format.single.unity := by
    rw [hunity, Nat.mul_right_comm, roundHalfEven_mul_mul _ _ (Nat.two_pow_pos _)]
  have hnum : Format.single.units v.code * k * (m * Format.double.unity) =
      Format.single.units v.code * k * m * Format.double.unity := by ring
  rw [quantize, mul_of_isFinite hd (isFinite_ofNat hmd), hu, units_ofNat hmd, hnum, roundInt,
    code_nearest, isNegative_nearest, Format.units_nearestCode hs Format.double.unity_pos, hround,
    isNegative_convert _ (isNaN_of_isFinite hv), (isMagnitude_ofNat m).isNegative, Bool.bne_false]

theorem quantize_fraction (hw : w ≤ m) (h0 : 0 < m) (hm : m < 2 * Format.single.binade) :
    quantize m (fraction negative w m) = if negative then -(w : Int) else w := by
  rw [quantize_eq (isFinite_of_code_le (code_fraction_le hw h0)) hm, isNegative_fraction,
    code_fraction, Format.roundHalfEven_fraction hw h0 hm]

theorem maxCode_bounds {bits : Nat} (hb : 0 < bits) (hs : bits ≤ 24) :
    0 < maxCode bits ∧ maxCode bits < 2 * Format.single.binade := by
  have h1 := Nat.one_lt_two_pow (Nat.ne_of_gt hb)
  have h2 : 2 ^ bits ≤ 2 ^ 24 := Nat.pow_le_pow_right (by omega) hs
  have hbinade : Format.single.binade = 2 ^ 23 := Format.single.binade_eq
  rw [maxCode_eq]
  omega

theorem unsignedWord_le (bits word : Nat) : unsignedWord bits word ≤ maxCode bits := by
  have hlt := Nat.mod_lt word (Nat.two_pow_pos bits)
  rw [unsignedWord_eq, maxCode_eq]
  omega

theorem ofUnorm_eq {bits : Nat} (hb : 0 < bits) (hs : bits ≤ 24) (word : Nat) :
    ofUnorm bits word = fraction false (unsignedWord bits word) (maxCode bits) := by
  obtain ⟨h0, hm⟩ := maxCode_bounds hb hs
  have hw := (unsignedWord_le bits word).trans hm.le
  rw [ofUnorm, div_ofNat (isFinite_ofNat hw) (units_ofNat hw) h0 hm.le,
    (isMagnitude_ofNat _).isNegative]

/-- An unsigned code of at most 24 bits is recovered. -/
theorem toUnorm_ofUnorm {bits : Nat} (hb : 0 < bits) (hs : bits ≤ 24) (word : Nat) :
    toUnorm bits (ofUnorm bits word) = word % 2 ^ bits := by
  obtain ⟨h0, hm⟩ := maxCode_bounds hb hs
  have hle := unsignedWord_le bits word
  rw [ofUnorm_eq hb hs, toUnorm, isNaN_fraction,
    clamp_unsigned isNegative_fraction (code_fraction_le hle h0), quantize_fraction hle h0 hm,
    unsignedWord_eq]
  rfl

/-- The lowest code stands for the same number as the next. -/
def snormCode (bits word : Nat) : Int := max (signedWord bits word) (-(maxCode (bits - 1)))

theorem signedWord_bounds {bits : Nat} (hb : 0 < bits) (word : Nat) :
    -(maxCode (bits - 1) : Int) - 1 ≤ signedWord bits word ∧
      signedWord bits word ≤ maxCode (bits - 1) := by
  have hl := BitVec.le_two_mul_toInt (x := BitVec.ofNat bits word)
  have hu := BitVec.two_mul_toInt_lt (x := BitVec.ofNat bits word)
  have hm : ((maxCode (bits - 1) : Nat) : Int) + 1 = 2 ^ (bits - 1) := by
    have h0 := Nat.two_pow_pos (bits - 1)
    have hn : maxCode (bits - 1) + 1 = 2 ^ (bits - 1) := by
      rw [maxCode_eq]
      omega
    exact_mod_cast hn
  have hp : (2 : Int) ^ bits = 2 * 2 ^ (bits - 1) := (mul_pow_sub_one (by omega) 2).symm
  rw [hp, ← hm] at hl hu
  rw [signedWord]
  omega

theorem code_minus_one_fraction (h0 : 0 < m) : fraction true m m = ofInt .single (-1) := by
  apply ext_code
  · rw [isNegative_fraction, isNegative_ofInt]
    rfl
  · rw [code_minus_one]
    exact Nat.le_antisymm (code_fraction_le (le_refl m) h0) (le_code_fraction (le_refl m) h0)

theorem larger_of_one_le {x : Single} (hn : x.isNaN = false) (hs : x.isNegative)
    (h : (ofNat .single 1).code ≤ x.code) : x.larger (ofInt .single (-1)) = ofInt .single (-1) := by
  rw [larger, hn, Bool.false_or]
  split_ifs with hlt
  · rfl
  · have hp : (ofInt .single (-1)).position ≤ x.position := by
      simpa [lt, hn, ofInt] using hlt
    rw [position_minus_one, position, hs, if_pos rfl] at hp
    apply ext_code
    · simp [hs]
    · rw [code_minus_one]
      omega

theorem div_ofInt {n : Int} (hn : n.natAbs ≤ 2 * Format.single.binade) (h0 : 0 < m)
    (hm : m ≤ 2 * Format.single.binade) :
    ofInt .single n / ofNat .single m = fraction (decide (n < 0)) n.natAbs m := by
  have hf : (ofInt .single n).isFinite := by
    rw [isFinite_iff, code_ofInt, ← isFinite_iff]
    exact isFinite_ofNat hn
  have hu : Format.single.units (ofInt .single n).code = n.natAbs * Format.single.unity := by
    rw [code_ofInt, units_ofNat hn]
  rw [div_ofNat hf hu h0 hm, isNegative_ofInt]

theorem ofSnorm_eq {bits : Nat} (hb : 1 < bits) (hs : bits ≤ 24) (word : Nat) :
    ofSnorm bits word =
      fraction (decide (snormCode bits word < 0))
        (snormCode bits word).natAbs (maxCode (bits - 1)) := by
  obtain ⟨h0, hm⟩ := maxCode_bounds (by omega : 0 < bits - 1) (by omega)
  obtain ⟨hl, hu⟩ := signedWord_bounds (by omega : 0 < bits) word
  have hm1 : maxCode (bits - 1) + 1 < 2 * Format.single.binade := by
    have hp : 2 ^ (bits - 1) ≤ 2 ^ 23 := Nat.pow_le_pow_right (by omega) (by omega)
    have hbinade : Format.single.binade = 2 ^ 23 := Format.single.binade_eq
    rw [maxCode_eq] at h0 ⊢
    omega
  rw [ofSnorm, snormCode]
  set z := signedWord bits word
  set m := maxCode (bits - 1)
  rw [div_ofInt (by omega) h0 hm.le]
  by_cases hz : -(m : Int) ≤ z
  · rw [max_eq_left hz]
    exact larger_minus_one isNaN_fraction (code_fraction_le (by omega) h0)
  · have hneg : decide (z < 0) = true := by
      rw [decide_eq_true_eq]
      omega
    have hlow : decide (-(m : Int) < 0) = true := by
      rw [decide_eq_true_eq]
      omega
    rw [max_eq_right (by omega), hneg, hlow, Int.natAbs_neg, Int.natAbs_natCast,
      code_minus_one_fraction h0]
    exact larger_of_one_le isNaN_fraction isNegative_fraction (le_code_fraction (by omega) h0)

theorem toSnorm_ofSnorm {bits : Nat} (hb : 1 < bits) (hs : bits ≤ 24) (word : Nat) :
    toSnorm bits (ofSnorm bits word) = (snormCode bits word % UInt32.size).toNat := by
  obtain ⟨h0, hm⟩ := maxCode_bounds (by omega : 0 < bits - 1) (by omega)
  obtain ⟨hl, hu⟩ := signedWord_bounds (by omega : 0 < bits) word
  have hle : (snormCode bits word).natAbs ≤ maxCode (bits - 1) := by
    rw [snormCode]
    omega
  have hq : (if decide (snormCode bits word < 0) then -((snormCode bits word).natAbs : Int)
      else (snormCode bits word).natAbs) = snormCode bits word := by
    simp only [decide_eq_true_eq]
    split <;> omega
  rw [ofSnorm_eq hb hs, toSnorm, isNaN_fraction, clamp_signed (code_fraction_le hle h0)]
  simp only [Bool.false_eq_true, if_false]
  rw [quantize_fraction hle h0 hm, hq]

end Texel

end Conformance
