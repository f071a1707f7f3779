import Mathlib
import Conformance.Proofs.Binary.Nearest
import Conformance.Proofs.Binary.Text

namespace Conformance

namespace Format

variable {f : Format}

theorem excess_eq {n e : Nat} (hlow : e = 0 ∨ f.binade * 2 ^ e ≤ n)
    (hhigh : n < 2 * f.binade * 2 ^ e) : f.excess n = e := by
  apply le_antisymm (excess_le hhigh)
  obtain rfl | hlow := hlow
  · exact Nat.zero_le _
  · by_contra hlt
    have hn := lt_of_excess (f := f) n
    have hpow : 2 ^ (f.excess n + 1) ≤ 2 ^ e := Nat.pow_le_pow_right two_pos (by omega)
    have hmul := Nat.mul_le_mul_left f.binade hpow
    have hsplit : f.binade * 2 ^ (f.excess n + 1) = 2 * f.binade * 2 ^ f.excess n := by ring
    omega

/-- Rounding of a quotient whose integer part is a significand shifted by `e`. -/
theorem nearestCode_shifted {num den a b e k : Nat} (hk : 0 < k) (hnum : num = a * k)
    (hden : den * 2 ^ e = b * k) (hlow : e = 0 ∨ f.binade ≤ a / b) (hhigh : a / b < 2 * f.binade) :
    f.nearestCode num den = min (e * f.binade + roundHalfEven a b) f.infinityCode := by
  have hq : num / den / 2 ^ e = a / b := by
    rw [Nat.div_div_eq_div_mul, hden, hnum, Nat.mul_div_mul_right _ _ hk]
  have he : f.excess (num / den) = e := by
    rw [← hq] at hlow hhigh
    exact excess_eq (hlow.imp_right (Nat.le_div_iff_mul_le (Nat.two_pow_pos e)).mp)
      ((Nat.div_lt_iff_lt_mul (Nat.two_pow_pos e)).mp hhigh)
  rw [nearestCode_eq, unboundedCode, he, Nat.shiftLeft_eq, hden, hnum, roundHalfEven_mul_mul _ _ hk]

def halfCode (code : Nat) : Nat :=
  half.nearestCode (single.units code * half.unity) single.unity

section HalfCode

variable {e r : Nat}

theorem single_units_normal (he : 0 < e) (hr : r < 2 ^ 23) :
    single.units (e * 2 ^ 23 + r) * half.unity = (2 ^ 23 + r) * 2 ^ (e + 23) := by
  have hunits : single.units (e * 2 ^ 23 + r) = (2 ^ 23 + r) * 2 ^ (e - 1) := by
    obtain ⟨n, rfl⟩ := Nat.exists_eq_succ_of_ne_zero he.ne'
    exact single.units_binade n hr
  have hunity : half.unity = 2 ^ 24 := half.unity_eq
  have hexponent : e - 1 + 24 = e + 23 := by omega
  rw [hunits, hunity, Nat.mul_assoc, ← Nat.pow_add, hexponent]

theorem halfCode_normal (hlow : 113 ≤ e) (hhigh : e ≤ 142) (hr : r < 2 ^ 23) :
    halfCode (e * 2 ^ 23 + r) = (e - 113) * 2 ^ 10 + roundHalfEven (2 ^ 23 + r) (2 ^ 13) := by
  have hunity : single.unity = 2 ^ 149 := single.unity_eq
  have hden : single.unity * 2 ^ (e - 113) = 2 ^ 13 * 2 ^ (e + 23) := by
    have hexponent : 149 + (e - 113) = 13 + (e + 23) := by omega
    rw [hunity, ← Nat.pow_add, ← Nat.pow_add, hexponent]
  have hbinade : half.binade = 2 ^ 10 := half.binade_eq
  have hinfinity : half.infinityCode = 31 * 2 ^ 10 := rfl
  have hround : roundHalfEven (2 ^ 23 + r) (2 ^ 13) ≤ 2 ^ 11 :=
    roundHalfEven_le (by decide) (by omega)
  rw [halfCode, nearestCode_shifted (Nat.two_pow_pos _) (single_units_normal (by omega) hr)
    hden (.inr (by omega)) (by omega), hbinade, hinfinity]
  omega

theorem halfCode_subnormal (hlow : 102 ≤ e) (hhigh : e ≤ 112) (hr : r < 2 ^ 23) :
    halfCode (e * 2 ^ 23 + r) = roundHalfEven (2 ^ 23 + r) (2 ^ (126 - e)) := by
  have hunity : single.unity = 2 ^ 149 := single.unity_eq
  have hden : single.unity * 2 ^ 0 = 2 ^ (126 - e) * 2 ^ (e + 23) := by
    have hexponent : 126 - e + (e + 23) = 149 := by omega
    rw [Nat.pow_zero, Nat.mul_one, ← Nat.pow_add, hexponent, hunity]
  have hpow : 2 ^ 14 ≤ 2 ^ (126 - e) := Nat.pow_le_pow_right two_pos (by omega)
  have hquotient : (2 ^ 23 + r) / 2 ^ (126 - e) < 2 ^ 10 := by
    rw [Nat.div_lt_iff_lt_mul (Nat.two_pow_pos _)]
    omega
  have hbinade : half.binade = 2 ^ 10 := half.binade_eq
  have hinfinity : half.infinityCode = 31 * 2 ^ 10 := rfl
  have hround : roundHalfEven (2 ^ 23 + r) (2 ^ (126 - e)) ≤ 2 ^ 10 :=
    roundHalfEven_le (Nat.two_pow_pos _) (by omega)
  rw [halfCode, nearestCode_shifted (Nat.two_pow_pos _) (single_units_normal (by omega) hr)
    hden (.inl rfl) (by omega), hinfinity]
  omega

theorem halfCode_small (he : e < 102) (hr : r < 2 ^ 23) : halfCode (e * 2 ^ 23 + r) = 0 := by
  have hunits : single.units (e * 2 ^ 23 + r) < 2 ^ 124 := by
    have hlast : single.units (102 * 2 ^ 23) = 2 ^ 124 := by decide +kernel
    rw [← hlast]
    exact single.units_strictMono (by omega)
  have hunity : single.unity = 2 ^ 149 := single.unity_eq
  have hscale : half.unity = 2 ^ 24 := half.unity_eq
  have hnum : 2 * (single.units (e * 2 ^ 23 + r) * half.unity) < single.unity := by
    rw [hunity, hscale]
    omega
  have hround : roundHalfEven (single.units (e * 2 ^ 23 + r) * half.unity) single.unity = 0 := by
    apply roundHalfEven_eq_of_near <;> omega
  have hquotient : single.units (e * 2 ^ 23 + r) * half.unity / single.unity < 2 * half.binade := by
    rw [Nat.div_eq_of_lt (by omega)]
    decide
  rw [halfCode, nearestCode_shifted Nat.one_pos (Nat.mul_one _).symm rfl (.inl rfl)
    hquotient, hround, Nat.zero_mul, Nat.zero_add, Nat.zero_min]

theorem halfCode_large (he : 143 ≤ e) : halfCode (e * 2 ^ 23 + r) = half.infinityCode := by
  have hunits : 2 ^ 165 ≤ single.units (e * 2 ^ 23 + r) := by
    have hfirst : single.units (143 * 2 ^ 23) = 2 ^ 165 := by decide +kernel
    rw [← hfirst]
    exact single.units_strictMono.monotone (by omega)
  have hlast : half.units (half.infinityCode - 1) + half.units half.infinityCode < 2 ^ 41 := by
    decide +kernel
  have hunity : single.unity = 2 ^ 149 := single.unity_eq
  have hscale : half.unity = 2 ^ 24 := half.unity_eq
  have hle := nearestCode_le (f := half) (single.units (e * 2 ^ 23 + r) * half.unity) single.unity
  have hnot : ¬halfCode (e * 2 ^ 23 + r) < half.infinityCode := by
    rw [halfCode, nearestCode_lt_iff single.unity_pos, hunity, hscale]
    omega
  exact le_antisymm hle (not_lt.mp hnot)

end HalfCode

end Format

namespace Binary

variable {x : Single}

theorem code_convert_of_isFinite (hx : x.isFinite) :
    (x.convert .half).code = Format.halfCode x.code := by
  rw [convert_of_isFinite .half hx, code_nearest]
  rfl

theorem nanCode_lt (x : Single) :
    Format.half.infinityCode + max 1 (x.code % 2 ^ 23 / 2 ^ 13) < Format.half.signWeight := by
  change 31 * 2 ^ 10 + _ < 2 ^ 15
  omega

theorem convert_half_of_isNaN (hx : x.isNaN) : x.convert .half =
    ofCode .half x.isNegative (Format.half.infinityCode + max 1 (x.code % 2 ^ 23 / 2 ^ 13)) := by
  have hlow : Format.single.infinityCode < x.code := of_decide_eq_true hx
  have hhigh : x.code < 2 ^ 31 := x.code_lt
  have hinfinity : Format.single.infinityCode = 255 * 2 ^ 23 := rfl
  have hfraction : x.code - Format.single.infinityCode = x.code % 2 ^ 23 := by omega
  have hbinade : Format.single.binade = Format.half.binade * 2 ^ 13 := rfl
  rw [convert_of_isNaN .half hx, movedFraction, hfraction, hbinade, Nat.mul_comm,
    Nat.mul_div_mul_left _ _ Format.half.binade_pos]

theorem code_convert_of_isNaN (hx : x.isNaN) :
    (x.convert .half).code = Format.half.infinityCode + max 1 (x.code % 2 ^ 23 / 2 ^ 13) := by
  rw [convert_half_of_isNaN hx, code_ofCode (nanCode_lt x)]

theorem isNaN_convert_half (hx : x.isNaN) : (x.convert .half).isNaN := by
  rw [isNaN, code_convert_of_isNaN hx, decide_eq_true_eq]
  omega

theorem isNegative_convert_half (x : Single) : (x.convert .half).isNegative = x.isNegative := by
  by_cases hx : x.isNaN
  · rw [convert_half_of_isNaN hx, isNegative_ofCode (nanCode_lt x)]
  · exact isNegative_convert .half (by simpa using hx)

theorem fraction_convert_half (hx : x.isNaN) :
    (x.convert .half).toBits % 2 ^ 10 = max 1 (x.toBits % 2 ^ 23 / 2 ^ 13) := by
  have hfraction := fraction_of_isNaN (isNaN_convert_half hx)
  have hdvd : x.code % 2 ^ 23 = x.toBits % 2 ^ 23 := Nat.mod_mod_of_dvd _ (by decide)
  rw [code_convert_of_isNaN hx, Nat.add_sub_cancel_left, hdvd] at hfraction
  exact hfraction

theorem isQuiet_convert_half (hx : x.isNaN) : (x.convert .half).isQuiet = x.isQuiet := by
  have hfraction := fraction_convert_half hx
  rw [isQuiet, isQuiet, isNaN_convert_half hx, hx, Bool.true_and, Bool.true_and]
  change (x.convert .half).toBits.testBit 9 = x.toBits.testBit 22
  rw [Nat.testBit_eq_decide_div_mod_eq, Nat.testBit_eq_decide_div_mod_eq, decide_eq_decide]
  omega

/-- The code of a conversion by the exponent field, all ones for what is not finite. -/
theorem code_convert_half (x : Single) : (x.convert .half).code =
    if x.code / 2 ^ 23 = 255 then
      Format.half.infinityCode + if x.code % 2 ^ 23 = 0 then 0 else max 1 (x.code % 2 ^ 23 / 2 ^ 13)
    else Format.halfCode x.code := by
  have hlt : x.code < 2 ^ 31 := x.code_lt
  have hinfinity : Format.single.infinityCode = 255 * 2 ^ 23 := rfl
  obtain hx | hx | hx := x.nan_or_infinite_or_finite
  · have hlow : Format.single.infinityCode < x.code := of_decide_eq_true hx
    rw [if_pos (by omega), if_neg (by omega), code_convert_of_isNaN hx]
  · have hcode : x.code = Format.single.infinityCode := of_decide_eq_true hx
    rw [if_pos (by omega), if_pos (by omega), convert_of_code .half hcode, code_infinity,
      Nat.add_zero]
  · have hcode := (isFinite_iff x).mp hx
    rw [if_neg (by omega), code_convert_of_isFinite hx]

end Binary

end Conformance
