import Mathlib
import Conformance.Binary.Narrowing
import Conformance.Proofs.Binary.HalfFields
import Conformance.Proofs.Word

namespace Conformance

namespace Narrowing

open Format (halfCode)

theorem toNat_word (x : Single) : x.word.toNat = (if x.isNegative then 2 ^ 31 else 0) + x.code := by
  have hlt : x.toBits < 2 ^ 32 := x.toBits_lt
  have h := x.toBits_eq
  change x.toBits = if x.isNegative then 2 ^ 31 + x.code else x.code at h
  rw [Binary.word, BitVec.toNat_ofNat, Nat.mod_eq_of_lt hlt, h]
  split_ifs <;> omega

theorem sign_returns (x : Single) :
    Returns (sign x.word) fun s => s.toNat = if x.isNegative then 2 ^ 15 else 0 := by
  refine (Word.shiftRight_returns (by decide)).bind fun top htop => .ok ?_
  have hcode : x.code < 2 ^ 31 := x.code_lt
  have hmask : signMask.toNat = 2 ^ 15 := rfl
  have hbits := toNat_word x
  rw [BitVec.toNat_and, BitVec.toNat_setWidth, hmask, Nat.and_two_pow,
    Nat.testBit_eq_decide_div_mod_eq, htop, hbits]
  split_ifs
  · rw [decide_eq_true (by omega)]
    rfl
  · rw [decide_eq_false (by omega)]
    rfl

theorem exponent_returns (x : Single) :
    Returns (exponent x.word) fun e => e.toNat = x.code / 2 ^ 23 := by
  refine (Word.shiftRight_returns (by decide)).bind fun top htop => .ok ?_
  have hcode : x.code < 2 ^ 31 := x.code_lt
  have hbits := toNat_word x
  have hmask : (top &&& 0xff).toNat = top.toNat % 2 ^ 8 := Word.toNat_and_mask rfl
  rw [hmask, htop, hbits]
  split_ifs <;> omega

theorem toNat_fraction (x : Single) : (fraction x.word).toNat = x.code % 2 ^ 23 := by
  have hbits := toNat_word x
  have hmask : (fraction x.word).toNat = x.word.toNat % 2 ^ 23 := Word.toNat_and_mask rfl
  rw [hmask, hbits]
  split_ifs <;> omega

theorem add_raises {cut halfway : BitVec 32} {n k : Nat} (hcut : cut.toNat = n % 2 ^ (k + 1))
    (hhalfway : halfway.toNat = 2 ^ k) {odd : Bool}
    (hodd : odd = decide (n / 2 ^ (k + 1) % 2 = 1)) :
    n / 2 ^ (k + 1) + (raises cut halfway odd).toNat = roundHalfEven n (2 ^ (k + 1)) := by
  have hpow : 2 ^ (k + 1) = 2 * 2 ^ k := Nat.pow_succ'
  have hraises : raises cut halfway odd ↔ 2 ^ (k + 1) < 2 * (n % 2 ^ (k + 1)) ∨
      2 * (n % 2 ^ (k + 1)) = 2 ^ (k + 1) ∧ n / 2 ^ (k + 1) % 2 = 1 := by
    rw [raises, Bool.or_eq_true, Bool.and_eq_true, beq_iff_eq, BitVec.ult, decide_eq_true_eq, hodd,
      decide_eq_true_eq, ← BitVec.toNat_inj, hcut, hhalfway, hpow]
    omega
  unfold roundHalfEven
  dsimp only
  split_ifs with h
  · rw [hraises.mpr h]
    rfl
  · rw [Bool.eq_false_iff.mpr (mt hraises.mp h)]
    rfl

variable {s : BitVec 16} {r : BitVec 32}

theorem special_returns (hs : 2 ^ 15 ∣ s.toNat) (hr : r.toNat < 2 ^ 23) :
    Returns (special s r) fun h => h.toNat = s.toNat +
      (Format.half.infinityCode + if r.toNat = 0 then 0 else max 1 (r.toNat / 2 ^ 13)) := by
  have hinfinity : (s ||| exponentMask).toNat = s.toNat + Format.half.infinityCode :=
    Word.toNat_or_of_dvd hs (by decide)
  by_cases h0 : r = 0
  · rw [special, if_pos h0, h0]
    exact .ok hinfinity
  · have hne : r.toNat ≠ 0 := fun h => h0 (BitVec.toNat_inj.mp h)
    rw [special, if_neg h0, if_neg hne]
    refine (Word.shiftRight_returns (by decide)).bind fun top htop => .ok ?_
    have htop' : (top.setWidth 16).toNat = r.toNat / 2 ^ 13 := by
      rw [BitVec.toNat_setWidth, htop]
      omega
    have hpayload : (if top.setWidth 16 = 0 then 1 else top.setWidth 16).toNat =
        max 1 (r.toNat / 2 ^ 13) := by
      split_ifs with hzero
      · rw [← htop', hzero]
        rfl
      · have hpos : (top.setWidth 16).toNat ≠ 0 := fun h => hzero (BitVec.toNat_inj.mp h)
        omega
    have hdvd : 2 ^ 10 ∣ (s ||| exponentMask).toNat := by
      have hfields : Format.half.infinityCode = 31 * 2 ^ 10 := rfl
      omega
    rw [Word.toNat_or_of_dvd hdvd (by omega), hinfinity, hpayload]
    omega

theorem below_returns {n : Nat} (hn : n < 32) : Returns (below n) fun m => m.toNat = 2 ^ n - 1 := by
  have hone : (1 : BitVec 32).toNat = 1 := rfl
  have hpow : 2 ^ n < 2 ^ 32 := Nat.pow_lt_pow_right Nat.one_lt_two hn
  refine (Word.shiftLeft_returns hn (by rwa [hone, Nat.one_mul])).bind fun unit hunit => ?_
  rw [hone, Nat.one_mul] at hunit
  rw [← hunit, ← hone]
  exact Word.minus_returns (by rw [hone, hunit]; exact Nat.one_le_two_pow)

theorem halfway_returns {place : BitVec 32} {k : Nat} (hk : place.toNat = k + 1)
    (hlt : k + 1 < 32) :
    Returns (halfway place) fun b => b.toNat = 2 ^ k := by
  have hone : (1 : BitVec 32).toNat = 1 := rfl
  have hpow : 2 ^ k < 2 ^ 32 := Nat.pow_lt_pow_right Nat.one_lt_two (by omega)
  refine (Word.minus_returns (by omega)).bind fun n hn => ?_
  have hn : n.toNat = k := by omega
  rw [hn, ← Nat.one_mul (2 ^ k), ← hone]
  exact Word.shiftLeft_returns (by omega) (by rwa [hone, Nat.one_mul])

theorem rounded_returns {significand place : BitVec 32} {k : Nat} (hk : place.toNat = k + 1)
    (hlt : k + 1 < 32) : Returns (rounded significand place) fun q =>
      q.toNat = roundHalfEven significand.toNat (2 ^ (k + 1)) := by
  refine (Word.shiftRight_returns (by omega)).bind fun quotient hquotient => ?_
  refine (below_returns (by omega)).bind fun mask hmask => ?_
  refine (halfway_returns hk hlt).bind fun half hhalf => ?_
  rw [hk] at hquotient hmask
  set up := raises (significand &&& mask) half (quotient &&& 1 == 1)
  have hbit : ((BitVec.ofBool up).setWidth 32).toNat = up.toNat := Word.toNat_bit 32 (by decide) up
  have hround : quotient.toNat + up.toNat = roundHalfEven significand.toNat (2 ^ (k + 1)) := by
    rw [hquotient]
    refine add_raises (Word.toNat_and_mask hmask) hhalf ?_
    rw [Word.isOdd_eq (by decide), hquotient]
  have hfits : roundHalfEven significand.toNat (2 ^ (k + 1)) ≤ 2 ^ 31 := by
    have hpow : 2 ^ 1 ≤ 2 ^ (k + 1) := Nat.pow_le_pow_right two_pos (by omega)
    exact roundHalfEven_le (Nat.two_pow_pos _) (by omega)
  rw [← hround, ← hbit]
  exact Word.plus_returns (by rw [hbit, hround]; omega)

theorem subnormal_returns (hs : 2 ^ 15 ∣ s.toNat) (hr : r.toNat < 2 ^ 23) {exponent : BitVec 32}
    {e : Nat} (he : exponent.toInt = e - 112) (hle : e ≤ 112) :
    Returns (subnormal s r exponent) fun h =>
      h.toNat = s.toNat + halfCode (e * 2 ^ 23 + r.toNat) := by
  have h14 : (14 : BitVec 32).toInt = 14 := rfl
  refine (Word.minus_signed_returns (by omega) (by omega)).bind fun shift hshift => ?_
  have hshift : shift.toNat = 126 - e := by
    rw [BitVec.toInt_eq_toNat_cond] at hshift
    split_ifs at hshift <;> omega
  have h24 : (24 : BitVec 32).ult shift ↔ e < 102 := by
    have h : (24 : BitVec 32).toNat = 24 := rfl
    rw [BitVec.ult, decide_eq_true_eq, h]
    omega
  by_cases hlarge : (24 : BitVec 32).ult shift
  · rw [if_pos hlarge, Format.halfCode_small (h24.mp hlarge) hr]
    exact .ok rfl
  · rw [if_neg hlarge]
    rw [h24, not_lt] at hlarge
    have hsignificand : (r ||| 0x800000).toNat = 2 ^ 23 + r.toNat := by
      rw [BitVec.or_comm]
      exact Word.toNat_or_of_dvd (by decide) hr
    have hplace : shift.toNat = 125 - e + 1 := by omega
    refine (rounded_returns hplace (by omega)).bind fun code hcode => .ok ?_
    rw [hsignificand, ← hplace, hshift, ← Format.halfCode_subnormal hlarge hle hr] at hcode
    have hfits : halfCode (e * 2 ^ 23 + r.toNat) ≤ 31 * 2 ^ 10 := Format.nearestCode_le _ _
    have hcode' : (code.setWidth 16).toNat = code.toNat := by
      rw [BitVec.toNat_setWidth]
      omega
    rw [Word.toNat_or_of_dvd hs (by omega), hcode', hcode]

theorem normal_returns (hs : 2 ^ 15 ∣ s.toNat) (hr : r.toNat < 2 ^ 23) {exponent : BitVec 32}
    {e : Nat} (he : exponent.toInt = e - 112) (hlow : 113 ≤ e) (hhigh : e ≤ 142) :
    Returns (normal s r exponent) fun h => h.toNat = s.toNat + halfCode (e * 2 ^ 23 + r.toNat) := by
  have hexponent : (exponent.setWidth 16).toNat = e - 112 := by
    rw [BitVec.toInt_eq_toNat_cond] at he
    rw [BitVec.toNat_setWidth]
    split_ifs at he <;> omega
  rw [Format.halfCode_normal hlow hhigh hr]
  refine (Word.shiftLeft_returns (by decide) (by omega)).bind fun field hfield => ?_
  refine (Word.shiftRight_returns (by decide)).bind fun top htop => ?_
  have htop' : (top.setWidth 16).toNat = r.toNat / 2 ^ 13 := by
    rw [BitVec.toNat_setWidth, htop]
    omega
  have hkept : (s ||| field ||| top.setWidth 16).toNat =
      s.toNat + (e - 113) * 2 ^ 10 + (2 ^ 23 + r.toNat) / 2 ^ 13 := by
    have hupper : (s ||| field).toNat = s.toNat + field.toNat := Word.toNat_or_of_dvd hs (by omega)
    have hdvd : 2 ^ 10 ∣ (s ||| field).toNat := by omega
    rw [Word.toNat_or_of_dvd hdvd (by omega), hupper]
    omega
  set kept := s ||| field ||| top.setWidth 16
  set up := raises (r &&& 0x1fff) 0x1000 (kept &&& 1 == 1)
  have hbit : ((BitVec.ofBool up).setWidth 16).toNat = up.toNat := Word.toNat_bit 16 (by decide) up
  have hround : (2 ^ 23 + r.toNat) / 2 ^ 13 + up.toNat =
      roundHalfEven (2 ^ 23 + r.toNat) (2 ^ 13) := by
    have hcut : (r &&& 0x1fff).toNat = r.toNat % 2 ^ 13 := Word.toNat_and_mask rfl
    refine add_raises (by rw [hcut]; omega) rfl ?_
    rw [Word.isOdd_eq (by decide), hkept, decide_eq_decide]
    omega
  have hlt := s.isLt
  have hsmall : roundHalfEven (2 ^ 23 + r.toNat) (2 ^ 13) ≤ 2 ^ 11 :=
    roundHalfEven_le (Nat.two_pow_pos _) (by omega)
  obtain ⟨h, heq, hnat⟩ :=
    Word.plus_returns (x := kept) (y := (BitVec.ofBool up).setWidth 16) (by omega)
  exact ⟨h, heq, by omega⟩

theorem narrowed_returns (x : Single) : Returns (narrowed x.word) fun h =>
    h.toNat = (if x.isNegative then 2 ^ 15 else 0) + (x.convert .half).code := by
  refine (sign_returns x).bind fun s hs => (exponent_returns x).bind fun e he => ?_
  have hdvd : 2 ^ 15 ∣ s.toNat := by
    rw [hs]
    split_ifs
    exacts [dvd_refl _, dvd_zero _]
  have hr := toNat_fraction x
  have hlt : (fraction x.word).toNat < 2 ^ 23 := by
    rw [hr]
    exact Nat.mod_lt _ (by decide)
  have hcode : x.code = e.toNat * 2 ^ 23 + (fraction x.word).toNat := by omega
  have hle : x.code < 2 ^ 31 := x.code_lt
  rw [← hs, Binary.code_convert_half, ← he, ← hr]
  by_cases h255 : e = 0xff
  · rw [if_pos h255, if_pos (by rw [h255]; rfl)]
    exact special_returns hdvd hlt
  · have hne : e.toNat ≠ 255 := fun h => h255 (BitVec.toNat_inj.mp h)
    rw [if_neg h255, if_neg hne, hcode]
    have heInt : e.toInt = e.toNat := BitVec.toInt_eq_toNat_of_lt (by omega)
    have h127 : (127 : BitVec 32).toInt = 127 := rfl
    have h15 : (15 : BitVec 32).toInt = 15 := rfl
    have h31 : (0x1f : BitVec 32).toInt = 31 := rfl
    have h0 : (0 : BitVec 32).toInt = 0 := rfl
    refine (Word.minus_signed_returns (by omega) (by omega)).bind fun unbiased hunbiased => ?_
    refine (Word.plus_signed_returns (by omega) (by omega)).bind fun rebiased hrebiased => ?_
    have hexponent : rebiased.toInt = e.toNat - 112 := by omega
    by_cases hhigh : (0x1f : BitVec 32).sle rebiased
    · rw [if_pos hhigh]
      rw [BitVec.sle, decide_eq_true_eq, h31] at hhigh
      rw [Format.halfCode_large (by omega)]
      exact .ok (Word.toNat_or_of_dvd hdvd (by decide))
    · rw [if_neg hhigh]
      rw [BitVec.sle, decide_eq_true_eq, h31] at hhigh
      by_cases hlow : rebiased.sle 0
      · rw [if_pos hlow]
        rw [BitVec.sle, decide_eq_true_eq, h0] at hlow
        exact subnormal_returns hdvd hlt hexponent (by omega)
      · rw [if_neg hlow]
        rw [BitVec.sle, decide_eq_true_eq, h0] at hlow
        exact normal_returns hdvd hlt hexponent (by omega) (by omega)

end Narrowing

namespace Binary

theorem narrow_eq (x : Single) : x.narrow = .ok (x.convert .half) := by
  obtain ⟨h, heq, hnat⟩ := Narrowing.narrowed_returns x
  have hbits : (x.convert .half).toBits = h.toNat := by
    have hweight : Format.half.signWeight = 2 ^ 15 := rfl
    rw [toBits_eq, isNegative_convert_half, hnat, hweight]
    split_ifs <;> omega
  have hhalf : ofBits .half h.toNat = x.convert .half := by
    apply ext_toBits
    rw [← hbits, toBits_ofBits (x.convert .half).toBits_lt]
  rw [narrow, heq, ← hhalf]
  rfl

/-- Narrowing gives the half nearest to a single and does not overflow on the way. -/
theorem narrow_nearest (x : Single) :
    ∃ h, x.narrow = .ok h ∧ h = x.convert .half ∧ h.isNegative = x.isNegative ∧
      (x.isFinite → |x.value| < 65520 → h.IsNearest x.value) ∧
      (x.isFinite → 65520 ≤ |x.value| → h.isInfinite) ∧
      (x.isInfinite → h.isInfinite) ∧
      (x.isNaN → h.isNaN ∧ h.isQuiet = x.isQuiet ∧
        let top := x.toBits % 2 ^ 23 / 2 ^ 13
        h.toBits % 2 ^ 10 = if top = 0 then 1 else top) := by
  refine ⟨_, narrow_eq x, rfl, isNegative_convert_half x, ?_, ?_, ?_, ?_⟩
  · intro hx hlt
    exact isNearest_convert hx (by rwa [Format.reach_half])
  · intro hx hge
    have hnot : ¬(x.convert .half).isFinite := by
      rw [isFinite_convert_iff hx, Format.reach_half]
      exact not_lt.mpr hge
    have hnan : (x.convert .half).isNaN = false := by
      rw [convert_of_isFinite .half hx, isNaN_nearest]
    obtain hn | hi | hf := (x.convert .half).nan_or_infinite_or_finite
    · exact absurd hn (by simp [hnan])
    · exact hi
    · exact absurd hf hnot
  · intro hx
    rw [convert_of_code .half (of_decide_eq_true hx), isInfinite, code_infinity]
    rfl
  · intro hx
    refine ⟨isNaN_convert_half hx, isQuiet_convert_half hx, ?_⟩
    rw [fraction_convert_half hx]
    dsimp only
    split_ifs <;> omega

theorem narrow_nearest_tie :
    let tie : Single := .ofBits .single 0x3f803000
    let nan : Single := .ofBits .single 0xff800001
    tie.isFinite ∧ |tie.value| < 65520 ∧ nan.isNaN ∧
      (∃ h, tie.narrow = .ok h ∧ h.toBits = 0x3c02 ∧ h.IsNearest tie.value) ∧
      ∃ h, nan.narrow = .ok h ∧ h.isNegative ∧ h.isNaN ∧ h.isQuiet = false ∧
        h.toBits % 2 ^ 10 = 1 := by
  intro tie nan
  have htie : tie.isFinite := by decide +kernel
  have hnan : nan.isNaN := by decide +kernel
  have hunits : tie.signedUnits * 2048 = 2051 * Format.single.unity := by decide +kernel
  have hu : (Format.single.unity : ℚ) ≠ 0 := by exact_mod_cast Format.single.unity_pos.ne'
  have hvalue : tie.value = 2051 / 2048 := by
    rw [value, div_eq_div_iff hu (by norm_num)]
    exact_mod_cast hunits
  have hlt : |tie.value| < 65520 := by
    rw [hvalue, abs_of_pos (by norm_num)]
    norm_num
  obtain ⟨h, hok, hconvert, -, hnearest, -⟩ := narrow_nearest tie
  have hbits : h.toBits = 0x3c02 := by
    rw [hconvert]
    decide +kernel
  obtain ⟨k, kok, -, ksign, -, -, -, kfields⟩ := narrow_nearest nan
  obtain ⟨knan, kquiet, kfraction⟩ := kfields hnan
  have hnegative : nan.isNegative := by decide +kernel
  have hquiet : nan.isQuiet = false := by decide +kernel
  have htop : nan.toBits % 2 ^ 23 / 2 ^ 13 = 0 := by decide +kernel
  exact ⟨htie, hlt, hnan, ⟨h, hok, hbits, hnearest htie hlt⟩,
    k, kok, ksign ▸ hnegative, knan, kquiet.trans hquiet, kfraction.trans (if_pos htop)⟩

end Binary

end Conformance
