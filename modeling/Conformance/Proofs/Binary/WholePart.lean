import Mathlib
import Conformance.Proofs.Binary.Floor

namespace Conformance

namespace Format

variable {f : Format}

theorem scale_le_maxShift : f.scale ≤ f.maxShift := by
  cases f <;> decide

theorem represents_floor {n : Nat} (h : f.Represents n) : f.Represents (n / f.unity * f.unity) := by
  obtain ⟨s, t, hs, ht, rfl⟩ := h
  rw [f.unity_eq]
  obtain hle | hlt := Nat.le_total f.scale t
  · have hsplit : s * 2 ^ t = s * 2 ^ (t - f.scale) * 2 ^ f.scale := by
      rw [Nat.mul_assoc, ← Nat.pow_add, Nat.sub_add_cancel hle]
    refine ⟨s, t, hs, ht, ?_⟩
    rw [hsplit, Nat.mul_div_cancel _ (Nat.two_pow_pos _)]
  · have hsplit : 2 ^ f.scale = 2 ^ t * 2 ^ (f.scale - t) := by
      rw [← Nat.pow_add, Nat.add_sub_cancel' hlt]
    refine ⟨s / 2 ^ (f.scale - t), f.scale, (Nat.div_le_self _ _).trans_lt hs,
      scale_le_maxShift, ?_⟩
    rw [hsplit, Nat.mul_comm s, Nat.mul_div_mul_left _ _ (Nat.two_pow_pos t)]

/-- What lies between the least subnormal and one is rounded to such a number. -/
theorem units_nearestCode_bounds {num den : Nat} (hd : 0 < den) (hlow : den ≤ num)
    (hhigh : num ≤ f.unity * den) : f.nearestCode num den < f.infinityCode ∧
      0 < f.units (f.nearestCode num den) ∧ f.units (f.nearestCode num den) ≤ f.unity := by
  have hone : f.Represents 1 := by
    refine ⟨1, 0, ?_, Nat.zero_le _, rfl⟩
    have hb := f.binade_pos
    omega
  exact ⟨nearestCode_lt represents_unity hd hhigh,
    le_units_nearestCode hone hd (by rwa [Nat.one_mul]),
    units_nearestCode_le represents_unity hd hhigh⟩

end Format

namespace Binary

variable {f : Format} {x y : Binary f}

theorem toWord32_of_isNaN (h : x.isNaN) : x.toWord32 = 0 := by
  simp [toWord32, h]

theorem toWord32_of_isNegative (h : x.isNegative) : x.toWord32 = 0 := by
  simp [toWord32, h]

@[simp]
theorem toWord32_zero (negative : Bool) : (zero negative : Binary f).toWord32 = 0 := by
  cases negative <;> simp [toWord32, isInfinite, f.infinityCode_pos.ne]

theorem IsMagnitude.toNat_toWord32_of_isInfinite (h : x.IsMagnitude) (hi : x.isInfinite) :
    x.toWord32.toNat = 2 ^ 32 - 1 := by
  rw [toWord32, h.isNaN, h.isNegative, hi]
  rfl

theorem IsMagnitude.toNat_toWord32 (h : x.IsMagnitude) (hx : x.isFinite) :
    x.toWord32.toNat = min (f.units x.code / f.unity) (2 ^ 32 - 1) := by
  have hlt : min (f.units x.code / f.unity) (UInt32.size - 1) < 2 ^ 32 :=
    (Nat.min_le_right _ _).trans_lt (by decide)
  simp only [toWord32, h.isNaN, h.isNegative, isInfinite_of_isFinite hx, Bool.or_self,
    Bool.false_eq_true, if_false, UInt32.toNat_ofNat_of_lt' hlt]
  rfl

theorem toNat_toWord32 (hx : x.isFinite) :
    (x.toWord32.toNat : ℤ) = max 0 (min ⌊x.value⌋ (2 ^ 32 - 1)) := by
  cases hs : x.isNegative with
  | true =>
    have hle : x.value ≤ 0 := by
      rw [value_of_isNegative hs]
      exact neg_nonpos.mpr (by positivity)
    have hfloor : ⌊x.value⌋ ≤ 0 := by exact_mod_cast (Int.floor_le x.value).trans hle
    rw [toWord32_of_isNegative hs]
    change (0 : ℤ) = _
    omega
  | false =>
    have hm : x.IsMagnitude := ⟨isNaN_of_isFinite hx, hs⟩
    have hfloor : ⌊x.value⌋ = ((f.units x.code / f.unity : ℕ) : ℤ) := by
      rw [value_of_not_isNegative hs]
      exact Rat.floor_natCast_div_natCast _ _
    rw [hm.toNat_toWord32 hx, hfloor]
    generalize f.units x.code / f.unity = n
    omega

theorem IsMagnitude.toWord32_le (hx : x.IsMagnitude) (hy : y.IsMagnitude) (h : x.code ≤ y.code) :
    x.toWord32.toNat ≤ y.toWord32.toNat := by
  by_cases hyi : y.isInfinite
  · have hlt := x.toWord32.toNat_lt
    rw [hy.toNat_toWord32_of_isInfinite hyi]
    omega
  · have hyf := isFinite_of_class hy.isNaN (by simpa using hyi)
    have hxf := (isFinite_iff x).mpr (h.trans_lt ((isFinite_iff y).mp hyf))
    have hunits : f.units x.code ≤ f.units y.code := f.units_strictMono.monotone h
    rw [hx.toNat_toWord32 hxf, hy.toNat_toWord32 hyf]
    exact min_le_min_right _ (Nat.div_le_div_right hunits)

theorem toWord32_mono (hx : x.isNaN = false) (hy : y.isNaN = false) (h : x.position ≤ y.position) :
    x.toWord32.toNat ≤ y.toWord32.toNat := by
  cases hxs : x.isNegative with
  | true => simp [toWord32_of_isNegative hxs]
  | false =>
    have hxm : x.IsMagnitude := ⟨hx, hxs⟩
    rw [hxm.position] at h
    cases hys : y.isNegative with
    | false =>
      have hym : y.IsMagnitude := ⟨hy, hys⟩
      rw [hym.position] at h
      exact hxm.toWord32_le hym (by exact_mod_cast h)
    | true =>
      -- a negative zero has the place of the positive one
      have hzero : x.code = 0 := by
        rw [position, if_pos hys] at h
        omega
      have hx0 : x = zero false := hxm.eq_of_code isMagnitude_zero (by rw [hzero, code_zero])
      simp [hx0]

theorem clamp_of_isNaN (h : x.isNaN) (lo hi : Binary f) : x.clamp lo hi = x := by
  simp [clamp, lt, h]

theorem clamp_bounds (hx : x.isNaN = false) {lo hi : Binary f} (hlo : lo.isNaN = false)
    (hhi : hi.isNaN = false) (h : lo.position ≤ hi.position) :
    (x.clamp lo hi).isNaN = false ∧ lo.position ≤ (x.clamp lo hi).position ∧
      (x.clamp lo hi).position ≤ hi.position := by
  simp only [clamp, lt, hx, hlo, hhi, Bool.not_false, Bool.true_and, decide_eq_true_eq]
  split_ifs
  · exact ⟨hlo, le_refl _, h⟩
  · exact ⟨hhi, h, le_refl _⟩
  · exact ⟨hx, by omega, by omega⟩

/-- A datum between zero and a magnitude has the smaller one of the two words. -/
theorem toWord32_clamp (x : Binary f) {hi : Binary f} (h : hi.IsMagnitude) :
    (x.clamp (zero false) hi).toWord32.toNat = min x.toWord32.toNat hi.toWord32.toNat := by
  by_cases hn : x.isNaN
  · rw [clamp_of_isNaN hn, toWord32_of_isNaN hn]
    rfl
  have hn' : x.isNaN = false := by simpa using hn
  rw [clamp]
  split_ifs with hlow hhigh
  · have hneg : x.isNegative := by
      by_contra hs
      have hm : x.IsMagnitude := ⟨hn', by simpa using hs⟩
      rw [hm.lt_iff isMagnitude_zero, code_zero] at hlow
      omega
    simp [toWord32_of_isNegative hneg]
  · have hpos : hi.position ≤ x.position := by
      simp only [lt, Bool.and_eq_true, decide_eq_true_eq] at hhigh
      exact hhigh.2.le
    exact (Nat.min_eq_right (toWord32_mono h.isNaN hn' hpos)).symm
  · have hpos : x.position ≤ hi.position := by
      simpa [lt, hn', h.isNaN] using hhigh
    exact (Nat.min_eq_left (toWord32_mono hn' h.isNaN hpos)).symm

theorem isNaN_quieted (h : x.isNaN) : x.quieted.isNaN := by
  have hweight : f.signWeight = 2 ^ (f.width - 1) := by rw [Format.signWeight, Nat.one_shiftLeft]
  have hbits : x.quieted.toBits = x.toBits ||| f.quietWeight := by
    have hx := x.toBits_lt
    rw [f.two_signWeight] at hx
    have hq : f.quietWeight < 2 ^ f.width := by cases f <;> decide
    rw [quieted, toBits_ofBits]
    rw [f.two_signWeight]
    exact Nat.or_lt_two_pow hx hq
  have hle : x.code ≤ x.quieted.code := by
    rw [code, code, hbits, hweight, Nat.or_mod_two_pow]
    exact Nat.left_le_or
  have hlt : f.infinityCode < x.code := of_decide_eq_true h
  exact decide_eq_true (hlt.trans_le hle)

theorem floor_of_isFinite (hx : x.isFinite) : x.floor =
    nearest f x.isNegative (floorMagnitude f x.isNegative (f.units x.code) * f.unity) 1 := by
  simp [floor, isNaN_of_isFinite hx, isInfinite_of_isFinite hx]

theorem floor_minus_one (hx : x.isFinite) (hs : x.isNegative) (hpos : 0 < f.units x.code)
    (hle : f.units x.code ≤ f.unity) : x.floor = ofInt f (-1) := by
  have hfloor : floorMagnitude f true (f.units x.code) = 1 := by
    rw [floorMagnitude, if_pos rfl]
    apply Nat.div_eq_of_lt_le <;> omega
  rw [floor_of_isFinite hx, hs, hfloor]
  rfl

/-- Rounding down first does not change the word. -/
theorem toWord32_floor_eq (x : Binary f) : x.floor.toWord32 = x.toWord32 := by
  obtain hx | hx | hx := x.nan_or_infinite_or_finite
  · rw [floor, if_pos hx, toWord32_of_isNaN (isNaN_quieted hx), toWord32_of_isNaN hx]
  · simp [floor, isNaN_of_isInfinite hx, hx]
  · rw [floor_of_isFinite hx]
    cases hs : x.isNegative with
    | true => rw [toWord32_of_isNegative hs, toWord32_of_isNegative (isNegative_nearest ..)]
    | false =>
      have hm : x.IsMagnitude := ⟨isNaN_of_isFinite hx, hs⟩
      have hfits := Format.represents_floor (Format.represents_units ((isFinite_iff x).mp hx))
      have hfinite : (nearest f false (f.units x.code / f.unity * f.unity) 1).isFinite := by
        rw [isFinite_iff, code_nearest]
        exact Format.nearestCode_lt hfits Nat.one_pos (by omega)
      have hunits := Format.units_nearestCode hfits Nat.one_pos
      rw [Nat.mul_one] at hunits
      apply UInt32.toNat_inj.mp
      change (nearest f false (f.units x.code / f.unity * f.unity) 1).toWord32.toNat = _
      rw [(isMagnitude_nearest _ _).toNat_toWord32 hfinite, hm.toNat_toWord32 hx,
        code_nearest, hunits, Nat.mul_div_cancel _ f.unity_pos]

@[simp]
theorem signedUnits_zero (negative : Bool) : (zero negative : Binary f).signedUnits = 0 := by
  simp [signedUnits]

theorem IsMagnitude.signedUnits (hx : x.IsMagnitude) : x.signedUnits = f.units x.code := by
  simp [Binary.signedUnits, hx.isNegative]

theorem isNaN_sub_of_isNaN (hx : x.isNaN = false) (hy : y.isNaN) : (x - y).isNaN := by
  have hsub : x - y = y.quieted := by
    change sub x y = _
    simp [sub, propagate, hx, hy]
  rw [hsub]
  exact isNaN_quieted hy

theorem signedUnits_neg (x : Binary f) : x.neg.signedUnits = -x.signedUnits := by
  have hs : x.neg.isNegative = !x.isNegative := isNegative_ofCode x.code_lt _
  rw [signedUnits, signedUnits, code_neg, hs]
  cases x.isNegative <;> simp

theorem sub_of_isFinite (hx : x.isFinite) (hy : y.isFinite) : x - y = addFinite x y.neg := by
  have hneg : y.neg.isFinite := by simpa using hy
  have hadd : x - y = addNumber x y.neg := by
    change sub x y = _
    simp [sub, isNaN_of_isFinite hx, isNaN_of_isFinite hy]
  simp [hadd, addNumber, isInfinite_of_isFinite hx, isInfinite_of_isFinite hneg]

theorem sub_cases (hx : x.isFinite) (hy : y.isFinite) :
    let s := x.signedUnits - y.signedUnits
    (s = 0 ∧ ∃ negative, x - y = zero negative) ∨
      (s ≠ 0 ∧ x - y = nearest f (decide (s < 0)) s.natAbs 1) := by
  intro s
  have hs : x.signedUnits + y.neg.signedUnits = s := by rw [signedUnits_neg, ← Int.sub_eq_add_neg]
  rw [sub_of_isFinite hx hy, addFinite, hs]
  by_cases h0 : s = 0
  · exact .inl ⟨h0, _, if_pos h0⟩
  · exact .inr ⟨h0, if_neg h0⟩

/-- A positive difference of finite data is the magnitude it is rounded to. -/
theorem IsMagnitude.sub_eq {z : Binary f} (hz : z.IsMagnitude) (hx : x.isFinite) (hy : y.isFinite)
    {n : Nat} (hn : 0 < n) (hs : x.signedUnits - y.signedUnits = n)
    (hcode : f.nearestCode n 1 = z.code) :
    x - y = z := by
  obtain ⟨hzero, -⟩ | ⟨-, heq⟩ := sub_cases hx hy
  · omega
  · rw [heq, hs, Int.natAbs_natCast, decide_eq_false (by omega), nearest, hcode, ← hz.isNegative,
      ofCode_code]

theorem toWord32_sub_le (hx : x.IsMagnitude) (hxf : x.isFinite) (hy : y.isFinite)
    (h : 0 ≤ y.signedUnits) : (x - y).toWord32.toNat ≤ x.toWord32.toNat := by
  have hxu := hx.signedUnits
  obtain ⟨-, negative, heq⟩ | ⟨h0, heq⟩ := sub_cases hxf hy
  · simp [heq]
  · rw [heq]
    by_cases hneg : x.signedUnits - y.signedUnits < 0
    · simp [hneg, toWord32_of_isNegative]
    · have hle : (x.signedUnits - y.signedUnits).natAbs ≤ f.units x.code := by omega
      have hcode := Format.nearestCode_mono (f := f) Nat.one_pos hle
      have hself := Format.nearestCode_units ((isFinite_iff x).mp hxf) Nat.one_pos
      rw [Nat.mul_one] at hself
      rw [decide_eq_false hneg]
      exact (isMagnitude_nearest _ _).toWord32_le hx (by rw [code_nearest]; omega)

end Binary

end Conformance
