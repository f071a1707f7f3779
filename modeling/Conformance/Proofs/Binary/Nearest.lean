import Mathlib
import Conformance.Proofs.Binary.Floor

namespace Conformance

section RoundHalfEven

variable {num den : Nat}

theorem even_of_halfway (num : Nat) (hd : 0 < den)
    (h : 2 * (roundHalfEven num den * den) = 2 * num + den ∨
    2 * num = 2 * (roundHalfEven num den * den) + den) : roundHalfEven num den % 2 = 0 := by
  have hq := Nat.div_add_mod num den
  have hr := Nat.mod_lt num hd
  have hm : den * (num / den) = num / den * den := Nat.mul_comm _ _
  unfold roundHalfEven at h ⊢
  dsimp only at h ⊢
  split_ifs at h ⊢ with hup
  · rw [Nat.add_mul] at h
    omega
  · omega

/-- No other whole number is nearer to the quotient, and one that is as near leaves the even
choice. -/
theorem roundHalfEven_nearest (hd : 0 < den) {n : Nat} (hn : n ≠ roundHalfEven num den) :
    ((roundHalfEven num den * den : ℕ) - num : ℤ).natAbs ≤ ((n * den : ℕ) - num : ℤ).natAbs ∧
      (((n * den : ℕ) - num : ℤ).natAbs = ((roundHalfEven num den * den : ℕ) - num : ℤ).natAbs →
        roundHalfEven num den % 2 = 0) := by
  obtain ⟨hle, hge⟩ := roundHalfEven_error num hd
  have heven := even_of_halfway num hd
  set r := roundHalfEven num den
  -- another whole number is at least a unit away
  have hunit : n * den + den ≤ r * den ∨ r * den + den ≤ n * den := by
    rw [← Nat.succ_mul, ← Nat.succ_mul]
    obtain hlt | hgt := Nat.lt_or_gt_of_ne hn
    · exact .inl (Nat.mul_le_mul_right _ hlt)
    · exact .inr (Nat.mul_le_mul_right _ hgt)
  refine ⟨by omega, fun htie => heven ?_⟩
  omega

theorem roundHalfEven_lt_iff (num : Nat) (hd : 0 < den) {n : Nat} :
    roundHalfEven num den < 2 * n ↔ 2 * num + den < 2 * (2 * n * den) := by
  obtain ⟨hle, hge⟩ := roundHalfEven_error num hd
  have heven := even_of_halfway num hd
  set r := roundHalfEven num den
  constructor
  · intro hlt
    have hmul : (r + 1) * den ≤ 2 * n * den := Nat.mul_le_mul_right _ hlt
    rw [Nat.succ_mul] at hmul
    by_contra hnot
    -- otherwise the quotient is halfway between the odd number before `2 * n` and `2 * n`
    have hlast : (r + 1) * den = 2 * n * den := by
      rw [Nat.succ_mul]
      omega
    have hr : r + 1 = 2 * n := Nat.eq_of_mul_eq_mul_right hd hlast
    have hodd := heven (by omega)
    omega
  · intro hlt
    by_contra hnot
    have hmul : 2 * n * den ≤ r * den := Nat.mul_le_mul_right _ (Nat.not_lt.mp hnot)
    omega

end RoundHalfEven

namespace Format

variable {f : Format}

theorem binade_even : f.binade % 2 = 0 := by
  cases f <;> rfl

theorem pow_dvd_of_represents {n e : Nat} (h : f.Represents n) (hn : f.binade * 2 ^ e ≤ n) :
    2 ^ e ∣ n := by
  obtain ⟨s, t, hs, -, rfl⟩ := h
  have hle : e ≤ t := by
    by_contra hlt
    have hpow : 2 ^ (t + 1) ≤ 2 ^ e := Nat.pow_le_pow_right (by omega) (by omega)
    have hmul := Nat.mul_le_mul_left f.binade hpow
    have hs' : s * 2 ^ t < 2 * f.binade * 2 ^ t :=
      Nat.mul_lt_mul_of_pos_right hs (Nat.two_pow_pos t)
    have hsplit : f.binade * 2 ^ (t + 1) = 2 * f.binade * 2 ^ t := by ring
    omega
  exact (Nat.pow_dvd_pow 2 hle).mul_left s

/-- Among the finite codes none is worth a number nearer to the quotient. -/
theorem nearestCode_nearest {num den c : Nat} (hd : 0 < den)
    (hfinite : f.nearestCode num den < f.infinityCode) (hc : c < f.infinityCode)
    (hne : c ≠ f.nearestCode num den) :
    ((f.units (f.nearestCode num den) * den : ℕ) - num : ℤ).natAbs ≤
        ((f.units c * den : ℕ) - num : ℤ).natAbs ∧
      (((f.units c * den : ℕ) - num : ℤ).natAbs =
          ((f.units (f.nearestCode num den) * den : ℕ) - num : ℤ).natAbs →
        f.nearestCode num den % 2 = 0) := by
  have hcode : f.nearestCode num den = f.unboundedCode num den := by
    rw [nearestCode_eq] at hfinite ⊢
    omega
  rw [hcode] at hne ⊢
  have hvalue := units_unboundedCode (f := f) num hd
  have hunits : f.units c ≠ f.units (f.unboundedCode num den) := f.units_strictMono.injective.ne hne
  have hparity : f.unboundedCode num den % 2 =
      roundHalfEven num (den * 2 ^ f.excess (num / den)) % 2 := by
    rw [unboundedCode, Nat.shiftLeft_eq, Nat.add_mod, Nat.mul_mod, binade_even]
    simp
  rw [hvalue] at hunits ⊢
  rw [hparity]
  set e := f.excess (num / den) with he
  have hde : 0 < den * 2 ^ e := Nat.mul_pos hd (Nat.two_pow_pos e)
  have hscale (n : Nat) : n * 2 ^ e * den = n * (den * 2 ^ e) := by ring
  rw [hscale]
  by_cases hstep : 2 ^ e ∣ f.units c
  · obtain ⟨n, hn⟩ := exists_eq_mul_left_of_dvd hstep
    rw [hn] at hunits ⊢
    rw [hscale]
    exact roundHalfEven_nearest hde fun h => hunits (by rw [h])
  · -- the number lies below the binade of the quotient, whose first number is nearer
    have hpos : 0 < e := by
      by_contra h0
      exact hstep (by simp [Nat.eq_zero_of_not_pos h0])
    have hlow : f.units c < f.binade * 2 ^ e := by
      by_contra hhigh
      exact hstep (pow_dvd_of_represents (represents_units hc) (Nat.not_lt.mp hhigh))
    have hfirst : f.binade * (den * 2 ^ e) ≤ num := by
      have h := (Nat.le_div_iff_mul_le hd).mp (le_of_excess_pos (he ▸ hpos))
      rwa [← he, hscale] at h
    have hbelow : f.units c * den < f.binade * (den * 2 ^ e) := by
      rw [← hscale]
      exact Nat.mul_lt_mul_of_pos_right hlow hd
    have hnear : ((roundHalfEven num (den * 2 ^ e) * (den * 2 ^ e) : ℕ) - num : ℤ).natAbs ≤
        ((f.binade * (den * 2 ^ e) : ℕ) - num : ℤ).natAbs := by
      by_cases hb : f.binade = roundHalfEven num (den * 2 ^ e)
      · rw [← hb]
      · exact (roundHalfEven_nearest hde hb).1
    constructor
    · omega
    · omega

theorem nearestCode_sub {c d e : Nat} (hc : c < f.infinityCode)
    (hlow : f.binade * 2 ^ e < f.units c) (hd : 2 * d < 2 ^ e) :
    f.nearestCode (f.units c - d) 1 = c := by
  by_contra hne
  have hself := nearestCode_units hc Nat.one_pos
  rw [Nat.mul_one] at hself
  have hfinite : f.nearestCode (f.units c - d) 1 < f.infinityCode := by
    refine (nearestCode_mono Nat.one_pos ?_).trans_lt (hself.trans_lt hc)
    omega
  obtain ⟨hnear, -⟩ := nearestCode_nearest Nat.one_pos hfinite hc (Ne.symm hne)
  have hunits := f.units_strictMono.injective.ne hne
  have hmultiple (n m : Nat) (h : 2 ^ e ∣ n) (hm : 2 ^ e ∣ m) (hlt : n < m) : n + 2 ^ e ≤ m := by
    have hdvd := Nat.le_of_dvd (by omega) (Nat.dvd_sub hm h)
    omega
  have hstep := pow_dvd_of_represents (represents_units hc) hlow.le
  have hfirst := hmultiple _ _ (Dvd.intro_left _ rfl) hstep hlow
  -- the number would be a whole step away, where half a step is allowed
  have hstep' : 2 ^ e ∣ f.units (f.nearestCode (f.units c - d) 1) := by
    apply pow_dvd_of_represents (represents_units hfinite)
    omega
  obtain hlt | hgt := Nat.lt_or_gt_of_ne hunits
  · have hgap := hmultiple _ _ hstep' hstep hlt
    omega
  · have hgap := hmultiple _ _ hstep hstep' hgt
    omega

theorem units_last_add_first :
    f.units (f.infinityCode - 1) + f.units f.infinityCode =
      (4 * f.binade - 1) * 2 ^ f.maxShift := by
  have hb := f.binade_pos
  have hlast : f.infinityCode - 1 = (f.maxShift + 1) * f.binade + (f.binade - 1) := by
    rw [f.infinityCode_eq, Nat.succ_mul (f.maxShift + 1)]
    omega
  have hfirst : f.infinityCode = (f.maxShift + 1 + 1) * f.binade + 0 := f.infinityCode_eq
  have hfour : 4 * f.binade - 1 = f.binade + (f.binade - 1) + 2 * f.binade := by omega
  rw [hlast, hfirst, f.units_binade _ (by omega), f.units_binade _ hb, hfour]
  ring

/-- Below the last binade there is room for a carry. -/
theorem unboundedCode_lt {num den : Nat} (hd : 0 < den) (h : f.excess (num / den) < f.maxShift) :
    f.unboundedCode num den < f.infinityCode := by
  have hb := f.binade_pos
  have hround := (significand_bounds (f := f) num hd).1
  have hmul : (f.excess (num / den) + 3) * f.binade ≤ (f.maxShift + 2) * f.binade :=
    Nat.mul_le_mul_right _ (by omega)
  rw [Nat.add_mul] at hmul
  rw [unboundedCode, Nat.shiftLeft_eq, f.infinityCode_eq]
  omega

theorem infinityCode_le_unboundedCode {num den : Nat} (hd : 0 < den)
    (h : f.maxShift < f.excess (num / den)) : f.infinityCode ≤ f.unboundedCode num den := by
  have hround := (significand_bounds (f := f) num hd).2.resolve_left (by omega)
  have hmul : (f.maxShift + 2) * f.binade ≤ (f.excess (num / den) + 1) * f.binade :=
    Nat.mul_le_mul_right _ (by omega)
  rw [Nat.succ_mul (f.excess _)] at hmul
  rw [unboundedCode, Nat.shiftLeft_eq, f.infinityCode_eq]
  omega

theorem unboundedCode_lt_iff {num den : Nat} (hd : 0 < den)
    (h : f.excess (num / den) = f.maxShift) :
    f.unboundedCode num den < f.infinityCode ↔
      2 * num + 2 ^ f.maxShift * den < 4 * (f.binade * (2 ^ f.maxShift * den)) := by
  have hround := roundHalfEven_lt_iff num (Nat.mul_pos hd (Nat.two_pow_pos f.maxShift))
    (n := f.binade)
  have hden : den * 2 ^ f.maxShift = 2 ^ f.maxShift * den := Nat.mul_comm _ _
  have hscale : 2 * (2 * f.binade * (2 ^ f.maxShift * den)) =
      4 * (f.binade * (2 ^ f.maxShift * den)) := by ring
  rw [hden, hscale] at hround
  rw [unboundedCode, Nat.shiftLeft_eq, h, f.infinityCode_eq, Nat.add_mul, hden]
  omega

/-- What lies less than half a step behind the greatest number is not rounded to infinity. -/
theorem nearestCode_lt_iff {num den : Nat} (hd : 0 < den) :
    f.nearestCode num den < f.infinityCode ↔
      2 * num < (f.units (f.infinityCode - 1) + f.units f.infinityCode) * den := by
  have hcode : f.nearestCode num den < f.infinityCode ↔
      f.unboundedCode num den < f.infinityCode := by
    rw [nearestCode_eq]
    omega
  have hgoal : (4 * f.binade - 1) * 2 ^ f.maxShift * den =
      4 * (f.binade * (2 ^ f.maxShift * den)) - 2 ^ f.maxShift * den := by
    rw [Nat.mul_assoc, Nat.sub_mul]
    ring_nf
  have hstep : 2 ^ f.maxShift * den ≤ f.binade * (2 ^ f.maxShift * den) :=
    Nat.le_mul_of_pos_left _ f.binade_pos
  have hunit : 0 < 2 ^ f.maxShift * den := Nat.mul_pos (Nat.two_pow_pos _) hd
  rw [hcode, units_last_add_first, hgoal]
  obtain hlt | heq | hgt := Nat.lt_trichotomy (f.excess (num / den)) f.maxShift
  · have hlow := (Nat.div_lt_iff_lt_mul hd).mp (lt_of_excess (f := f) (num / den))
    have hpow : 2 ^ (f.excess (num / den) + 1) ≤ 2 ^ f.maxShift := Nat.pow_le_pow_right two_pos hlt
    have hbound : num < f.binade * (2 ^ f.maxShift * den) := by
      calc num < 2 * f.binade * 2 ^ f.excess (num / den) * den := hlow
        _ = f.binade * (2 ^ (f.excess (num / den) + 1) * den) := by ring
        _ ≤ f.binade * (2 ^ f.maxShift * den) := by gcongr
    exact iff_of_true (unboundedCode_lt hd hlt) (by omega)
  · rw [unboundedCode_lt_iff hd heq]
    omega
  · have hhigh := (Nat.le_div_iff_mul_le hd).mp
      (le_of_excess_pos (f := f) (n := num / den) (by omega))
    have hpow : 2 ^ (f.maxShift + 1) ≤ 2 ^ f.excess (num / den) := Nat.pow_le_pow_right two_pos hgt
    have hbound : 2 * (f.binade * (2 ^ f.maxShift * den)) ≤ num := by
      calc 2 * (f.binade * (2 ^ f.maxShift * den)) =
          f.binade * 2 ^ (f.maxShift + 1) * den := by ring
        _ ≤ f.binade * 2 ^ f.excess (num / den) * den := by gcongr
        _ ≤ num := hhigh
    have hle := infinityCode_le_unboundedCode hd hgt
    exact iff_of_false (by omega) (by omega)

variable (f) in
/-- Values of this magnitude and beyond are rounded to infinity. -/
def reach : ℚ := (f.units (f.infinityCode - 1) + f.units f.infinityCode) / (2 * f.unity)

theorem reach_half : half.reach = 65520 := by
  have hlast : half.units (half.infinityCode - 1) = 65504 * half.unity := by decide +kernel
  have hfirst : half.units half.infinityCode = 65536 * half.unity := by decide +kernel
  have hu : (half.unity : ℚ) ≠ 0 := by exact_mod_cast half.unity_pos.ne'
  rw [reach, hlast, hfirst]
  push_cast
  field_simp
  norm_num

theorem reach_single : single.reach = 2 ^ 128 - 2 ^ 103 := by
  have hlast : single.units (single.infinityCode - 1) = (2 ^ 128 - 2 ^ 104) * single.unity := by
    decide +kernel
  have hfirst : single.units single.infinityCode = 2 ^ 128 * single.unity := by decide +kernel
  have hu : (single.unity : ℚ) ≠ 0 := by exact_mod_cast single.unity_pos.ne'
  rw [reach, hlast, hfirst]
  push_cast
  field_simp
  norm_num

end Format

namespace Binary

variable {f : Format}

/-- `y` is finite, no finite datum is nearer to `v`, and if another number is as near, `y`
is even. -/
structure IsNearest (y : Binary f) (v : ℚ) : Prop where
  isFinite : y.isFinite
  nearest : ∀ z : Binary f, z.isFinite → |y.value - v| ≤ |z.value - v|
  even : ∀ z : Binary f, z.isFinite → z.value ≠ y.value → |z.value - v| = |y.value - v| →
    y.code % 2 = 0

theorem IsNearest.value_eq {y z : Binary f} {v : ℚ} (h : y.IsNearest v) (hz : z.isFinite)
    (hv : z.value = v) : y.value = v := by
  have hle := h.nearest z hz
  rw [hv, sub_self, abs_zero] at hle
  exact sub_eq_zero.mp (abs_eq_zero.mp (hle.antisymm (abs_nonneg _)))

/-- A number is above the nearest one of `v` if it is above `v`, or it is the nearest one itself. -/
theorem IsNearest.value_le_iff {y z : Binary f} {v : ℚ} (h : y.IsNearest v) (hz : z.isFinite) :
    y.value ≤ z.value ↔ v ≤ z.value ∨ z.value = y.value := by
  have hnear := h.nearest z hz
  constructor
  · intro hle
    by_contra! hnot
    rw [abs_of_nonpos (by linarith), abs_of_nonpos (by linarith)] at hnear
    exact hnot.2 (by linarith)
  · rintro (hle | heq)
    · by_contra! hlt
      rw [abs_of_nonneg (by linarith), abs_of_nonneg (by linarith)] at hnear
      linarith
    · exact heq.ge

theorem abs_value (x : Binary f) : |x.value| = f.units x.code / f.unity := by
  rw [value, abs_div, Nat.abs_cast, signedUnits]
  split <;> simp

theorem value_eq_sign_mul (x : Binary f) :
    x.value = (if x.isNegative then -1 else 1) * |x.value| := by
  rw [abs_value, value, signedUnits]
  split <;> push_cast <;> ring

theorem code_eq_zero_of_value {x : Binary f} (h : x.value = 0) : x.code = 0 := by
  have hu : (f.unity : ℚ) ≠ 0 := by exact_mod_cast f.unity_pos.ne'
  have habs := x.abs_value
  rw [h, abs_zero, eq_comm, div_eq_zero_iff, or_iff_left hu] at habs
  exact f.units_eq_zero_iff.mp (by exact_mod_cast habs)

theorem abs_abs_value_sub (x : Binary f) (num : Nat) {den : Nat} (hd : 0 < den) :
    |(|x.value| - num / (den * f.unity))| =
      (((f.units x.code * den : ℕ) - num : ℤ).natAbs : ℚ) / (den * f.unity) := by
  have hu : (f.unity : ℚ) ≠ 0 := by exact_mod_cast f.unity_pos.ne'
  have hden : (den : ℚ) ≠ 0 := by exact_mod_cast hd.ne'
  have hscale : (0 : ℚ) < den * f.unity := by exact_mod_cast Nat.mul_pos hd f.unity_pos
  rw [abs_value, Nat.cast_natAbs, Int.cast_abs, ← abs_of_pos hscale, ← abs_div, abs_of_pos hscale]
  congr 1
  push_cast
  field_simp

theorem abs_value_sub_sign_mul (x : Binary f) (q : ℚ) :
    |x.value - (if x.isNegative then -1 else 1) * q| = |(|x.value| - q)| := by
  conv_lhs => rw [value_eq_sign_mul x, ← mul_sub, abs_mul]
  split <;> simp

theorem abs_abs_value_sub_le (x : Binary f) (negative : Bool) {q : ℚ} (hq : 0 ≤ q) :
    |(|x.value| - q)| ≤ |x.value - (if negative then -1 else 1) * q| := by
  have habs : |(if negative then -1 else 1) * q| = q := by
    rw [abs_mul, abs_of_nonneg hq]
    split <;> simp
  calc |(|x.value| - q)| = |(|x.value| - |(if negative then -1 else 1) * q|)| := by rw [habs]
    _ ≤ |x.value - (if negative then -1 else 1) * q| := abs_abs_sub_abs_le _ _

/-- Among the magnitudes of finite data none is nearer to the quotient than the rounded one. -/
theorem abs_nearest_le (negative : Bool) {num den : Nat} (hd : 0 < den)
    (hfinite : f.nearestCode num den < f.infinityCode) {z : Binary f} (hz : z.isFinite)
    (hne : z.code ≠ (nearest f negative num den).code) :
    |(|(nearest f negative num den).value| - num / (den * f.unity))| ≤
        |(|z.value| - num / (den * f.unity))| ∧
      (|(|z.value| - num / (den * f.unity))| =
          |(|(nearest f negative num den).value| - num / (den * f.unity))| →
        (nearest f negative num den).code % 2 = 0) := by
  have hscale : (0 : ℚ) < den * f.unity := by exact_mod_cast Nat.mul_pos hd f.unity_pos
  rw [code_nearest] at hne
  rw [abs_abs_value_sub _ _ hd, abs_abs_value_sub _ _ hd, div_le_div_iff_of_pos_right hscale,
    div_left_inj' hscale.ne', Nat.cast_le, Nat.cast_inj, code_nearest]
  exact Format.nearestCode_nearest hd hfinite ((isFinite_iff z).mp hz) hne

theorem abs_value_congr {x y : Binary f} (h : x.code = y.code) : |x.value| = |y.value| := by
  rw [abs_value, abs_value, h]

theorem even_of_mirrored {y z : Binary f} {v : ℚ}
    (hnearest : ∀ x : Binary f, x.isFinite → |y.value - v| ≤ |x.value - v|)
    (hcode : z.code = y.code)
    (hne : z.value ≠ y.value) (htie : |z.value - v| = |y.value - v|) : y.code % 2 = 0 := by
  have hneg : z.value = -y.value := (abs_eq_abs.mp (abs_value_congr hcode)).resolve_left hne
  have hzero : v = 0 := by
    obtain heq | heq := abs_eq_abs.mp htie
    · exact absurd (sub_left_injective heq) hne
    · linarith
  have hle := hnearest (zero false) (by simpa [isFinite_iff] using f.infinityCode_pos)
  rw [hzero, value_zero, sub_zero, sub_zero, abs_zero] at hle
  rw [code_eq_zero_of_value (abs_eq_zero.mp (hle.antisymm (abs_nonneg _)))]

/-- Rounding gives the nearest datum of the sign asked for, unless it gives infinity. -/
theorem isNearest_nearest (negative : Bool) {num den : Nat} (hd : 0 < den)
    (hfinite : f.nearestCode num den < f.infinityCode) :
    (nearest f negative num den).IsNearest
      ((if negative then -1 else 1) * (num / (den * f.unity))) := by
  have hclose {z : Binary f} := abs_nearest_le negative hd hfinite (z := z)
  have hsame := (nearest f negative num den).abs_value_sub_sign_mul (num / (den * f.unity))
  have hother (z : Binary f) :=
    z.abs_abs_value_sub_le negative (q := num / (den * f.unity)) (by positivity)
  have hyfinite : (nearest f negative num den).isFinite := by rwa [isFinite_iff, code_nearest]
  rw [isNegative_nearest] at hsame
  set y := nearest f negative num den
  set v : ℚ := (if negative then -1 else 1) * (num / (den * f.unity))
  have hnearest : ∀ z : Binary f, z.isFinite → |y.value - v| ≤ |z.value - v| := by
    intro z hz
    rw [hsame]
    refine le_trans ?_ (hother z)
    by_cases h : z.code = y.code
    · rw [abs_value_congr h]
    · exact (hclose hz h).1
  refine ⟨hyfinite, hnearest, fun z hz hne htie => ?_⟩
  by_cases h : z.code = y.code
  · exact even_of_mirrored hnearest h hne htie
  · refine (hclose hz h).2 (le_antisymm ?_ (hclose hz h).1)
    rw [← hsame, ← htie]
    exact hother z

theorem isNearest_ofNat {n : Nat} (h : (ofNat f n).isFinite) : (ofNat f n).IsNearest n := by
  have hu : (f.unity : ℚ) ≠ 0 := by exact_mod_cast f.unity_pos.ne'
  rw [isFinite_iff, code_ofNat_eq] at h
  have hvalue : ((if false then -1 else 1) * ((n * f.unity : ℕ) / ((1 : ℕ) * f.unity)) : ℚ) =
      n := by
    simp [hu]
  exact hvalue ▸ isNearest_nearest false Nat.one_pos h

variable {g : Format} {x : Binary f}

theorem isFinite_convert_iff (hx : x.isFinite) : (x.convert g).isFinite ↔ |x.value| < g.reach := by
  have hu : (0 : ℚ) < f.unity := by exact_mod_cast f.unity_pos
  have hgu : (0 : ℚ) < 2 * g.unity := by exact_mod_cast Nat.mul_pos two_pos g.unity_pos
  rw [isFinite_iff, convert_of_isFinite g hx, code_nearest, Format.nearestCode_lt_iff f.unity_pos,
    abs_value, Format.reach, div_lt_div_iff₀ hu hgu, ← Nat.cast_lt (α := ℚ)]
  push_cast
  rw [mul_left_comm]

/-- What is within the reach of a format is converted to the nearest datum. -/
theorem isNearest_convert (hx : x.isFinite) (h : |x.value| < g.reach) :
    (x.convert g).IsNearest x.value := by
  have hfinite := (isFinite_convert_iff hx).mpr h
  have hu : (g.unity : ℚ) ≠ 0 := by exact_mod_cast g.unity_pos.ne'
  rw [isFinite_iff, convert_of_isFinite g hx, code_nearest] at hfinite
  have hvalue : (if x.isNegative then -1 else 1) *
      ((f.units x.code * g.unity : ℕ) / (f.unity * g.unity) : ℚ) = x.value := by
    conv_rhs => rw [value_eq_sign_mul, abs_value]
    rw [Nat.cast_mul, mul_div_mul_right _ _ hu]
  rw [convert_of_isFinite g hx]
  exact hvalue ▸ isNearest_nearest x.isNegative f.unity_pos hfinite

end Binary

end Conformance
