import Mathlib
import Conformance.Proofs.Binary.Nearest
import Conformance.Proofs.Binary.WholePart

namespace Conformance

namespace Format

variable {f : Format}

theorem units_quotient_lt {c d : Nat} (h : c < d) :
    f.units (f.nearestCode (f.units c * f.unity) (f.units d)) < f.unity := by
  have hb := f.binade_pos
  have hlt : f.units c < f.units d := f.units_strictMono h
  have hgap := f.units_le_gap h
  set last := (2 * f.binade - 1) * 2 ^ (f.scale - 1 - f.fractionBits) with hlast
  have hstep := Nat.two_pow_pos (f.scale - 1 - f.fractionBits)
  have hrepresents : f.Represents last := by
    refine ⟨2 * f.binade - 1, f.scale - 1 - f.fractionBits, by omega, ?_, rfl⟩
    cases f <;> decide
  have hscaled : f.units c * (2 * f.binade) ≤ (2 * f.binade - 1) * f.units d := by
    rw [Nat.mul_sub] at hgap
    rw [Nat.sub_mul, Nat.one_mul, Nat.mul_comm (f.units c)]
    omega
  have hnum : f.units c * f.unity ≤ last * f.units d := by
    calc f.units c * f.unity
        = f.units c * (2 * f.binade) * 2 ^ (f.scale - 1 - f.fractionBits) := by
          rw [unity_eq_mul, Nat.mul_assoc (f.units c)]
      _ ≤ (2 * f.binade - 1) * f.units d * 2 ^ (f.scale - 1 - f.fractionBits) :=
          Nat.mul_le_mul_right _ hscaled
      _ = last * f.units d := by rw [hlast, Nat.mul_right_comm]
  calc f.units (f.nearestCode (f.units c * f.unity) (f.units d)) ≤ last :=
        units_nearestCode_le hrepresents (Nat.zero_lt_of_lt hlt) hnum
    _ < f.unity := by
        rw [hlast, unity_eq_mul]
        exact Nat.mul_lt_mul_of_pos_right (by omega) hstep

end Format

namespace Binary

variable {f : Format} {x y : Binary f}

theorem value_eq_zero_iff : x.value = 0 ↔ x.code = 0 := by
  refine ⟨code_eq_zero_of_value, fun h => ?_⟩
  rw [value, signedUnits, h, f.units_zero]
  simp

theorem signedUnits_eq_zero (h : x.value = 0) : x.signedUnits = 0 := by
  rw [signedUnits, code_eq_zero_of_value h, f.units_zero]
  simp

theorem natAbs_signedUnits (x : Binary f) : x.signedUnits.natAbs = f.units x.code := by
  rw [signedUnits]
  split <;> omega

theorem value_nonneg (h : x.isNegative = false) : 0 ≤ x.value := by
  rw [value_of_not_isNegative h]
  positivity

theorem value_nonpos (h : x.isNegative) : x.value ≤ 0 := by
  rw [value_of_isNegative h, neg_nonpos]
  positivity

theorem represents_signedUnits (hx : x.isFinite) : f.Represents x.signedUnits.natAbs := by
  rw [natAbs_signedUnits]
  exact Format.represents_units ((isFinite_iff x).mp hx)

theorem position_eq_of_value_eq (h : x.value = y.value) : x.position = y.position := by
  apply le_antisymm
  · exact not_lt.mp (mt (value_lt_iff y x).mpr (by rw [h]; exact lt_irrefl _))
  · exact not_lt.mp (mt (value_lt_iff x y).mpr (by rw [h]; exact lt_irrefl _))

theorem same_of_value_eq (hx : x.isFinite) (hy : y.isFinite) (h : x.value = y.value) :
    x.same y := by
  simp [same, isNaN_of_isFinite hx, isNaN_of_isFinite hy, position_eq_of_value_eq h]

theorem eq_of_value_eq (h : x.value = y.value) (h0 : x.value ≠ 0) : x = y := by
  have hposition := position_eq_of_value_eq h
  have hcode : x.code ≠ 0 := mt value_eq_zero_iff.mpr h0
  unfold position at hposition
  cases hx : x.isNegative <;> cases hy : y.isNegative <;>
    simp only [hx, hy, if_true, Bool.false_eq_true, if_false] at hposition
  case false.false | true.true => exact ext_code (by rw [hx, hy]) (by omega)
  all_goals omega

theorem value_neg (x : Binary f) : x.neg.value = -x.value := by
  rw [value, value, signedUnits_neg, Int.cast_neg, neg_div]

theorem sub_eq_add (hx : x.isFinite) (hy : y.isFinite) : x - y = x + y.neg := by
  rw [sub_of_isFinite hx hy, add_of_isFinite hx (by simpa using hy)]

/-- A difference whose significand fits is exact. -/
theorem sub_exact (hx : x.isFinite) (hy : y.isFinite)
    (h : f.Represents (x.signedUnits - y.signedUnits).natAbs) :
    (x - y).isFinite ∧ (x - y).value = x.value - y.value := by
  have hsum : f.Represents (x.signedUnits + y.neg.signedUnits).natAbs := by
    rwa [signedUnits_neg, ← Int.sub_eq_add_neg]
  obtain ⟨hfinite, hvalue⟩ := add_exact hx (y := y.neg) (by simpa using hy) hsum
  rw [sub_eq_add hx hy]
  exact ⟨hfinite, by rw [hvalue, value_neg, sub_eq_add_neg]⟩

theorem add_nothing (hx : x.isFinite) (hy : y.isFinite) (h : y.value = 0) :
    (x + y).isFinite ∧ (x + y).value = x.value := by
  have hfits : f.Represents (x.signedUnits + y.signedUnits).natAbs := by
    rw [signedUnits_eq_zero h, Int.add_zero]
    exact represents_signedUnits hx
  obtain ⟨hfinite, hvalue⟩ := add_exact hx hy hfits
  exact ⟨hfinite, by rw [hvalue, h, add_zero]⟩

theorem sub_nothing (hx : x.isFinite) (hy : y.isFinite) (h : y.value = 0) :
    (x - y).isFinite ∧ (x - y).value = x.value := by
  rw [sub_eq_add hx hy]
  exact add_nothing hx (by simpa using hy) (by rw [value_neg, h, neg_zero])

theorem sub_of_value_eq (hx : x.isFinite) (hy : y.isFinite) (h : x.value = y.value) :
    (x - y).isFinite ∧ (x - y).value = 0 := by
  have hu : (f.unity : ℚ) ≠ 0 := by exact_mod_cast f.unity_pos.ne'
  have hunits : x.signedUnits = y.signedUnits := by
    rw [value, value, div_left_inj' hu] at h
    exact_mod_cast h
  have hfits : f.Represents (x.signedUnits - y.signedUnits).natAbs := by
    rw [hunits, Int.sub_self]
    exact Format.represents_zero
  obtain ⟨hfinite, hvalue⟩ := sub_exact hx hy hfits
  exact ⟨hfinite, by rw [hvalue, h, sub_self]⟩

/-- A difference no larger than a whole number of the format is finite. -/
theorem isFinite_sub_of_le (hx : x.isFinite) (hy : y.isFinite) {n : Nat} (hn : n ≤ 2 * f.binade)
    (h : |x.value - y.value| ≤ n) : (x - y).isFinite := by
  have hu : (0 : ℚ) < f.unity := by exact_mod_cast f.unity_pos
  obtain ⟨-, negative, heq⟩ | ⟨-, heq⟩ := sub_cases hx hy
  · rw [heq]
    exact isFinite_zero negative
  · have hunits : (x.signedUnits - y.signedUnits).natAbs ≤ n * f.unity * 1 := by
      rw [value, value, ← sub_div, abs_div, Nat.abs_cast, div_le_iff₀ hu] at h
      rw [Nat.mul_one, ← Int.ofNat_le, Int.natCast_natAbs]
      exact_mod_cast h
    rw [heq, isFinite_iff, code_nearest]
    exact Format.nearestCode_lt (Format.represents_whole hn) Nat.one_pos hunits

/-- The largest numbers are so far apart that adding one does not lead beyond them. -/
theorem isFinite_add_of_le (hx : x.isFinite) (hy : y.isFinite) (h : |y.value| ≤ 1) :
    (x + y).isFinite := by
  have hu : (0 : ℚ) < f.unity := by exact_mod_cast f.unity_pos
  have hroom : f.units (f.infinityCode - 1) + 2 * f.unity < f.units f.infinityCode := by
    cases f <;> decide
  have hcode := (isFinite_iff x).mp hx
  have hlast : x.signedUnits.natAbs ≤ f.units (f.infinityCode - 1) := by
    rw [natAbs_signedUnits]
    exact f.units_strictMono.monotone (by omega)
  have hsmall : y.signedUnits.natAbs ≤ f.unity := by
    rw [abs_value, div_le_one hu] at h
    rw [natAbs_signedUnits]
    exact_mod_cast h
  rw [add_of_isFinite hx hy, addFinite]
  split_ifs
  · exact isFinite_zero _
  · rw [isFinite_iff, code_nearest, Format.nearestCode_lt_iff Nat.one_pos]
    omega

theorem units_lt_of_abs_value_lt (h : |x.value| < |y.value|) : f.units x.code < f.units y.code := by
  have hu : (0 : ℚ) < f.unity := by exact_mod_cast f.unity_pos
  rw [abs_value, abs_value, div_lt_div_iff_of_pos_right hu] at h
  exact_mod_cast h

theorem code_nearest_zero (negative : Bool) {den : Nat} (hd : 0 < den) :
    (nearest f negative 0 den).code = 0 := by
  have hzero := Format.nearestCode_units (f := f) f.infinityCode_pos hd
  rwa [f.units_zero, Nat.zero_mul, ← code_nearest negative] at hzero

theorem div_below_one (hx : x.isFinite) (hy : y.isFinite) (h0 : 0 ≤ x.value)
    (h : x.value < y.value) :
    (x / y).isFinite ∧ 0 ≤ (x / y).value ∧ (x / y).value < 1 := by
  have hu : (0 : ℚ) < f.unity := by exact_mod_cast f.unity_pos
  have hunits : f.units x.code < f.units y.code := by
    apply units_lt_of_abs_value_lt
    rwa [abs_of_nonneg h0, abs_of_pos (h0.trans_lt h)]
  have hden : 0 < f.units y.code := Nat.zero_lt_of_lt hunits
  have hzero : y.isZero = false := by
    rw [isZero, decide_eq_false_iff_not, ← f.units_eq_zero_iff]
    exact hden.ne'
  have hsign : y.isNegative = false := by
    by_contra hneg
    exact (h0.trans_lt h).not_ge (value_nonpos (by simpa using hneg))
  have hbelow := Format.units_quotient_lt (f := f) (f.units_strictMono.lt_iff_lt.mp hunits)
  have hfinite : f.nearestCode (f.units x.code * f.unity) (f.units y.code) < f.infinityCode := by
    apply Format.nearestCode_lt Format.represents_unity hden
    rw [Nat.mul_comm]
    exact Nat.mul_le_mul_left _ hunits.le
  rw [div_of_isFinite hx hy hzero, hsign, Bool.bne_false]
  set q := nearest f x.isNegative (f.units x.code * f.unity) (f.units y.code) with hq
  have hcode : q.code = f.nearestCode (f.units x.code * f.unity) (f.units y.code) := code_nearest ..
  refine ⟨by rwa [isFinite_iff, hcode], ?_, ?_⟩
  · cases hneg : x.isNegative with
    | false => exact value_nonneg (by rw [hq, isNegative_nearest, hneg])
    | true =>
      -- only a negative zero is not below zero
      have hx0 := code_eq_zero_of_value ((value_nonpos hneg).antisymm h0)
      rw [value_eq_zero_iff.mpr]
      rw [hq, hx0, f.units_zero, Nat.zero_mul, code_nearest_zero _ hden]
  · refine (le_abs_self _).trans_lt ?_
    rw [abs_value, div_lt_one hu, hcode]
    exact_mod_cast hbelow

theorem represents_floorMagnitude (negative : Bool) {n : Nat} (h : f.Represents n) :
    f.Represents (floorMagnitude f negative n * f.unity) := by
  rw [floorMagnitude]
  cases negative with
  | false => exact Format.represents_floor h
  | true =>
    have hu := f.unity_pos
    obtain ⟨s, t, hs, ht, rfl⟩ := h
    obtain hle | hlt := Nat.le_total f.scale t
    · -- a multiple of one is its own floor
      have hsplit : s * 2 ^ t = s * 2 ^ (t - f.scale) * f.unity := by
        rw [f.unity_eq, Nat.mul_assoc, ← Nat.pow_add, Nat.sub_add_cancel hle]
      have hceil : (s * 2 ^ t + (f.unity - 1)) / f.unity = s * 2 ^ (t - f.scale) := by
        rw [hsplit, Nat.mul_comm, Nat.mul_add_div hu, Nat.div_eq_of_lt (by omega), Nat.add_zero]
      rw [if_pos rfl, hceil, ← hsplit]
      exact ⟨s, t, hs, ht, rfl⟩
    · apply Format.represents_whole
      have hbelow : s * 2 ^ t ≤ 2 * f.binade * f.unity := by
        rw [f.unity_eq]
        exact Nat.mul_le_mul hs.le (Nat.pow_le_pow_right two_pos hlt)
      rw [if_pos rfl, ← Nat.lt_succ_iff, Nat.div_lt_iff_lt_mul hu, Nat.succ_mul]
      omega

theorem floor_value (x : Binary f) : ⌊x.value⌋ =
    if x.isNegative then -(floorMagnitude f true (f.units x.code) : ℤ)
    else floorMagnitude f false (f.units x.code) := by
  have hu : (0 : ℚ) < f.unity := by exact_mod_cast f.unity_pos
  cases hs : x.isNegative with
  | false =>
    rw [value_of_not_isNegative hs]
    exact Rat.floor_natCast_div_natCast _ _
  | true =>
    set n := f.units x.code
    set k := floorMagnitude f true n with hk
    have hpos := f.unity_pos
    have hlow : k * f.unity ≤ n + (f.unity - 1) := Nat.div_mul_le_self _ _
    have hhigh : n + (f.unity - 1) < (k + 1) * f.unity :=
      Nat.lt_mul_of_div_lt (Nat.lt_succ_self _) hpos
    rw [Nat.succ_mul] at hhigh
    have hup : (n : ℚ) ≤ k * f.unity := by exact_mod_cast (by omega : n ≤ k * f.unity)
    have hdown : (k * f.unity : ℚ) < n + f.unity := by
      exact_mod_cast (by omega : k * f.unity < n + f.unity)
    rw [value_of_isNegative hs, if_pos rfl, Int.floor_eq_iff]
    push_cast
    constructor
    · rwa [neg_le_neg_iff, div_le_iff₀ hu]
    · have hbelow : (k - 1 : ℚ) < n / f.unity := by
        rw [lt_div_iff₀ hu]
        linarith
      linarith

theorem floor_exact (hx : x.isFinite) : x.floor.isFinite ∧ x.floor.value = ⌊x.value⌋ := by
  have hu : (f.unity : ℚ) ≠ 0 := by exact_mod_cast f.unity_pos.ne'
  have hfits := represents_floorMagnitude x.isNegative
    (Format.represents_units ((isFinite_iff x).mp hx))
  rw [floor_of_isFinite hx]
  constructor
  · rw [isFinite_iff, code_nearest]
    exact Format.nearestCode_lt hfits Nat.one_pos (by omega)
  · rw [value, signedUnits_nearest hfits, floor_value]
    cases x.isNegative <;> simp [hu, neg_div]

theorem isNearest_zero (negative : Bool) : (zero negative : Binary f).IsNearest 0 := by
  refine ⟨isFinite_zero negative, fun z _ => ?_, fun z _ _ _ => ?_⟩
  · rw [value_zero, sub_self, abs_zero]
    exact abs_nonneg _
  · rw [code_zero]

/-- A sum that does not overflow is the number nearest to the exact one. -/
theorem isNearest_add (hx : x.isFinite) (hy : y.isFinite) (h : (x + y).isFinite) :
    (x + y).IsNearest (x.value + y.value) := by
  have hu : (f.unity : ℚ) ≠ 0 := by exact_mod_cast f.unity_pos.ne'
  have hsum : x.value + y.value = ((x.signedUnits + y.signedUnits : ℤ) : ℚ) / f.unity := by
    rw [value, value, Int.cast_add, add_div]
  rw [add_of_isFinite hx hy, addFinite] at h ⊢
  rw [hsum]
  set s := x.signedUnits + y.signedUnits
  by_cases h0 : s = 0
  · rw [if_pos h0, h0, Int.cast_zero, zero_div]
    exact isNearest_zero _
  · rw [if_neg h0] at h ⊢
    rw [isFinite_iff, code_nearest] at h
    have hvalue : (if decide (s < 0) then -1 else 1) * (s.natAbs / ((1 : ℕ) * f.unity)) =
        (s : ℚ) / f.unity := by
      rw [Nat.cast_natAbs, Int.cast_abs, Nat.cast_one, one_mul]
      by_cases hneg : s < 0
      · have hneg' : (s : ℚ) < 0 := by exact_mod_cast hneg
        simp [hneg, abs_of_neg hneg', neg_div]
      · have hpos : (0 : ℚ) ≤ s := by exact_mod_cast not_lt.mp hneg
        simp [hneg, abs_of_nonneg hpos]
    exact hvalue ▸ isNearest_nearest _ Nat.one_pos h

theorem IsNearest.le_value {z : Binary f} {v : ℚ} (h : y.IsNearest v) (hz : z.isFinite)
    (hv : z.value ≤ v) : z.value ≤ y.value := by
  have hnear := h.nearest z hz
  by_contra! hlt
  rw [abs_of_nonpos (by linarith), abs_of_nonpos (by linarith)] at hnear
  linarith

theorem IsNearest.value_le {z : Binary f} {v : ℚ} (h : y.IsNearest v) (hz : z.isFinite)
    (hv : v ≤ z.value) : y.value ≤ z.value := (h.value_le_iff hz).mpr (.inl hv)

theorem isFinite_mul_iff (hx : x.isFinite) (hy : y.isFinite) :
    (x * y).isFinite ↔ |x.value * y.value| < f.reach := by
  have hu : (0 : ℚ) < f.unity := by exact_mod_cast f.unity_pos
  have hproduct : |x.value * y.value| =
      2 * (f.units x.code * f.units y.code : ℕ) / f.unity / (2 * f.unity) := by
    rw [abs_mul, abs_value, abs_value, Nat.cast_mul]
    field_simp
  rw [isFinite_iff, mul_of_isFinite hx hy, code_nearest,
    Format.nearestCode_lt_iff f.unity_pos, hproduct, Format.reach,
    div_lt_div_iff_of_pos_right (by positivity), div_lt_iff₀ hu]
  exact_mod_cast Iff.rfl

theorem mul_nothing (hx : x.isFinite) (hy : y.isFinite) (h : x.value * y.value = 0) :
    (x * y).isFinite ∧ (x * y).value = 0 := by
  have hunits : f.units x.code * f.units y.code = 0 := by
    obtain h0 | h0 := mul_eq_zero.mp h <;> rw [code_eq_zero_of_value h0, f.units_zero]
    · exact Nat.zero_mul _
    · exact Nat.mul_zero _
  have hcode : (x * y).code = 0 := by
    rw [mul_of_isFinite hx hy, hunits, code_nearest_zero _ f.unity_pos]
  exact ⟨by rw [isFinite_iff, hcode]; exact f.infinityCode_pos, value_eq_zero_iff.mpr hcode⟩

theorem isNaN_propagate (h : x.isNaN ∨ y.isNaN) : (propagate x y).isNaN := by
  rw [propagate]
  split_ifs with hx
  · exact isNaN_quieted hx
  · exact isNaN_quieted (h.resolve_left hx)

theorem isNaN_add_of_isNaN (h : x.isNaN ∨ y.isNaN) : (x + y).isNaN := by
  change (add x y).isNaN
  rw [add, if_pos (by simpa using h)]
  exact isNaN_propagate h

theorem isNaN_mul_of_isNaN (h : x.isNaN ∨ y.isNaN) : (x * y).isNaN := by
  change (mul x y).isNaN
  rw [mul, if_pos (by simpa using h)]
  exact isNaN_propagate h

theorem isInfinite_mul (hx : x.isFinite) (hy : y.isFinite) (h : ¬(x * y).isFinite) :
    (x * y).isInfinite := by
  obtain hn | hi | hf := (x * y).nan_or_infinite_or_finite
  · rw [mul_of_isFinite hx hy, isNaN_nearest] at hn
    cases hn
  · exact hi
  · exact absurd hf h

theorem isNaN_invalid : (invalid : Binary f).isNaN := by
  cases f <;> decide

theorem sub_of_isInfinite (hx : x.isInfinite) (hy : y.isFinite) : x - y = x := by
  change sub x y = x
  simp [sub, addNumber, hx, isNaN_of_isInfinite hx, isNaN_of_isFinite hy, isInfinite_of_isFinite hy]

theorem isNaN_sub_self (hx : x.isInfinite) : (x - x).isNaN := by
  change (sub x x).isNaN
  simp [sub, addNumber, hx, isNaN_of_isInfinite hx, isNegative_neg, isNaN_invalid]

theorem floor_of_isInfinite (hx : x.isInfinite) : x.floor = x := by
  simp [floor, hx, isNaN_of_isInfinite hx]

end Binary

end Conformance
