import Mathlib
import Conformance.Proofs.Binary.Monotonicity
import Conformance.Proofs.Binary.Number

namespace Conformance.Binary

variable {f : Format} {x y : Binary f}

theorem value_of_isNegative (h : x.isNegative) : x.value = -(f.units x.code / f.unity) := by
  simp [value, signedUnits, h, neg_div]

theorem value_of_not_isNegative (h : x.isNegative = false) :
    x.value = f.units x.code / f.unity := by
  simp [value, signedUnits, h]

@[simp]
theorem value_zero (negative : Bool) : (zero negative : Binary f).value = 0 := by
  simp [value, signedUnits]

theorem value_ofNat {n : Nat} (hn : n ≤ 2 * f.binade) : (ofNat f n).value = n := by
  have hu : (f.unity : ℚ) ≠ 0 := by exact_mod_cast f.unity_pos.ne'
  rw [value_of_not_isNegative (isMagnitude_ofNat n).isNegative, units_ofNat hn]
  push_cast
  exact mul_div_cancel_right₀ _ hu

/-- Only a negative zero has a sign and a floor that is not negative. -/
theorem floorMagnitude_eq {n : Nat} (h : ⌊x.value⌋ = n) :
    floorMagnitude f x.isNegative (f.units x.code) = n ∧ (x.isNegative → n = 0) := by
  have hu := f.unity_pos
  have huq : (0 : ℚ) < f.unity := by exact_mod_cast hu
  cases hs : x.isNegative with
  | false =>
    refine ⟨?_, by simp⟩
    rw [value_of_not_isNegative hs] at h
    have hfloor : ⌊(f.units x.code / f.unity : ℚ)⌋ = ((f.units x.code / f.unity : ℕ) : ℤ) :=
      Rat.floor_natCast_div_natCast _ _
    rw [hfloor] at h
    exact_mod_cast h
  | true =>
    have hnonneg : (0 : ℚ) ≤ x.value := Int.floor_nonneg.mp (by omega)
    have hzero : f.units x.code = 0 := by
      by_contra hne
      have hpos : (0 : ℚ) < f.units x.code / f.unity :=
        div_pos (by exact_mod_cast Nat.pos_of_ne_zero hne) huq
      rw [value_of_isNegative hs] at hnonneg
      linarith
    have hn : n = 0 := by
      rw [value_of_isNegative hs, hzero] at h
      simpa using h.symm
    refine ⟨?_, fun _ => hn⟩
    rw [hzero, hn, floorMagnitude, if_pos rfl]
    exact Nat.div_eq_of_lt (by omega)

theorem floor_eq (hx : x.isFinite) {n : Nat} (h : ⌊x.value⌋ = n) :
    x.floor = nearest f x.isNegative (n * f.unity) 1 := by
  simp [floor, isNaN_of_isFinite hx, isInfinite_of_isFinite hx, (floorMagnitude_eq h).1]

theorem code_floor (hx : x.isFinite) {n : Nat} (h : ⌊x.value⌋ = n) :
    x.floor.code = (ofNat f n).code := by
  rw [floor_eq hx h, code_nearest, code_ofNat_eq]

theorem isNegative_floor (hx : x.isFinite) {n : Nat} (h : ⌊x.value⌋ = n) :
    x.floor.isNegative = x.isNegative := by
  rw [floor_eq hx h, isNegative_nearest]

theorem position_floor (hx : x.isFinite) {n : Nat} (h : ⌊x.value⌋ = n) :
    x.floor.position = (ofNat f n).position := by
  rw [(isMagnitude_ofNat n).position, position, code_floor hx h, isNegative_floor hx h]
  cases hs : x.isNegative with
  | false => rfl
  | true =>
    rw [(floorMagnitude_eq h).2 hs, code_ofNat_eq_zero_iff.mpr rfl]
    rfl

theorem signedUnits_nearest {n : Nat} (h : f.Represents n) (negative : Bool) :
    (nearest f negative n 1).signedUnits = if negative then -(n : Int) else n := by
  have hu := Format.units_nearestCode h Nat.one_pos
  rw [Nat.mul_one] at hu
  rw [signedUnits, isNegative_nearest, code_nearest, hu]

theorem add_of_isFinite (hx : x.isFinite) (hy : y.isFinite) : x + y = addFinite x y := by
  change add x y = _
  simp [add, addNumber, isNaN_of_isFinite hx, isNaN_of_isFinite hy, isInfinite_of_isFinite hx,
    isInfinite_of_isFinite hy]

/-- A sum whose significand fits is exact. -/
theorem add_exact (hx : x.isFinite) (hy : y.isFinite)
    (h : f.Represents (x.signedUnits + y.signedUnits).natAbs) :
    (x + y).isFinite ∧ (x + y).value = x.value + y.value := by
  have hsum : (x + y).isFinite ∧ (x + y).signedUnits = x.signedUnits + y.signedUnits := by
    rw [add_of_isFinite hx hy, addFinite]
    split_ifs with h0
    · rw [h0, isFinite_iff, code_zero]
      exact ⟨f.infinityCode_pos, by simp [signedUnits]⟩
    · constructor
      · rw [isFinite_iff, code_nearest]
        exact Format.nearestCode_lt h Nat.one_pos (by omega)
      · simp only [signedUnits_nearest h, decide_eq_true_eq]
        split <;> omega
  refine ⟨hsum.1, ?_⟩
  rw [value, value, value, hsum.2, Int.cast_add, add_div]

end Conformance.Binary
