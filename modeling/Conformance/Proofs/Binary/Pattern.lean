import Mathlib
import Conformance.Binary.Order

namespace Conformance

namespace Format

variable (f : Format)

/-- All codes of finite data shift their significand by at most this much. -/
def maxShift : Nat := f.infinityCode / f.binade - 2

theorem binade_eq : f.binade = 2 ^ f.fractionBits := by
  rw [binade, Nat.one_shiftLeft]

theorem unity_eq : f.unity = 2 ^ f.scale := by
  rw [unity, Nat.one_shiftLeft]

theorem binade_pos : 0 < f.binade := by
  rw [binade_eq]
  exact Nat.two_pow_pos _

theorem unity_pos : 0 < f.unity := by
  rw [unity_eq]
  exact Nat.two_pow_pos _

theorem two_signWeight : 2 * f.signWeight = 2 ^ f.width := by
  cases f <;> rfl

theorem infinityCode_add_binade : f.infinityCode + f.binade = f.signWeight := by
  cases f <;> rfl

theorem infinityCode_eq : f.infinityCode = (f.maxShift + 2) * f.binade := by
  cases f <;> rfl

theorem infinityCode_lt : f.infinityCode < f.signWeight := by
  have h := f.infinityCode_add_binade
  have hb := f.binade_pos
  omega

theorem infinityCode_pos : 0 < f.infinityCode := by
  rw [infinityCode_eq]
  exact Nat.mul_pos (by omega) f.binade_pos

end Format

namespace Binary

variable {f : Format}

theorem toBits_lt (x : Binary f) : x.toBits < 2 * f.signWeight := by
  rw [f.two_signWeight]
  exact x.bits.isLt

theorem ext_toBits {x y : Binary f} (h : x.toBits = y.toBits) : x = y := by
  cases x
  cases y
  simpa [toBits, BitVec.toNat_inj] using h

theorem toBits_ofBits {n : Nat} (h : n < 2 * f.signWeight) : (ofBits f n).toBits = n := by
  rw [f.two_signWeight] at h
  rw [toBits, ofBits, BitVec.toNat_ofNat, Nat.mod_eq_of_lt h]

theorem code_lt (x : Binary f) : x.code < f.signWeight := by
  have h := f.infinityCode_lt
  exact Nat.mod_lt _ (by omega)

theorem toBits_ofCode {c : Nat} (h : c < f.signWeight) (negative : Bool) :
    (ofCode f negative c).toBits = if negative then f.signWeight + c else c := by
  rw [ofCode, toBits_ofBits]
  cases negative <;> simp <;> omega

@[simp]
theorem code_ofCode {c : Nat} (h : c < f.signWeight) (negative : Bool) :
    (ofCode f negative c).code = c := by
  rw [code, toBits_ofCode h]
  cases negative
  · simp [Nat.mod_eq_of_lt h]
  · simp [Nat.add_mod_left, Nat.mod_eq_of_lt h]

@[simp]
theorem isNegative_ofCode {c : Nat} (h : c < f.signWeight) (negative : Bool) :
    (ofCode f negative c).isNegative = negative := by
  rw [isNegative, toBits_ofCode h]
  cases negative <;> simp [h]

theorem toBits_eq (x : Binary f) :
    x.toBits = if x.isNegative then f.signWeight + x.code else x.code := by
  have hx := x.toBits_lt
  by_cases h : f.signWeight ≤ x.toBits
  · have hc : x.toBits % f.signWeight = x.toBits - f.signWeight := by
      rw [Nat.mod_eq_sub_mod h, Nat.mod_eq_of_lt (by omega)]
    simp only [isNegative, h, decide_true, if_true, code, hc]
    omega
  · simp only [isNegative, h, decide_false, code, Nat.mod_eq_of_lt (Nat.lt_of_not_le h)]
    rfl

theorem ofCode_code (x : Binary f) : ofCode f x.isNegative x.code = x := by
  apply ext_toBits
  rw [toBits_ofCode x.code_lt, x.toBits_eq]

theorem ext_code {x y : Binary f} (hs : x.isNegative = y.isNegative) (hc : x.code = y.code) :
    x = y := by
  rw [← x.ofCode_code, ← y.ofCode_code, hs, hc]

theorem isFinite_iff (x : Binary f) : x.isFinite ↔ x.code < f.infinityCode := by
  simp [isFinite]

theorem isNaN_eq_false_iff (x : Binary f) : x.isNaN = false ↔ x.code ≤ f.infinityCode := by
  simp [isNaN]

theorem isNaN_of_isFinite {x : Binary f} (h : x.isFinite) : x.isNaN = false := by
  rw [isFinite_iff] at h
  rw [isNaN_eq_false_iff]
  omega

theorem isInfinite_of_isFinite {x : Binary f} (h : x.isFinite) : x.isInfinite = false := by
  rw [isFinite_iff] at h
  simp only [isInfinite, decide_eq_false_iff_not]
  omega

theorem isFinite_of_class {x : Binary f} (hn : x.isNaN = false) (hi : x.isInfinite = false) :
    x.isFinite := by
  rw [isNaN_eq_false_iff] at hn
  simp only [isInfinite, decide_eq_false_iff_not] at hi
  rw [isFinite_iff]
  omega

theorem nan_or_infinite_or_finite (x : Binary f) : x.isNaN ∨ x.isInfinite ∨ x.isFinite := by
  simp only [isNaN, isInfinite, isFinite, decide_eq_true_eq]
  omega

theorem isNaN_of_isInfinite {x : Binary f} (h : x.isInfinite) : x.isNaN = false := by
  simp_all [isNaN, isInfinite]

theorem isFinite_of_isNaN {x : Binary f} (h : x.isNaN) : x.isFinite = false := by
  simp_all [isNaN, isFinite, Nat.le_of_lt]

theorem isFinite_of_isInfinite {x : Binary f} (h : x.isInfinite) : x.isFinite = false := by
  simp_all [isInfinite, isFinite]

@[simp]
theorem code_zero (negative : Bool) : (zero negative : Binary f).code = 0 :=
  code_ofCode (Nat.zero_lt_of_lt f.infinityCode_lt) negative

@[simp]
theorem isNegative_zero (negative : Bool) : (zero negative : Binary f).isNegative = negative :=
  isNegative_ofCode (Nat.zero_lt_of_lt f.infinityCode_lt) negative

@[simp]
theorem code_infinity (negative : Bool) :
    (infinity negative : Binary f).code = f.infinityCode :=
  code_ofCode f.infinityCode_lt negative

@[simp]
theorem isNegative_infinity (negative : Bool) :
    (infinity negative : Binary f).isNegative = negative :=
  isNegative_ofCode f.infinityCode_lt negative

@[simp]
theorem code_neg (x : Binary f) : x.neg.code = x.code :=
  code_ofCode x.code_lt _

@[simp]
theorem code_abs (x : Binary f) : x.abs.code = x.code :=
  code_ofCode x.code_lt _

@[simp]
theorem isNegative_abs (x : Binary f) : x.abs.isNegative = false :=
  isNegative_ofCode x.code_lt _

@[simp]
theorem isNaN_infinity (negative : Bool) : (infinity negative : Binary f).isNaN = false := by
  simp [isNaN_eq_false_iff]

@[simp]
theorem isNaN_zero (negative : Bool) : (zero negative : Binary f).isNaN = false := by
  simp [isNaN_eq_false_iff]

theorem isFinite_zero (negative : Bool) : (zero negative : Binary f).isFinite := by
  rw [isFinite_iff, code_zero]
  exact f.infinityCode_pos

@[simp]
theorem isNaN_abs (x : Binary f) : x.abs.isNaN = x.isNaN := by
  simp [isNaN]

@[simp]
theorem isFinite_neg (x : Binary f) : x.neg.isFinite = x.isFinite := by
  simp [isFinite]

@[simp]
theorem isInfinite_neg (x : Binary f) : x.neg.isInfinite = x.isInfinite := by
  simp [isInfinite]

theorem isNegative_neg (x : Binary f) : x.neg.isNegative = !x.isNegative :=
  isNegative_ofCode x.code_lt _

@[simp]
theorem isFinite_abs (x : Binary f) : x.abs.isFinite = x.isFinite := by
  simp [isFinite]

theorem isFinite_flush {x : Binary f} (hx : x.isFinite) : x.flush.isFinite := by
  rw [flush]
  split_ifs
  · rw [isFinite_iff, code_ofCode (Nat.zero_lt_of_lt f.infinityCode_lt)]
    exact f.infinityCode_pos
  · exact hx

end Binary

end Conformance
