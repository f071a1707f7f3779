import Mathlib
import Conformance.Proofs.Binary.Operations

namespace Conformance

namespace Format

/-- Every finite number of one format is a number of the other. -/
structure Embeds (f g : Format) : Prop where
  binade : f.binade ≤ g.binade
  scale : f.scale ≤ g.scale
  shift : f.maxShift + (g.scale - f.scale) ≤ g.maxShift

theorem embeds_double (f : Format) : f.Embeds .double := by
  cases f <;> constructor <;> decide

theorem half_embeds_single : half.Embeds .single := by
  constructor <;> decide

variable {f g : Format}

theorem represents_widened (h : f.Embeds g) {n : Nat} (hn : f.Represents n) :
    g.Represents (n * 2 ^ (g.scale - f.scale)) := by
  obtain ⟨s, t, hs, ht, rfl⟩ := hn
  have hb := h.binade
  have hm := h.shift
  exact ⟨s, t + (g.scale - f.scale), by omega, by omega, by rw [Nat.mul_assoc, Nat.pow_add]⟩

theorem unity_widened (h : f.Embeds g) : g.unity = 2 ^ (g.scale - f.scale) * f.unity := by
  rw [g.unity_eq, f.unity_eq, ← Nat.pow_add, Nat.sub_add_cancel h.scale]

end Format

namespace Binary

variable {f g : Format}

theorem convert_of_isFinite (g : Format) {x : Binary f} (hx : x.isFinite) :
    x.convert g = nearest g x.isNegative (f.units x.code * g.unity) f.unity := by
  simp [convert, isNaN_of_isFinite hx, isInfinite_of_isFinite hx]

@[simp]
theorem isNegative_convert (g : Format) {x : Binary f} (hx : x.isNaN = false) :
    (x.convert g).isNegative = x.isNegative := by
  rw [convert]
  by_cases hi : x.isInfinite <;> simp [hx, hi]

theorem widened_num (h : f.Embeds g) (n : Nat) :
    n * g.unity = n * 2 ^ (g.scale - f.scale) * f.unity := by
  rw [Format.unity_widened h, Nat.mul_assoc]

theorem units_convert (h : f.Embeds g) {x : Binary f} (hx : x.isFinite) :
    g.units (x.convert g).code = f.units x.code * 2 ^ (g.scale - f.scale) := by
  have hr := Format.represents_widened h (Format.represents_units (x.isFinite_iff.mp hx))
  rw [convert_of_isFinite g hx, code_nearest, widened_num h,
    Format.units_nearestCode hr f.unity_pos]

theorem isFinite_convert (h : f.Embeds g) {x : Binary f} (hx : x.isFinite) :
    (x.convert g).isFinite := by
  have hr := Format.represents_widened h (Format.represents_units (x.isFinite_iff.mp hx))
  rw [isFinite_iff, convert_of_isFinite g hx, code_nearest, widened_num h]
  exact Format.nearestCode_lt hr f.unity_pos (le_refl _)

theorem isZero_convert (h : f.Embeds g) {x : Binary f} (hx : x.isFinite) :
    (x.convert g).isZero = x.isZero := by
  have hu := units_convert h hx
  have hp : 0 < 2 ^ (g.scale - f.scale) := Nat.two_pow_pos _
  have hiff : (x.convert g).code = 0 ↔ x.code = 0 := by
    rw [← g.units_eq_zero_iff, hu, Nat.mul_eq_zero, f.units_eq_zero_iff, or_iff_left hp.ne']
  simp only [isZero, hiff]

theorem exists_binade_eq_mul (h : f.Embeds g) : ∃ k, 0 < k ∧ g.binade = f.binade * k := by
  have hle := h.binade
  rw [f.binade_eq, g.binade_eq, Nat.pow_le_pow_iff_right (by norm_num)] at hle
  refine ⟨2 ^ (g.fractionBits - f.fractionBits), Nat.two_pow_pos _, ?_⟩
  rw [f.binade_eq, g.binade_eq, ← Nat.pow_add, Nat.add_sub_cancel' hle]

theorem movedFraction_widened {n k : Nat} (hk : g.binade = f.binade * k) (hn : 0 < n * k) :
    movedFraction f g n = n * k := by
  have hq : n * (f.binade * k) / f.binade = n * k := by
    rw [Nat.mul_left_comm, Nat.mul_div_cancel_left _ f.binade_pos]
  rw [movedFraction, hk, hq]
  omega

theorem movedFraction_narrowed {n k : Nat} (hk : g.binade = f.binade * k) (hk0 : 0 < k)
    (hn : 0 < n) :
    movedFraction g f (n * k) = n := by
  have hq : n * k * f.binade / (f.binade * k) = n := by
    rw [Nat.mul_assoc, Nat.mul_comm k, Nat.mul_div_cancel _ (Nat.mul_pos f.binade_pos hk0)]
  rw [movedFraction, hk, hq]
  omega

theorem convert_of_isNaN (g : Format) {x : Binary f} (hx : x.isNaN) :
    x.convert g =
      ofCode g x.isNegative (g.infinityCode + movedFraction f g (x.code - f.infinityCode)) := by
  simp [convert, hx]

theorem convert_convert_of_isNaN (h : f.Embeds g) {x : Binary f} (hx : x.isNaN) :
    (x.convert g).convert f = x := by
  obtain ⟨k, hk0, hk⟩ := exists_binade_eq_mul h
  have hnan : f.infinityCode < x.code := by simpa [isNaN] using hx
  have hlt := x.code_lt
  rw [← f.infinityCode_add_binade] at hlt
  set n := x.code - f.infinityCode with hn
  have hnk : 0 < n * k := Nat.mul_pos (by omega) hk0
  have hfits : g.infinityCode + n * k < g.signWeight := by
    have hmul : n * k < f.binade * k := Nat.mul_lt_mul_of_pos_right (by omega) hk0
    rw [← g.infinityCode_add_binade, hk]
    omega
  have hy : x.convert g = ofCode g x.isNegative (g.infinityCode + n * k) := by
    rw [convert_of_isNaN g hx, ← hn, movedFraction_widened hk hnk]
  have hyn : (x.convert g).isNaN := by
    rw [hy, isNaN, code_ofCode hfits, decide_eq_true_eq]
    omega
  have hback : f.infinityCode + n = x.code := by omega
  rw [convert_of_isNaN f hyn, hy, code_ofCode hfits, isNegative_ofCode hfits,
    Nat.add_sub_cancel_left, movedFraction_narrowed hk hk0 (by omega), hback, ofCode_code]

theorem convert_of_code (g : Format) {x : Binary f} (hx : x.code = f.infinityCode) :
    x.convert g = infinity x.isNegative := by
  simp [convert, isNaN, isInfinite, hx]

theorem convert_convert_of_code {x : Binary f} (hx : x.code = f.infinityCode) :
    (x.convert g).convert f = x := by
  rw [convert_of_code g hx, convert_of_code f (code_infinity _), isNegative_infinity]
  apply ext_code
  · simp
  · rw [code_infinity, hx]

/-- Narrowing gives back what was widened, the payload of a NaN included. -/
theorem convert_convert (h : f.Embeds g) (x : Binary f) : (x.convert g).convert f = x := by
  by_cases hn : x.isNaN
  · exact convert_convert_of_isNaN h hn
  by_cases hi : x.isInfinite
  · exact convert_convert_of_code (by simpa [isInfinite] using hi)
  have hx := isFinite_of_class (by simpa using hn) (by simpa using hi)
  rw [convert_of_isFinite f (isFinite_convert h hx), units_convert h hx,
    isNegative_convert g (isNaN_of_isFinite hx), ← widened_num h]
  apply ext_code
  · simp
  · rw [code_nearest, Format.nearestCode_units ((isFinite_iff x).mp hx) g.unity_pos]

end Binary

end Conformance
