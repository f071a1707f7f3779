import Mathlib
import Conformance.Proofs.Binary.Magnitude

namespace Conformance

theorem roundHalfEven_mono (den : Nat) {m n : Nat} (h : m ≤ n) :
    roundHalfEven m den ≤ roundHalfEven n den := by
  have hq : m / den ≤ n / den := Nat.div_le_div_right h
  have hm := Nat.div_add_mod m den
  have hn := Nat.div_add_mod n den
  unfold roundHalfEven
  dsimp only
  obtain hlt | heq := Nat.lt_or_eq_of_le hq
  · split <;> split <;> omega
  · rw [heq] at hm ⊢
    split <;> split <;> omega

namespace Format

variable {f : Format}

theorem excess_mono {m n : Nat} (h : m ≤ n) : f.excess m ≤ f.excess n := by
  apply excess_le
  exact h.trans_lt (lt_of_excess n)

theorem unboundedCode_mono {m n den : Nat} (hd : 0 < den) (h : m ≤ n) :
    f.unboundedCode m den ≤ f.unboundedCode n den := by
  have he : f.excess (m / den) ≤ f.excess (n / den) := excess_mono (Nat.div_le_div_right h)
  obtain ⟨hm, -⟩ := significand_bounds (f := f) m hd
  obtain ⟨-, hn⟩ := significand_bounds (f := f) n hd
  simp only [unboundedCode, Nat.shiftLeft_eq]
  obtain hlt | heq := Nat.lt_or_eq_of_le he
  · -- the significand of the larger one starts where that of the smaller one has to end
    have hn' := hn.resolve_left (by omega)
    have hstep : (f.excess (m / den) + 1) * f.binade ≤ f.excess (n / den) * f.binade :=
      Nat.mul_le_mul_right _ hlt
    rw [Nat.succ_mul] at hstep
    omega
  · rw [heq]
    exact Nat.add_le_add_left (roundHalfEven_mono _ h) _

theorem nearestCode_mono {m n den : Nat} (hd : 0 < den) (h : m ≤ n) :
    f.nearestCode m den ≤ f.nearestCode n den := by
  rw [nearestCode_eq, nearestCode_eq]
  exact min_le_min_right _ (unboundedCode_mono hd h)

theorem two_le_unity : 2 ≤ f.unity := by
  cases f <;> decide

end Format

namespace Binary

variable {f : Format}

theorem code_ofNat_mono {m n : Nat} (h : m ≤ n) : (ofNat f m).code ≤ (ofNat f n).code := by
  rw [code_ofNat_eq, code_ofNat_eq]
  exact Format.nearestCode_mono Nat.one_pos (Nat.mul_le_mul_right _ h)

theorem code_ofNat_lt {m n : Nat} (h : m < n) (hm : m < 2 * f.binade) :
    (ofNat f m).code < (ofNat f n).code := by
  have hnext : (ofNat f m).code < (ofNat f (m + 1)).code := by
    apply f.units_strictMono.lt_iff_lt.mp
    rw [units_ofNat hm.le, units_ofNat hm]
    exact Nat.mul_lt_mul_of_pos_right m.lt_succ_self f.unity_pos
  exact hnext.trans_le (code_ofNat_mono h)

theorem code_ofNat_eq_zero_iff {n : Nat} : (ofNat f n).code = 0 ↔ n = 0 := by
  have hb := f.binade_pos
  have h0 : (ofNat f 0).code = 0 := by
    apply f.units_strictMono.injective
    rw [units_ofNat (Nat.zero_le _), Nat.zero_mul, f.units_zero]
  constructor
  · intro h
    by_contra hn
    have hlt : (ofNat f 0).code < (ofNat f n).code := code_ofNat_lt (by omega) (by omega)
    omega
  · rintro rfl
    exact h0

theorem units_ofNat_error {n : Nat} (h : (ofNat f n).isFinite) :
    2 * f.units (ofNat f n).code ≤ 2 * (n * f.unity) + 2 ^ f.excess (n * f.unity) ∧
      2 * (n * f.unity) ≤ 2 * f.units (ofNat f n).code + 2 ^ f.excess (n * f.unity) := by
  have hc : (ofNat f n).code = f.unboundedCode (n * f.unity) 1 := by
    have hlt := (isFinite_iff _).mp h
    rw [code_ofNat_eq, Format.nearestCode_eq] at hlt ⊢
    omega
  have herror := Format.units_unboundedCode_error (f := f) (n * f.unity) Nat.one_pos
  rw [← hc] at herror
  simpa only [Nat.mul_one, Nat.one_mul, Nat.div_one] using herror

/-- Whole numbers that are rounded to one number differ by at most one part in `f.binade`. -/
theorem shortfall_of_code_eq {m n : Nat} (hm : (ofNat f m).isFinite)
    (h : (ofNat f m).code = (ofNat f n).code) : f.binade * (m - n) ≤ m := by
  obtain hle | hlt := le_or_gt m n
  · rw [Nat.sub_eq_zero_of_le hle]
    omega
  have hu := f.unity_pos
  have hn : (ofNat f n).isFinite := by
    rw [isFinite_iff, ← h]
    exact (isFinite_iff _).mp hm
  have hem := (units_ofNat_error hm).2
  have hen := (units_ofNat_error hn).1
  rw [h] at hem
  have hmono : f.excess (n * f.unity) ≤ f.excess (m * f.unity) :=
    Format.excess_mono (Nat.mul_le_mul_right _ hlt.le)
  have hpow : 2 ^ f.excess (n * f.unity) ≤ 2 ^ f.excess (m * f.unity) :=
    Nat.pow_le_pow_right (by omega) hmono
  have hsub : (m - n) * f.unity + n * f.unity = m * f.unity := by
    rw [← Nat.add_mul, Nat.sub_add_cancel hlt.le]
  have hgap : (m - n) * f.unity ≤ 2 ^ f.excess (m * f.unity) := by omega
  obtain h0 | hpos := Nat.eq_zero_or_pos (f.excess (m * f.unity))
  · -- nothing is shifted out, so that the two would be equal
    have hone : 1 * f.unity ≤ (m - n) * f.unity := Nat.mul_le_mul_right _ (by omega)
    have htwo := f.two_le_unity
    rw [h0, Nat.pow_zero] at hgap
    omega
  · apply Nat.le_of_mul_le_mul_right _ hu
    calc f.binade * (m - n) * f.unity = f.binade * ((m - n) * f.unity) := Nat.mul_assoc ..
      _ ≤ f.binade * 2 ^ f.excess (m * f.unity) := Nat.mul_le_mul_left _ hgap
      _ ≤ m * f.unity := Format.le_of_excess_pos hpos

theorem isFinite_ofNat_double {n : Nat} (hn : n ≤ 2 ^ 128) : (ofNat .double n).isFinite := by
  have hr : Format.double.Represents (2 ^ 128 * Format.double.unity) := by
    refine ⟨1, 128 + Format.double.scale, by decide, by decide, ?_⟩
    rw [Format.unity_eq, Nat.pow_add, Nat.one_mul]
  exact isFinite_ofNat_of_le hn hr

end Binary

end Conformance
