import Mathlib
import Conformance.Proofs.Binary.Key
import Conformance.Proofs.Binary.Nearest
import Conformance.Proofs.Comparison.Error

namespace Conformance

namespace Binary

variable {f : Format}

theorem isFinite_ofNat_ulps (x y : Binary f) : (ofNat .double (x.ulps y)).isFinite := by
  have hlt := natAbs_key_sub_lt x y
  have hwidth : 2 ^ f.width ≤ 2 ^ 128 := by cases f <;> decide
  exact isFinite_ofNat_double (by rw [ulps_eq]; omega)

end Binary

namespace Comparison

open Binary

variable {f : Format} {e a : Binary f}

/-- Equal patterns are no exception: their distance is zero. -/
theorem Method.errorBy_ulps (power : Double → Double → Double) (e a : Binary f) :
    Method.ulps.errorBy power e a = Binary.ofNat .double (e.ulps a) := by
  rw [errorBy]
  split_ifs with h
  · have hzero : (Binary.ofNat .double 0).code = 0 := code_ofNat_eq_zero_iff.mpr rfl
    rw [h, ulps_eq, sub_self, Int.natAbs_zero]
    exact isMagnitude_zero.eq_of_code (isMagnitude_ofNat 0) (by rw [code_zero, hzero])
  · rfl

namespace Rule

variable {r : Rule}

theorem judge_ulps (hm : r.method = .ulps) (hflush : r.flush = false) (hmin : r.minimum = none)
    (hmax : r.maximum = none) (he : e.isFinite) (ha : a.isFinite) :
    r.judge e a = ⟨(ofNat .double (e.ulps a)).le r.precision, ofNat .double (e.ulps a)⟩ := by
  have herror : r.finiteError e a = ofNat .double (e.ulps a) := by
    simp [finiteError, finiteErrorBy, hflush, hm, Method.errorBy_ulps]
  have hrange : r.inRange a := by simp [inRange, hmin, hmax]
  simp [judge_of_isFinite _ he ha, herror, hrange, hm, Method.accepts]

/-- The error is the distance, rounded to a double, and a tolerance below the distance is met by an
error that was rounded down to it. -/
theorem ulps_judged (hm : r.method = .ulps) (hflush : r.flush = false) (hmin : r.minimum = none)
    (hmax : r.maximum = none) (hp : r.precision.isFinite) (he : e.isFinite) (ha : a.isFinite) :
    let d := (e.key - a.key).natAbs
    let j := r.judge e a
    e.ulps a = d ∧ j.error.IsNearest d ∧
      (j.passed ↔ (d : ℚ) ≤ r.precision.value ∨ r.precision.value = j.error.value) ∧
      ((∃ y : Double, y.isFinite ∧ y.value = d) →
        j.error.value = d ∧ (j.passed ↔ (d : ℚ) ≤ r.precision.value)) ∧
      (f ≠ .double ∨ d ≤ 2 ^ 53 → ∃ y : Double, y.isFinite ∧ y.value = d) := by
  intro d j
  have hd : e.ulps a = d := ulps_eq e a
  have hfinite : (ofNat .double d).isFinite := hd ▸ isFinite_ofNat_ulps e a
  have hj : j = ⟨(ofNat .double d).le r.precision, ofNat .double d⟩ :=
    hd ▸ judge_ulps hm hflush hmin hmax he ha
  have hnearest : j.error.IsNearest d := hj ▸ isNearest_ofNat hfinite
  have hpassed : j.passed ↔ j.error.value ≤ r.precision.value := by
    rw [hj]
    exact le_iff_value_le hfinite hp
  refine ⟨hd, hnearest, hpassed.trans (hnearest.value_le_iff hp), ?_, ?_⟩
  · rintro ⟨y, hy, hvalue⟩
    have herror := hnearest.value_eq hy hvalue
    exact ⟨herror, by rw [hpassed, herror]⟩
  · intro hsmall
    have hle : d ≤ 2 * Format.double.binade := by
      have hbinade : Format.double.binade = 2 ^ 52 := Format.binade_eq _
      obtain hf | hle := hsmall
      · have hlt : d < 2 ^ f.width := natAbs_key_sub_lt e a
        have hwidth : 2 ^ f.width ≤ 2 ^ 32 := by
          cases f with
          | half | single => decide
          | double => exact absurd rfl hf
        omega
      · omega
    exact ⟨ofNat .double d, hfinite, value_ofNat hle⟩

/-- The greatest half is as far from the least one as two halves can be. -/
theorem ulps_judged_extremes :
    let r : Rule := ⟨.ulps, ofNat .double 63486, false, none, none⟩
    let e : Half := greatest .half
    let a : Half := ofCode .half true (Format.half.infinityCode - 1)
    r.precision.isFinite ∧ e.isFinite ∧ a.isFinite ∧ (e.key - a.key).natAbs = 63487 ∧
      (r.judge e a).error.value = 63487 ∧ ¬ (r.judge e a).passed := by
  intro r e a
  have hp : r.precision.isFinite := by decide +kernel
  have he : e.isFinite := by decide +kernel
  have ha : a.isFinite := by decide +kernel
  have hd : (e.key - a.key).natAbs = 63487 := by decide +kernel
  obtain ⟨-, -, -, hexact, hsmall⟩ := ulps_judged (r := r) rfl rfl rfl rfl hp he ha
  obtain ⟨herror, hpassed⟩ := hexact (hsmall (.inl (by decide)))
  have hvalue : r.precision.value = 63486 := value_ofNat (by decide +kernel)
  rw [hd] at herror hpassed
  refine ⟨hp, he, ha, hd, herror, ?_⟩
  rw [hpassed, hvalue]
  norm_num

/-- A double that is one step further away than tolerated passes, and the step is not reported. -/
theorem step_beyond_tolerance_passes :
    let r : Rule := ⟨.ulps, ofNat .double (2 ^ 53), false, none, none⟩
    let e : Double := zero false
    let a : Double := ofBits .double (2 ^ 53 + 1)
    e.isFinite ∧ a.isFinite ∧ r.precision.isFinite ∧ 0 ≤ r.precision.value ∧
      r.precision.value < e.ulps a ∧ (r.judge e a).passed ∧
        (r.judge e a).error.value ≠ e.ulps a := by
  intro r e a
  have hd : e.ulps a = 2 ^ 53 + 1 := by decide +kernel
  have hvalue : r.precision.value = (2 ^ 53 : ℕ) := value_ofNat (by decide +kernel)
  have herror : (r.judge e a).error = r.precision := by decide +kernel
  rw [herror, hd, hvalue]
  refine ⟨by decide +kernel, by decide +kernel, by decide +kernel, by positivity,
    ?_, by decide +kernel, ?_⟩
  · norm_num
  · norm_num

end Rule

end Comparison

end Conformance
