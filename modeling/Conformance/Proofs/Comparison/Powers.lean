import Mathlib
import Conformance.Comparison.Rule
import Conformance.Proofs.Comparison.Error

namespace Conformance

namespace Binary

variable {f : Format} {x y : Binary f}

theorem le_eq_not_lt (hx : x.isNaN = false) (hy : y.isNaN = false) : x.le y = !y.lt x := by
  rw [Bool.eq_iff_iff]
  simp [le, lt, hx, hy]

theorem lt_eq_not_le (hx : x.isNaN = false) (hy : y.isNaN = false) : x.lt y = !y.le x := by
  rw [le_eq_not_lt hy hx, Bool.not_not]

end Binary

namespace Comparison

open Binary

variable {f : Format} (power : Double → Double → Double) (r : Rule) {e a : Binary f}

namespace Rule

theorem judgeBy_error_self (e : Binary f) : (r.judgeBy power e e).error = .zero false := by
  obtain h | h := r.judgeBy_self power e
  · rw [h]
    rfl
  · rw [h]

theorem judgeBy_of_oneNaN (h : e.isNaN ≠ a.isNaN) :
    r.judgeBy power e a = ⟨false, .infinity false⟩ := by
  obtain ⟨hsome, hnotBoth⟩ : (e.isNaN ∨ a.isNaN) ∧ (e.isNaN && a.isNaN) = false := by
    cases he : e.isNaN <;> cases ha : a.isNaN <;> simp_all
  rw [r.judgeBy_of_isNaN power hsome, matchesNaN, hnotBoth, Bool.false_and]
  rfl

theorem judgeBy_of_infinity_missed (hi : e.isInfinite ∨ a.isInfinite) (hne : e ≠ a) :
    r.judgeBy power e a = ⟨false, .infinity false⟩ := by
  by_cases hn : e.isNaN = a.isNaN
  · have hnone : a.isNaN = false := by
      obtain h | h := hi
      · rw [← hn, isNaN_of_isInfinite h]
      · exact isNaN_of_isInfinite h
    rw [r.judgeBy_of_isInfinite power (hn.trans hnone) hnone hi, decide_eq_false hne]
    rfl
  · exact r.judgeBy_of_oneNaN power hn

/-- Whatever the rule, the data and the powers of the platform, the error of a lane is not NaN and
has no sign: it is zero for equal patterns and infinite where a NaN or an infinity is missed, and
stands at, above or below any number. -/
theorem errors_comparable (e a : Binary f) :
    let error := (r.judgeBy power e a).error
    r.judgeBy pow e a = r.judge e a ∧
    error.isNaN = false ∧ error.isNegative = false ∧
    (e = a → error = .zero false) ∧
    (e.isNaN ≠ a.isNaN → r.judgeBy power e a = ⟨false, .infinity false⟩) ∧
    (e.isInfinite ∨ a.isInfinite → e ≠ a → r.judgeBy power e a = ⟨false, .infinity false⟩) ∧
    ∀ y : Double, y.isNaN = false → error.le y = !y.lt error ∧ error.lt y = !y.le error := by
  intro error
  have hm := r.judgeBy_error_isMagnitude power e a
  refine ⟨rfl, hm.isNaN, hm.isNegative, ?_, r.judgeBy_of_oneNaN power,
    r.judgeBy_of_infinity_missed power, fun y hy => ?_⟩
  · rintro rfl
    exact r.judgeBy_error_self power e
  · exact ⟨le_eq_not_lt hm.isNaN hy, lt_eq_not_le hm.isNaN hy⟩

/-- Powers without a value leave two intensities infinitely far apart. -/
example :
    let r : Rule := ⟨.image, ofNat .double 1, false, none, none⟩
    r.judgeBy (fun _ _ => invalid) (ofNat .half 2) (ofNat .half 3) = ⟨false, infinity false⟩ := by
  decide +kernel

end Rule

end Comparison

end Conformance
