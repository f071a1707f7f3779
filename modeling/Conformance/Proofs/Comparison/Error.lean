import Mathlib
import Conformance.Comparison.Verdict
import Conformance.Proofs.Binary.Magnitude
import Conformance.Proofs.Binary.Widening

namespace Conformance.Comparison

open Binary

variable {f : Format}

namespace Method

variable (power : Double → Double → Double) (m : Method) {e a : Binary f}

theorem distanceBy_isMagnitude (he : e.isFinite) (ha : a.isFinite) :
    (m.distanceBy power e a).IsMagnitude := by
  have hed := isFinite_convert f.embeds_double he
  have had := isFinite_convert f.embeds_double ha
  cases m with
  | decimal => exact isMagnitude_abs (isNaN_sub hed had)
  | ulps => exact isMagnitude_ofNat _
  | relative =>
    simp only [distanceBy]
    split_ifs with hz
    · have htwo : 2 ≤ 2 * Format.double.binade := by decide +kernel
      have habs : (a.convert .double).abs.isFinite := by simpa only [isFinite_abs] using had
      exact IsMagnitude.mul (isMagnitude_ofNat _) (isMagnitude_abs (isNaN_of_isFinite had))
        (isFinite_ofNat htwo) habs
    · have hz' : (e.convert .double).isZero = false := by
        rw [isZero_convert f.embeds_double he]
        simpa using hz
      exact isMagnitude_abs (isNaN_div (isNaN_sub hed had) hed hz')
  -- nothing has to be known of the powers: a difference that they leave without a value is infinite
  | image => exact isMagnitude_abs_or_infinity _

@[simp]
theorem errorBy_self (e : Binary f) : m.errorBy power e e = zero false := by
  rw [errorBy, if_pos rfl]

theorem errorBy_isMagnitude (he : e.isFinite) (ha : a.isFinite) :
    (m.errorBy power e a).IsMagnitude := by
  rw [errorBy]
  split_ifs
  · exact isMagnitude_zero
  · exact m.distanceBy_isMagnitude power he ha

theorem error_isMagnitude (he : e.isFinite) (ha : a.isFinite) : (m.error e a).IsMagnitude :=
  m.errorBy_isMagnitude pow he ha

theorem accepts_iff {m : Method} {x p : Double} :
    m.accepts x p ↔ (x.isNaN = false ∧ p.isNaN = false) ∧
      if m = .image then x.position < p.position else x.position ≤ p.position := by
  cases m <;> simp [accepts, lt, le]

/-- One tolerance separates the errors it accepts from all others. -/
theorem code_lt_of_accepts {x y p : Double} (hx : x.IsMagnitude) (hy : y.IsMagnitude)
    (hax : m.accepts x p) (hay : m.accepts y p = false) : x.code < y.code := by
  have hxp := hx.position
  have hyp := hy.position
  obtain ⟨⟨-, hp⟩, hax⟩ := accepts_iff.mp hax
  have hnot := mt accepts_iff.mpr (Bool.eq_false_iff.mp hay)
  rw [not_and] at hnot
  have hbeyond := hnot ⟨hy.isNaN, hp⟩
  by_cases hm : m = .image
  · rw [if_pos hm] at hax hbeyond
    omega
  · rw [if_neg hm] at hax hbeyond
    omega

end Method

theorem Judgement.clearCut_isMagnitude (passed : Bool) : (clearCut passed).error.IsMagnitude := by
  cases passed
  · exact isMagnitude_infinity
  · exact isMagnitude_zero

namespace Rule

variable (power : Double → Double → Double) (r : Rule) {e a : Binary f}

@[simp]
theorem finiteErrorBy_self (e : Binary f) : r.finiteErrorBy power e e = zero false := by
  simp [finiteErrorBy, smaller, lt]

theorem finiteErrorBy_isMagnitude (he : e.isFinite) (ha : a.isFinite) :
    (r.finiteErrorBy power e a).IsMagnitude := by
  unfold finiteErrorBy
  dsimp only
  split_ifs
  · exact (r.method.errorBy_isMagnitude power he ha).smaller
      (r.method.errorBy_isMagnitude power (isFinite_flush he) (isFinite_flush ha))
  · exact r.method.errorBy_isMagnitude power he ha

theorem finiteError_isMagnitude (he : e.isFinite) (ha : a.isFinite) :
    (r.finiteError e a).IsMagnitude :=
  r.finiteErrorBy_isMagnitude pow he ha

theorem judgeBy_of_isNaN (h : e.isNaN ∨ a.isNaN) :
    r.judgeBy power e a = .clearCut (r.matchesNaN e a) := by
  rw [judgeBy, if_pos (by simpa using h)]

theorem judgeBy_of_isInfinite (he : e.isNaN = false) (ha : a.isNaN = false)
    (h : e.isInfinite ∨ a.isInfinite) : r.judgeBy power e a = .clearCut (decide (e = a)) := by
  rw [judgeBy, if_neg (by simp [he, ha]), if_pos (by simpa using h)]

theorem judgeBy_of_isFinite (he : e.isFinite) (ha : a.isFinite) :
    r.judgeBy power e a = ⟨r.inRange a && r.method.accepts (r.finiteErrorBy power e a) r.precision,
      r.finiteErrorBy power e a⟩ := by
  simp [judgeBy, isNaN_of_isFinite he, isNaN_of_isFinite ha, isInfinite_of_isFinite he,
    isInfinite_of_isFinite ha]

theorem classes_cases (e a : Binary f) :
    (e.isNaN ∨ a.isNaN) ∨
      (e.isNaN = false ∧ a.isNaN = false ∧ (e.isInfinite ∨ a.isInfinite)) ∨
      (e.isFinite ∧ a.isFinite) := by
  by_cases hn : e.isNaN ∨ a.isNaN
  · exact .inl hn
  · simp only [not_or, Bool.not_eq_true] at hn
    by_cases hi : e.isInfinite ∨ a.isInfinite
    · exact .inr (.inl ⟨hn.1, hn.2, hi⟩)
    · simp only [not_or, Bool.not_eq_true] at hi
      exact .inr (.inr ⟨isFinite_of_class hn.1 hi.1, isFinite_of_class hn.2 hi.2⟩)

/-- Equal patterns match by class alone, or without an error. -/
theorem judgeBy_self (e : Binary f) :
    r.judgeBy power e e = .clearCut true ∨ r.judgeBy power e e =
      ⟨r.inRange e && r.method.accepts (zero false) r.precision, zero false⟩ := by
  obtain hn | ⟨he, -, hi⟩ | ⟨he, -⟩ := classes_cases e e
  · have hmatches : r.matchesNaN e e := by simpa [matchesNaN] using hn
    exact .inl (by rw [r.judgeBy_of_isNaN power hn, hmatches])
  · exact .inl (by rw [r.judgeBy_of_isInfinite power he he hi, decide_eq_true rfl])
  · exact .inr (by rw [r.judgeBy_of_isFinite power he he, finiteErrorBy_self])

/-- How a judgement comes about: by class alone, or by the error of two finite data. -/
theorem judgeBy_cases (e a : Binary f) :
    (∃ passed, r.judgeBy power e a = .clearCut passed) ∨
      (e.isFinite ∧ a.isFinite ∧ r.judgeBy power e a =
        ⟨r.inRange a && r.method.accepts (r.finiteErrorBy power e a) r.precision,
          r.finiteErrorBy power e a⟩) := by
  obtain hn | ⟨he, ha, hi⟩ | ⟨he, ha⟩ := classes_cases e a
  · exact .inl ⟨_, r.judgeBy_of_isNaN power hn⟩
  · exact .inl ⟨_, r.judgeBy_of_isInfinite power he ha hi⟩
  · exact .inr ⟨he, ha, r.judgeBy_of_isFinite power he ha⟩

theorem judgeBy_error_isMagnitude (e a : Binary f) : (r.judgeBy power e a).error.IsMagnitude := by
  obtain ⟨passed, h⟩ | ⟨he, ha, h⟩ := r.judgeBy_cases power e a
  · rw [h]
    exact Judgement.clearCut_isMagnitude passed
  · rw [h]
    exact r.finiteErrorBy_isMagnitude power he ha

theorem judge_of_isFinite (he : e.isFinite) (ha : a.isFinite) :
    r.judge e a =
      ⟨r.inRange a && r.method.accepts (r.finiteError e a) r.precision, r.finiteError e a⟩ :=
  r.judgeBy_of_isFinite pow he ha

/-- NaNs and infinities are judged by the method alone. -/
theorem judge_of_not_isFinite (h : ¬(e.isFinite ∧ a.isFinite)) :
    ∃ passed, ∀ s : Rule, s.method = r.method → s.judge e a = .clearCut passed := by
  obtain hn | ⟨he, ha, hi⟩ | hfinite := classes_cases e a
  · refine ⟨r.matchesNaN e a, fun s hm => ?_⟩
    rw [judge, s.judgeBy_of_isNaN pow hn, matchesNaN, matchesNaN, hm]
  · exact ⟨decide (e = a), fun s _ => s.judgeBy_of_isInfinite pow he ha hi⟩
  · exact absurd hfinite h

theorem judge_cases (e a : Binary f) :
    (∃ passed, r.judge e a = .clearCut passed) ∨
      (e.isFinite ∧ a.isFinite ∧ r.judge e a =
        ⟨r.inRange a && r.method.accepts (r.finiteError e a) r.precision, r.finiteError e a⟩) :=
  r.judgeBy_cases pow e a

theorem judge_error_isMagnitude (e a : Binary f) : (r.judge e a).error.IsMagnitude :=
  r.judgeBy_error_isMagnitude pow e a

/-- A lane that passes never deviates more than one that fails. -/
theorem judge_error_le (hmin : r.minimum = none) (hmax : r.maximum = none) {e' a' : Binary f}
    (hp : (r.judge e a).passed) (hf : (r.judge e' a').passed = false) :
    (r.judge e a).error.code ≤ (r.judge e' a').error.code := by
  have hle := (r.judge_error_isMagnitude e a).code_le
  obtain ⟨passed, h⟩ | ⟨he, ha, h⟩ := r.judge_cases e a
  · rw [h] at hp ⊢
    obtain rfl : passed = true := hp
    simp [Judgement.clearCut]
  · obtain ⟨passed, h'⟩ | ⟨he', ha', h'⟩ := r.judge_cases e' a'
    · rw [h'] at hf ⊢
      obtain rfl : passed = false := hf
      simpa [Judgement.clearCut] using hle
    · rw [h] at hp ⊢
      rw [h'] at hf ⊢
      simp only [inRange, hmin, hmax, Option.all_none, Bool.true_and] at hp hf
      exact (r.method.code_lt_of_accepts (r.finiteError_isMagnitude he ha)
        (r.finiteError_isMagnitude he' ha') hp hf).le

end Rule

namespace Deviation

/-- The running maximum is at least its start and every error, and is one of them. -/
theorem foldl_larger {errors : List Double} (h : ∀ e ∈ errors, e.IsMagnitude) {acc : Double}
    (hacc : acc.IsMagnitude) :
    (errors.foldl Binary.larger acc).IsMagnitude ∧
      acc.code ≤ (errors.foldl Binary.larger acc).code ∧
      (∀ e ∈ errors, e.code ≤ (errors.foldl Binary.larger acc).code) ∧
      ((errors.foldl Binary.larger acc).code = acc.code ∨
        ∃ e ∈ errors, e.code = (errors.foldl Binary.larger acc).code) := by
  induction errors generalizing acc with
  | nil => exact ⟨hacc, le_refl _, by simp, .inl rfl⟩
  | cons e rest ih =>
    have he := h e (by simp)
    obtain ⟨hm, hle, hall, hcases⟩ := ih (fun x hx => h x (by simp [hx])) (hacc.larger he)
    rw [hacc.code_larger he] at hle hcases
    rw [List.foldl_cons]
    refine ⟨hm, by omega, ?_, ?_⟩
    · intro x hx
      obtain rfl | hx := List.mem_cons.mp hx
      · omega
      · exact hall x hx
    · obtain hc | ⟨x, hx, hc⟩ := hcases
      · obtain hl | hl := Nat.le_total e.code acc.code
        · exact .inl (by omega)
        · exact .inr ⟨e, by simp, by omega⟩
      · exact .inr ⟨x, by simp [hx], hc⟩

variable {errors : List Double} (h : ∀ e ∈ errors, e.IsMagnitude)

include h

theorem largest_isMagnitude : (largest errors).IsMagnitude := (foldl_larger h isMagnitude_zero).1

theorem code_le_largest {e : Double} (he : e ∈ errors) : e.code ≤ (largest errors).code :=
  (foldl_larger h isMagnitude_zero).2.2.1 e he

theorem code_largest_cases :
    (largest errors).code = 0 ∨ ∃ e ∈ errors, e.code = (largest errors).code := by
  have hc := (foldl_larger h isMagnitude_zero).2.2.2
  rwa [code_zero] at hc

end Deviation

namespace Verdict

theorem ofJudgements_isMagnitude {js : List Judgement} (h : ∀ j ∈ js, j.error.IsMagnitude) :
    (ofJudgements js).deviation.magnitude.IsMagnitude := by
  have hm : ∀ e ∈ js.map Judgement.error, e.IsMagnitude := by
    intro e he
    obtain ⟨j, hj, rfl⟩ := List.mem_map.mp he
    exact h j hj
  match js with
  | [] => exact Deviation.largest_isMagnitude hm
  | [j] => exact h j (by simp)
  | j :: k :: rest => exact Deviation.largest_isMagnitude hm

theorem exact_isMagnitude (expected actual : Value) :
    (Verdict.exact expected actual).deviation.magnitude.IsMagnitude := by
  apply Deviation.largest_isMagnitude
  intro e he
  obtain ⟨lane, -, rfl⟩ := List.mem_map.mp he
  exact isMagnitude_ofNat _

theorem judge_isMagnitude (r : Rule) (expected actual : Value) :
    (judge r expected actual).deviation.magnitude.IsMagnitude := by
  rw [judge]
  split
  · apply ofJudgements_isMagnitude
    intro j hj
    obtain ⟨p, -, rfl⟩ := List.mem_map.mp hj
    exact r.judge_error_isMagnitude _ _
  · exact exact_isMagnitude expected actual

end Verdict

end Conformance.Comparison
