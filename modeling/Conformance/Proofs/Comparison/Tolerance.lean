import Mathlib
import Conformance.Proofs.Comparison.Lanes
import Conformance.Proofs.Comparison.Limits
import Conformance.Proofs.Comparison.Stream

namespace Conformance.Comparison

open Binary

variable {f : Format}

namespace Method

variable {m : Method} {x p q : Double}

theorem accepts_mono (h : p.le q) (hx : m.accepts x p) : m.accepts x q := by
  simp only [le, Bool.and_eq_true, Bool.not_eq_true', decide_eq_true_eq] at h
  obtain ⟨⟨hxn, -⟩, hxp⟩ := accepts_iff.mp hx
  refine accepts_iff.mpr ⟨⟨hxn, h.1.2⟩, ?_⟩
  by_cases hm : m = .image
  · rw [if_pos hm] at hxp ⊢
    omega
  · rw [if_neg hm] at hxp ⊢
    omega

/-- A finite tolerance accepts no infinite error. -/
theorem code_lt_infinity_of_accepts (hx : x.IsMagnitude) (hp : p.isFinite) (h : m.accepts x p) :
    x.code < Format.double.infinityCode := by
  have hb := (position_bounds_of_isFinite hp).2
  have hxp := hx.position
  obtain ⟨-, h⟩ := accepts_iff.mp h
  split at h <;> omega

end Method

namespace Rule

variable {r s : Rule} {e a : Binary f}

/-- Rules of one method, of which the second accepts whatever the first does. -/
structure Loosens (r s : Rule) : Prop where
  method : s.method = r.method
  flush : s.flush = r.flush
  precision : r.precision.le s.precision
  inRange : ∀ {f : Format} {a : Binary f}, a.isFinite → r.inRange a → s.inRange a

namespace Loosens

theorem finiteError (h : r.Loosens s) (e a : Binary f) : s.finiteError e a = r.finiteError e a := by
  simp only [Rule.finiteError, finiteErrorBy, h.method, h.flush]

theorem error (h : r.Loosens s) (e a : Binary f) : (s.judge e a).error = (r.judge e a).error := by
  by_cases hfinite : e.isFinite ∧ a.isFinite
  · rw [judge_of_isFinite _ hfinite.1 hfinite.2, judge_of_isFinite _ hfinite.1 hfinite.2]
    exact h.finiteError e a
  · obtain ⟨passed, hjudge⟩ := r.judge_of_not_isFinite hfinite
    rw [hjudge s h.method, hjudge r rfl]

theorem passed (h : r.Loosens s) (hp : (r.judge e a).passed) : (s.judge e a).passed := by
  by_cases hfinite : e.isFinite ∧ a.isFinite
  · rw [judge_of_isFinite _ hfinite.1 hfinite.2, Bool.and_eq_true] at hp ⊢
    rw [h.finiteError, h.method]
    exact ⟨h.inRange hfinite.2 hp.1, Method.accepts_mono h.precision hp.2⟩
  · obtain ⟨passed, hjudge⟩ := r.judge_of_not_isFinite hfinite
    rw [hjudge s h.method]
    rwa [hjudge r rfl] at hp

end Loosens

theorem error_of_passed (hp : (r.judge e a).passed) :
    (r.judge e a).error.code = 0 ∨ r.method.accepts (r.judge e a).error r.precision := by
  obtain ⟨passed, h⟩ | ⟨-, -, h⟩ := r.judge_cases e a
  · rw [h] at hp ⊢
    obtain rfl : passed = true := hp
    exact .inl (by simp [Judgement.clearCut])
  · rw [h, Bool.and_eq_true] at hp
    rw [h]
    exact .inr hp.2

theorem Loosens.accepts_of_forgiven (h : r.Loosens s) (hf : (r.judge e a).passed = false)
    (hp : (s.judge e a).passed) : s.method.accepts (s.judge e a).error s.precision := by
  by_cases hfinite : e.isFinite ∧ a.isFinite
  · rw [judge_of_isFinite _ hfinite.1 hfinite.2, Bool.and_eq_true] at hp
    rw [judge_of_isFinite _ hfinite.1 hfinite.2]
    exact hp.2
  · obtain ⟨passed, hjudge⟩ := r.judge_of_not_isFinite hfinite
    rw [hjudge r rfl] at hf
    rw [hjudge s h.method] at hp
    exact absurd hp (Bool.eq_false_iff.mp hf)

/-- Without limits a failure deviates by more than any error that is accepted. -/
theorem code_lt_of_failed (hmin : r.minimum = none) (hmax : r.maximum = none)
    (hprec : r.precision.isFinite) {x : Double} (hx : x.IsMagnitude)
    (hacc : r.method.accepts x r.precision) (hf : (r.judge e a).passed = false) :
    x.code < (r.judge e a).error.code := by
  obtain ⟨passed, h⟩ | ⟨he, ha, h⟩ := r.judge_cases e a
  · rw [h] at hf ⊢
    obtain rfl : passed = false := hf
    simpa [Judgement.clearCut] using Method.code_lt_infinity_of_accepts hx hprec hacc
  · rw [h] at hf ⊢
    simp only [inRange, hmin, hmax, Option.all_none, Bool.true_and] at hf
    exact r.method.code_lt_of_accepts hx (r.finiteError_isMagnitude he ha) hacc hf

end Rule

namespace Verdict

variable {js : List Judgement}

theorem code_ofJudgements_lt (hm : ∀ j ∈ js, j.error.IsMagnitude) {n : Nat} (hn : 0 < n)
    (hlt : ∀ j ∈ js, j.error.code < n) : (ofJudgements js).code < n := by
  have hme : ∀ e ∈ js.map Judgement.error, e.IsMagnitude := by
    simpa using hm
  have hlargest : (Deviation.largest (js.map Judgement.error)).code < n := by
    obtain h0 | ⟨e, he, hc⟩ := Deviation.code_largest_cases hme
    · omega
    · obtain ⟨j, hj, rfl⟩ := List.mem_map.mp he
      exact hc ▸ hlt j hj
  match js with
  | [] => exact hlargest
  | [j] => exact hlt j (by simp)
  | _ :: _ :: _ => exact hlargest

variable {r s : Rule} {e a e' a' : Value}

def judgements (f : Format) (r : Rule) (e a : Value) : List Judgement :=
  (e.lanes.zip a.lanes).map fun p => r.judge (p.1.toBinary f) (p.2.toBinary f)

theorem judge_of_format (hf : e.ty.format? = some f) :
    judge r e a = ofJudgements (judgements f r e a) := by
  rw [judge, hf]
  rfl

theorem judgements_isMagnitude (f : Format) (r : Rule) (e a : Value) :
    ∀ j ∈ judgements f r e a, j.error.IsMagnitude := by
  intro j hj
  obtain ⟨p, -, rfl⟩ := List.mem_map.mp hj
  exact r.judge_error_isMagnitude _ _

theorem deviation_loosened (h : r.Loosens s) (hf : e.ty.format? = some f) :
    (judge s e a).deviation = (judge r e a).deviation := by
  rw [judge_of_format hf, judge_of_format hf]
  apply deviation_ofJudgements_congr
  rw [judgements, judgements, List.map_map, List.map_map]
  exact List.map_congr_left fun p _ => h.error _ _

theorem passed_loosened (h : r.Loosens s) (hf : e.ty.format? = some f) (hp : (judge r e a).passed) :
    (judge s e a).passed := by
  rw [judge_of_format hf, passed_ofJudgements, judgements, List.all_map, List.all_eq_true] at hp ⊢
  exact fun p hmem => h.passed (hp p hmem)

theorem exists_forgiven_lane (h : r.Loosens s) (hf : e.ty.format? = some f)
    (hfail : (judge r e a).passed = false) (hpass : (judge s e a).passed) :
    ∃ j ∈ judgements f s e a, s.method.accepts j.error s.precision := by
  rw [judge_of_format hf, passed_ofJudgements, judgements, List.all_map, List.all_eq_false] at hfail
  rw [judge_of_format hf, passed_ofJudgements, judgements, List.all_map, List.all_eq_true] at hpass
  obtain ⟨p, hp, hpf⟩ := hfail
  refine ⟨_, List.mem_map_of_mem hp, ?_⟩
  exact h.accepts_of_forgiven (Bool.eq_false_iff.mpr hpf) (hpass p hp)

/-- Without limits, what a tolerance forgives deviates less than what it does not. -/
theorem code_lt_of_forgiven (h : r.Loosens s) (hmin : s.minimum = none) (hmax : s.maximum = none)
    (hprec : s.precision.isFinite) (hf : e.ty.format? = some f) (hf' : e'.ty.format? = some f)
    (hfail : (judge r e a).passed = false) (hpass : (judge s e a).passed)
    (hfail' : (judge s e' a').passed = false) :
    (judge r e a).code < (judge s e' a').code := by
  obtain ⟨k, hk, hacc⟩ := exists_forgiven_lane h hf hfail hpass
  have hm := judgements_isMagnitude f s e a
  have hm' := judgements_isMagnitude f s e' a'
  have hdev := deviation_loosened (a := a) h hf
  rw [judge_of_format hf', passed_ofJudgements, List.all_eq_false] at hfail'
  obtain ⟨y, hy, hyf⟩ := hfail'
  -- the lane that fails stays above every error that is accepted, that of lane `k` included
  have habove : ∀ x : Double, x.IsMagnitude → s.method.accepts x s.precision →
      x.code < y.error.code := by
    intro x hx hax
    obtain ⟨p, -, rfl⟩ := List.mem_map.mp hy
    exact Rule.code_lt_of_failed hmin hmax hprec hx hax (Bool.eq_false_iff.mpr hyf)
  have hpos : 0 < y.error.code := Nat.zero_lt_of_lt (habove k.error (hm k hk) hacc)
  have hlanes : ∀ j ∈ judgements f s e a, j.error.code < y.error.code := by
    intro j hj
    have hjp : j.passed := by
      rw [judge_of_format hf, passed_ofJudgements, List.all_eq_true] at hpass
      exact hpass j hj
    obtain ⟨p, -, rfl⟩ := List.mem_map.mp hj
    obtain h0 | hja := Rule.error_of_passed hjp
    · omega
    · exact habove _ (hm _ hj) hja
  calc (judge r e a).code = (judge s e a).code := by rw [code, code, hdev]
    _ = (ofJudgements (judgements f s e a)).code := by rw [judge_of_format hf]
    _ < y.error.code := code_ofJudgements_lt hm hpos hlanes
    _ ≤ (ofJudgements (judgements f s e' a')).code := code_le_ofJudgements hm' hy
    _ = (judge s e' a').code := by rw [judge_of_format hf']

end Verdict

end Conformance.Comparison
