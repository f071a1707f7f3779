import Mathlib
import Conformance.Proofs.Comparison.Distance
import Conformance.Proofs.Comparison.Provenance

namespace Conformance.Comparison

open Binary

namespace Check

def gap (c : Check) : Nat := Comparison.gap c.expected c.actual

/-- Values of one type that were compared exactly. -/
structure IsExact (c : Check) (ty : ValueType) : Prop where
  expected : c.expected.ty = ty
  actual : c.actual.ty = c.expected.ty
  verdict : c.verdict = Verdict.exact c.expected c.actual

variable {b c : Check} {ty : ValueType}

theorem IsExact.magnitude (hc : c.IsExact ty) : c.magnitude = ofNat .double c.gap := by
  rw [Check.magnitude, hc.verdict, Verdict.exact_magnitude hc.actual.symm]
  rfl

theorem IsExact.failed_iff (hc : c.IsExact ty) : c.failed ↔ c.gap ≠ 0 := by
  rw [failed, hc.verdict, Bool.not_eq_true', Verdict.exact_failed_iff hc.actual.symm]
  rfl

theorem IsExact.gap_lt (hc : c.IsExact ty) : c.gap < 256 ^ ty.lane.size := by
  rw [← hc.expected]
  exact Comparison.gap_lt hc.actual.symm

theorem IsExact.positive (hc : c.IsExact ty) (hf : c.failed) : (zero false).lt c.magnitude := by
  rw [hc.magnitude, (isMagnitude_ofNat _).zero_lt_iff, Nat.pos_iff_ne_zero, ne_eq,
    code_ofNat_eq_zero_iff]
  exact hc.failed_iff.mp hf

/-- What deviates less as a double deviates less. -/
theorem IsExact.gap_lt_gap (hb : b.IsExact ty) (hc : c.IsExact ty)
    (h : b.magnitude.lt c.magnitude) : b.gap < c.gap := by
  rw [hb.magnitude, hc.magnitude, (isMagnitude_ofNat _).lt_iff (isMagnitude_ofNat _)] at h
  by_contra hle
  have hcode := code_ofNat_mono (f := .double) (Nat.le_of_not_lt hle)
  omega

/-- What deviates no more as a double deviates no more, or is rounded to the same one. -/
theorem IsExact.gap_le_or_merged (hb : b.IsExact ty) (hc : c.IsExact ty)
    (h : b.magnitude.le c.magnitude) :
    b.gap ≤ c.gap ∨ 2 ^ 53 ≤ c.gap ∧ ofNat .double b.gap = ofNat .double c.gap ∧
      2 ^ 52 * (b.gap - c.gap) ≤ b.gap := by
  rw [hb.magnitude, hc.magnitude, (isMagnitude_ofNat _).le_iff (isMagnitude_ofNat _)] at h
  obtain hle | hlt := le_or_gt b.gap c.gap
  · exact .inl hle
  right
  have hcode : (ofNat .double b.gap).code = (ofNat .double c.gap).code :=
    h.antisymm (code_ofNat_mono hlt.le)
  have hlarge : 2 * Format.double.binade ≤ c.gap := by
    by_contra hsmall
    have hstrict := code_ofNat_lt hlt (Nat.lt_of_not_le hsmall)
    omega
  have hfinite : (ofNat .double b.gap).isFinite :=
    isFinite_ofNat_double (Comparison.gap_le hb.actual.symm)
  exact ⟨hlarge, (isMagnitude_ofNat _).eq_of_code (isMagnitude_ofNat _) hcode,
    shortfall_of_code_eq hfinite hcode⟩

end Check

namespace Session

variable {s : Session} {checks : List Check} {ty : ValueType}

theorem Judged.isExact (h : s.Judged checks) (hty : s.valueType = some ty)
    (hf : ty.isFloat = false) : ∀ c ∈ checks, c.IsExact ty := fun c hc =>
  ⟨Option.some.inj ((h.expected c hc).symm.trans hty), h.actual c hc,
    h.verdict_eq_exact hty hf hc⟩

theorem Tracks.exists_worst (h : s.Tracks checks) (hexact : ∀ c ∈ checks, c.IsExact ty)
    (hfailed : ∃ c ∈ checks, c.failed) : ∃ w, s.worst = some w ∧ IsWorst checks w := by
  obtain ⟨c, hc, hf⟩ := hfailed
  have hsome := h.worst_isSome_iff.mpr ⟨c, hc, hf, (hexact c hc).positive hf⟩
  obtain ⟨w, hw⟩ := Option.isSome_iff_exists.mp hsome
  exact ⟨w, hw, h.worst w hw⟩

/-- Without floating-point lanes, as soon as a check has failed the largest deviation is that of a
failed check which all failed checks before it fall short of. A later one exceeds it only if both
are rounded to one double, which takes lanes of more than 32 bits. -/
theorem exact_run_worst (options : Options) (ops : List Operation) {ty : ValueType}
    (hty : ((start options).run ops).2.valueType = some ty) (hf : ty.isFloat = false)
    (hfailed : ∃ c ∈ sinceReset ((start options).run ops).1, c.failed) :
    let checks := sinceReset ((start options).run ops).1
    let summary := ((start options).run ops).2.summary
    ∃ c, checks[summary.maxErrorIndex]? = some c ∧ c.failed ∧
      summary.maxError = some (.exact (Verdict.distance c.expected c.actual)) ∧
      (∀ i < ty.laneCount, ((Verdict.distance c.expected c.actual).laneAt i).toNat =
        ((c.expected.laneAt i).toInt - (c.actual.laneAt i).toInt).natAbs) ∧
      (∀ j b, checks[j]? = some b → b.failed → j < summary.maxErrorIndex → b.gap < c.gap) ∧
      (∀ b ∈ checks, b.failed → b.gap ≤ c.gap ∨
        2 ^ 53 ≤ c.gap ∧ ofNat .double b.gap = ofNat .double c.gap ∧
          2 ^ 52 * (b.gap - c.gap) ≤ b.gap) ∧
      (ty.lane.size ≤ 4 → ∀ b ∈ checks, b.failed → b.gap ≤ c.gap) := by
  intro checks summary
  have htracks : ((start options).run ops).2.Tracks checks := tracks_run_start options ops
  have hexact := (judged_run_start options ops).isExact hty hf
  obtain ⟨w, hw, hworst⟩ := htracks.exists_worst hexact hfailed
  obtain ⟨c, hc, hcf, hcd⟩ := hworst.check
  have hce : c.IsExact ty := hexact c (List.mem_of_getElem? hc)
  have hindex : summary.maxErrorIndex = w.index := by simp [summary, Session.summary, hw]
  have hmax : summary.maxError = some w.deviation := by simp [summary, Session.summary, hw]
  have hall : ∀ b ∈ checks, b.failed → b.gap ≤ c.gap ∨
      2 ^ 53 ≤ c.gap ∧ ofNat .double b.gap = ofNat .double c.gap ∧
        2 ^ 52 * (b.gap - c.gap) ≤ b.gap := by
    intro b hb hbf
    have hle := hworst.largest b hb hbf
    rw [← hcd] at hle
    exact (hexact b hb).gap_le_or_merged hce hle
  rw [hindex]
  refine ⟨c, hc, hcf, ?_, ?_, ?_, hall, ?_⟩
  · rw [hmax, ← hcd, hce.verdict]
    rfl
  · intro i hi
    rw [← hce.expected] at hi
    exact Verdict.toNat_laneAt_distance hce.actual.symm hi
  · intro j b hj hbf hlt
    have hless := hworst.first j b hj hbf hlt
    rw [← hcd] at hless
    exact (hexact b (List.mem_of_getElem? hj)).gap_lt_gap hce hless
  · intro hs b hb hbf
    refine (hall b hb hbf).resolve_right fun hmerged => ?_
    have hsmall : c.gap < 256 ^ 4 :=
      hce.gap_lt.trans_le (Nat.pow_le_pow_right (by decide) hs)
    omega

theorem exact_run_worst_bytes :
    let v (n : Nat) : Value := .ofNat (.scalar .s8) n
    let ops : List Operation :=
      [.compare (v 0) (v 3), .compare (v 0x80) (v 0x7f), .compare (v 0x7f) (v 0x80)]
    let run := (start {}).run ops
    run.2.valueType = some (.scalar .s8) ∧ (ValueType.scalar .s8).isFloat = false ∧
      (∃ c ∈ sinceReset run.1, c.failed) ∧ (ValueType.scalar .s8).lane.size ≤ 4 ∧
      run.2.summary.maxErrorIndex = 1 ∧
      ∃ c, (sinceReset run.1)[1]? = some c ∧ ∀ b ∈ sinceReset run.1, b.failed → b.gap ≤ c.gap := by
  intro v ops run
  have hty : run.2.valueType = some (.scalar .s8) := by decide +kernel
  have hfailed : ∃ c ∈ sinceReset run.1, c.failed := by decide +kernel
  have hindex : run.2.summary.maxErrorIndex = 1 := by decide +kernel
  obtain ⟨c, hc, -, -, -, -, -, hall⟩ := exact_run_worst {} ops hty rfl hfailed
  rw [hindex] at hc
  exact ⟨hty, rfl, hfailed, by decide, hindex, c, hc, hall (by decide)⟩

/-- Two doubles do not tell `2 ^ 53` from `2 ^ 53 + 1`: the smaller deviation, met first, stays. -/
theorem larger_deviation_missed :
    let v (n : Nat) : Value := .ofNat (.scalar .u64) n
    let ops : List Operation :=
      [.reset (.scalar .u64), .compare (v 0) (v (2 ^ 53)), .compare (v 0) (v (2 ^ 53 + 1))]
    let run := (start {}).run ops
    run.2.valueType = some (.scalar .u64) ∧ (ValueType.scalar .u64).isFloat = false ∧
      (∀ c ∈ sinceReset run.1, c.failed) ∧
      (sinceReset run.1).map Check.gap = [2 ^ 53, 2 ^ 53 + 1] ∧
      run.2.summary.maxErrorIndex = 0 ∧ run.2.summary.maxError = some (.exact (v (2 ^ 53))) ∧
      ¬ ∃ c, (sinceReset run.1)[run.2.summary.maxErrorIndex]? = some c ∧
        ∀ b ∈ sinceReset run.1, b.failed → b.gap ≤ c.gap := by
  decide +kernel

end Session

end Conformance.Comparison
