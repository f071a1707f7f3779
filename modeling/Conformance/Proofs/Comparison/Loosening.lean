import Mathlib
import Conformance.Proofs.Comparison.Tolerance

namespace Conformance.Comparison

open Binary

variable {f : Format}

/-- Where the numbers that a minimum lets through begin; without one, at the very bottom. -/
def lowerEnd (minimum : Option Double) : WithBot (WithTop ℚ) := minimum.elim ⊥ number

def upperEnd (maximum : Option Double) : WithBot (WithTop ℚ) := maximum.elim ⊤ number

/-- Options that differ in their tolerances, which are given, and in their limits. All are at least
as wide in the second; a limit that is NaN lets nothing through and is narrower than any other. -/
structure Options.Loosens (strict lenient : Options) : Prop where
  method : lenient.method = strict.method
  flush : lenient.flush = strict.flush
  precision : ∃ p q, strict.precision = some p ∧ lenient.precision = some q ∧ p.le q ∧ q.isFinite
  minimum : (∃ m ∈ strict.minimum, m.isNaN) ∨
    (∀ m ∈ lenient.minimum, m.isNaN = false) ∧ lowerEnd lenient.minimum ≤ lowerEnd strict.minimum
  maximum : (∃ m ∈ strict.maximum, m.isNaN) ∨
    (∀ m ∈ lenient.maximum, m.isNaN = false) ∧ upperEnd strict.maximum ≤ upperEnd lenient.maximum

section Limits

variable {limit : Option Double} {v : Double}

theorem lowerEnd_le_iff (hn : ∀ m ∈ limit, m.isNaN = false) (hv : v.isNaN = false) :
    lowerEnd limit ≤ v.number ↔ ∀ m ∈ limit, m.le v := by
  cases limit with
  | none => simp [lowerEnd]
  | some m =>
    have hm := le_iff_number_le (hn m rfl) hv
    simp [lowerEnd, hm]

theorem le_upperEnd_iff (hn : ∀ m ∈ limit, m.isNaN = false) (hv : v.isNaN = false) :
    v.number ≤ upperEnd limit ↔ ∀ m ∈ limit, v.le m := by
  cases limit with
  | none => simp [upperEnd]
  | some m =>
    have hm := le_iff_number_le hv (hn m rfl)
    simp [upperEnd, hm]

end Limits

theorem Rule.inRange_iff (r : Rule) (a : Binary f) :
    r.inRange a ↔ (∀ m ∈ r.minimum, m.le (a.convert .double)) ∧
      ∀ m ∈ r.maximum, (a.convert .double).le m := by
  simp only [inRange, Bool.and_eq_true, Option.all_eq_true, Option.mem_def]

namespace Options.Loosens

variable {strict lenient : Options} {ty : ValueType}

theorem inRange (h : strict.Loosens lenient) {r s : Rule} (hr : r.minimum = strict.minimum)
    (hr' : r.maximum = strict.maximum) (hs : s.minimum = lenient.minimum)
    (hs' : s.maximum = lenient.maximum) {a : Binary f} (ha : a.isFinite) (hin : r.inRange a) :
    s.inRange a := by
  have hv := isNaN_of_isFinite (isFinite_convert f.embeds_double ha)
  rw [Rule.inRange_iff, hr, hr'] at hin
  rw [Rule.inRange_iff, hs, hs']
  have hmin : ∀ m ∈ strict.minimum, m.isNaN = false := by
    intro m hm
    have hle := hin.1 m hm
    simp only [le, Bool.and_eq_true, Bool.not_eq_true'] at hle
    exact hle.1.1
  have hmax : ∀ m ∈ strict.maximum, m.isNaN = false := by
    intro m hm
    have hle := hin.2 m hm
    simp only [le, Bool.and_eq_true, Bool.not_eq_true'] at hle
    exact hle.1.2
  constructor
  · obtain ⟨m, hm, hnan⟩ | ⟨hn, hle⟩ := h.minimum
    · exact absurd hnan (Bool.eq_false_iff.mp (hmin m hm))
    · exact (lowerEnd_le_iff hn hv).mp (hle.trans ((lowerEnd_le_iff hmin hv).mpr hin.1))
  · obtain ⟨m, hm, hnan⟩ | ⟨hn, hle⟩ := h.maximum
    · exact absurd hnan (Bool.eq_false_iff.mp (hmax m hm))
    · exact (le_upperEnd_iff hn hv).mp (((le_upperEnd_iff hmax hv).mpr hin.2).trans hle)

theorem rule (h : strict.Loosens lenient) (hf : ty.isFloat) :
    (((Session.start strict).reset ty).rule).Loosens ((Session.start lenient).reset ty).rule ∧
      ((Session.start lenient).reset ty).rule.precision.isFinite := by
  obtain ⟨p, q, hp, hq, hle, hfinite⟩ := h.precision
  refine ⟨⟨h.method, h.flush, ?_, fun ha => h.inRange rfl rfl rfl rfl ha⟩, ?_⟩
  · rwa [Session.precision_of_given hp hf, Session.precision_of_given hq hf]
  · rwa [Session.precision_of_given hq hf]

end Options.Loosens

section Streams

variable {r s : Rule} {pairs : List (Value × Value)}

/-- A rule that asks for less, and pairs of floating-point values for both. -/
structure Forgives (f : Format) (r s : Rule) (pairs : List (Value × Value)) : Prop where
  loosens : r.Loosens s
  format : ∀ p ∈ pairs, p.1.ty.format? = some f

namespace Forgives

theorem deviation (h : Forgives f r s pairs) {p : Value × Value} (hp : p ∈ pairs) :
    (Verdict.judge s p.1 p.2).deviation = (Verdict.judge r p.1 p.2).deviation :=
  Verdict.deviation_loosened h.loosens (h.format p hp)

theorem failed (h : Forgives f r s pairs) {p : Value × Value} (hp : p ∈ pairs)
    (hs : (Verdict.judge s p.1 p.2).passed = false) : (Verdict.judge r p.1 p.2).passed = false := by
  by_contra hr
  have hpass := Verdict.passed_loosened h.loosens (h.format p hp) (Bool.eq_true_of_not_eq_false hr)
  exact Bool.false_ne_true (hs.symm.trans hpass)

theorem forall₂_judgedBy (h : Forgives f r s pairs) :
    List.Forall₂ (fun c d => d.expected = c.expected ∧ d.actual = c.actual ∧
      d.verdict.deviation = c.verdict.deviation ∧ (d.failed → c.failed))
      (judgedBy r pairs) (judgedBy s pairs) := by
  rw [judgedBy, judgedBy, List.forall₂_map_left_iff, List.forall₂_map_right_iff, List.forall₂_same]
  intro p hp
  refine ⟨rfl, rfl, h.deviation hp, fun hd => ?_⟩
  simp only [Check.failed, Bool.not_eq_true'] at hd ⊢
  exact h.failed hp hd

theorem countP_failed_le (h : Forgives f r s pairs) :
    (judgedBy s pairs).countP Check.failed ≤ (judgedBy r pairs).countP Check.failed := by
  rw [judgedBy, judgedBy, List.countP_map, List.countP_map]
  apply List.countP_mono_left
  intro p hp hs
  simp only [Function.comp_apply, Check.failed, Bool.not_eq_true'] at hs ⊢
  exact h.failed hp hs

variable (hmin : s.minimum = none) (hmax : s.maximum = none) (hprec : s.precision.isFinite)

include hmin hmax hprec

/-- A failure of the first stream either is one of the second or deviates less than those. -/
theorem failed_or_lt (h : Forgives f r s pairs) {p q : Value × Value} (hp : p ∈ pairs)
    (hq : q ∈ pairs) (hr : (Verdict.judge r p.1 p.2).passed = false)
    (hs : (Verdict.judge s q.1 q.2).passed = false) :
    (Verdict.judge s p.1 p.2).passed = false ∨
      (Verdict.judge r p.1 p.2).code < (Verdict.judge s q.1 q.2).code := by
  cases hps : (Verdict.judge s p.1 p.2).passed with
  | false => exact .inl rfl
  | true =>
    exact .inr (Verdict.code_lt_of_forgiven h.loosens hmin hmax hprec (h.format p hp)
      (h.format q hq) hr hps hs)

/-- The worst failure of the second stream is that of the first. -/
theorem isWorst (h : Forgives f r s pairs) {w : Worst} (hw : IsWorst (judgedBy s pairs) w) :
    IsWorst (judgedBy r pairs) w := by
  have hwm := hw.magnitude (comparable_judgedBy s pairs)
  obtain ⟨c, hc, hcf, hcd⟩ := hw.check
  rw [getElem?_judgedBy] at hc
  obtain ⟨q, hq, rfl⟩ := hc
  have hqm := List.mem_of_getElem? hq
  have hqs : (Verdict.judge s q.1 q.2).passed = false := by simpa [Check.failed] using hcf
  have hcode : (Verdict.judge s q.1 q.2).code = w.deviation.magnitude.code :=
    congrArg (fun d => d.magnitude.code) hcd
  refine ⟨⟨_, getElem?_judgedBy.mpr ⟨q, hq, rfl⟩, ?_, ?_⟩, hw.positive, ?_, ?_⟩
  · simpa [Check.failed] using h.failed hqm hqs
  · rw [← h.deviation hqm]
    exact hcd
  · intro d hd hdf
    have hdm := comparable_judgedBy r pairs d hd
    obtain ⟨p, hp, rfl⟩ := List.mem_map.mp hd
    have hpr : (Verdict.judge r p.1 p.2).passed = false := by simpa [Check.failed] using hdf
    obtain hps | hlt := h.failed_or_lt hmin hmax hprec hp hqm hpr hqs
    · rw [Check.magnitude, ← h.deviation hp]
      exact hw.largest ⟨p.1, p.2, Verdict.judge s p.1 p.2⟩ (List.mem_map.mpr ⟨p, hp, rfl⟩)
        (by simpa [Check.failed] using hps)
    · rw [hcode] at hlt
      exact (hdm.le_iff hwm).mpr hlt.le
  · intro j d hj hdf hless
    have hdm := comparable_judgedBy r pairs d (List.mem_of_getElem? hj)
    rw [getElem?_judgedBy] at hj
    obtain ⟨p, hp, rfl⟩ := hj
    have hpm := List.mem_of_getElem? hp
    have hpr : (Verdict.judge r p.1 p.2).passed = false := by simpa [Check.failed] using hdf
    obtain hps | hlt := h.failed_or_lt hmin hmax hprec hpm hqm hpr hqs
    · rw [Check.magnitude, ← h.deviation hpm]
      exact hw.first j ⟨p.1, p.2, Verdict.judge s p.1 p.2⟩ (getElem?_judgedBy.mpr ⟨p, hp, rfl⟩)
        (by simpa [Check.failed] using hps) hless
    · rw [hcode] at hlt
      exact (hdm.lt_iff hwm).mpr hlt

theorem exists_positive (h : Forgives f r s pairs) {q : Value × Value} (hq : q ∈ pairs)
    (hqs : (Verdict.judge s q.1 q.2).passed = false)
    (hex : ∃ c ∈ judgedBy r pairs, c.failed ∧ (zero false).lt c.magnitude) :
    ∃ c ∈ judgedBy s pairs, c.failed ∧ (zero false).lt c.magnitude := by
  obtain ⟨c, hc, hcf, hpos⟩ := hex
  obtain ⟨p, hp, rfl⟩ := List.mem_map.mp hc
  have hpr : (Verdict.judge r p.1 p.2).passed = false := by simpa [Check.failed] using hcf
  obtain hps | hlt := h.failed_or_lt hmin hmax hprec hp hq hpr hqs
  · refine ⟨_, List.mem_map.mpr ⟨p, hp, rfl⟩, by simpa [Check.failed] using hps, ?_⟩
    rw [Check.magnitude, h.deviation hp]
    exact hpos
  · refine ⟨_, List.mem_map.mpr ⟨q, hq, rfl⟩, by simpa [Check.failed] using hqs, ?_⟩
    exact (Verdict.judge_isMagnitude s q.1 q.2).zero_lt_iff.mpr (Nat.zero_lt_of_lt hlt)

theorem worst_eq (h : Forgives f r s pairs) {first second : Session}
    (hfirst : first.Tracks (judgedBy r pairs)) (hsecond : second.Tracks (judgedBy s pairs))
    (hfail : 0 < (judgedBy s pairs).countP Check.failed) : first.worst = second.worst := by
  obtain ⟨c, hc, hcf⟩ := List.countP_pos_iff.mp hfail
  obtain ⟨q, hq, rfl⟩ := List.mem_map.mp hc
  have hqs : (Verdict.judge s q.1 q.2).passed = false := by simpa [Check.failed] using hcf
  cases hw : second.worst with
  | some w =>
    exact (hfirst.worst_eq_some_iff w).mpr (h.isWorst hmin hmax hprec (hsecond.worst w hw))
  | none =>
    by_contra hne
    have hsome := hfirst.worst_isSome_iff.mp (Option.isSome_iff_ne_none.mpr hne)
    have hnone := hsecond.worst_isSome_iff.mpr (h.exists_positive hmin hmax hprec hq hqs hsome)
    simp [hw] at hnone

end Forgives

end Streams

namespace Session

/-- A comparison that asks for less, in its tolerance and its limits, measures the same deviations
and fails only where the other one does. If it has no limits and fails at all, both report the same
worst failure. -/
theorem loosening_forgives {strict lenient : Options} (h : strict.Loosens lenient) {ty : ValueType}
    (hf : ty.isFloat) {opening : List Operation} (ho : IsOpening ty opening)
    {pairs : List (Value × Value)} (hp : ∀ p ∈ pairs, p.1.ty = ty ∧ p.2.ty = ty) :
    let ops := opening ++ pairs.map fun p => .compare p.1 p.2
    let first := (start strict).run ops
    let second := (start lenient).run ops
    (sinceReset first.1).map (fun c => (c.expected, c.actual)) = pairs ∧
    List.Forall₂ (fun c d => d.expected = c.expected ∧ d.actual = c.actual ∧
      d.verdict.deviation = c.verdict.deviation ∧ (d.failed → c.failed))
      (sinceReset first.1) (sinceReset second.1) ∧
    first.2.summary.checks = pairs.length ∧ second.2.summary.checks = pairs.length ∧
    second.2.summary.failed ≤ first.2.summary.failed ∧
    (lenient.minimum = none → lenient.maximum = none → 0 < second.2.summary.failed →
      first.2.summary.maxError = second.2.summary.maxError ∧
        first.2.summary.maxErrorIndex = second.2.summary.maxErrorIndex) := by
  intro ops first second
  obtain ⟨format, hformat⟩ := Option.isSome_iff_exists.mp hf
  obtain ⟨hrules, hprec⟩ := h.rule hf
  have hforgives : Forgives format _ _ pairs :=
    ⟨hrules, fun p hmem => by rw [(hp p hmem).1, hformat]⟩
  have hfirst : first.2.Tracks (sinceReset first.1) := tracks_run_start strict ops
  have hsecond : second.2.Tracks (sinceReset second.1) := tracks_run_start lenient ops
  have hc : sinceReset first.1 = judgedBy _ pairs := sinceReset_run_start strict ho hp
  have hd : sinceReset second.1 = judgedBy _ pairs := sinceReset_run_start lenient ho hp
  rw [hc] at hfirst
  rw [hd] at hsecond
  have hfailed : second.2.summary.failed = _ := hsecond.failures
  rw [hc, hd]
  refine ⟨?_, hforgives.forall₂_judgedBy, ?_, ?_, ?_, ?_⟩
  · rw [judgedBy, List.map_map]
    exact List.map_id pairs
  · exact hfirst.count.trans (by simp [judgedBy])
  · exact hsecond.count.trans (by simp [judgedBy])
  · rw [hfailed]
    exact hforgives.countP_failed_le.trans_eq hfirst.failures.symm
  · intro hmin hmax hpos
    rw [hfailed] at hpos
    have hworst := hforgives.worst_eq hmin hmax hprec hfirst hsecond hpos
    simp only [summary, hworst]
    exact ⟨trivial, trivial⟩

theorem loosening_forgives_halves :
    let strict : Options := { method := .decimal, precision := some (ofRatio .double 1 2) }
    let lenient : Options := { method := .decimal, precision := some (ofNat .double 1) }
    let ty : ValueType := .packed .f16x2
    let pairs : List (Value × Value) := [(.ofNat ty 0x3c003c00, .ofNat ty 0x3c003f00),
      (.ofNat ty 0x3c003c00, .ofNat ty 0x44003c00)]
    let opening : List Operation := [.reset ty]
    let ops := opening ++ pairs.map fun p => .compare p.1 p.2
    let first := ((start strict).run ops).2.summary
    let second := ((start lenient).run ops).2.summary
    strict.Loosens lenient ∧ ty.isFloat ∧ IsOpening ty opening ∧
      (∀ p ∈ pairs, p.1.ty = ty ∧ p.2.ty = ty) ∧ first.failed = 2 ∧ second.failed = 1 ∧
      second.failed ≤ first.failed ∧ first.maxError = second.maxError ∧
      first.maxErrorIndex = second.maxErrorIndex := by
  intro strict lenient ty pairs opening ops first second
  have hle : (ofRatio .double 1 2).le (ofNat .double 1) := by decide +kernel
  have hfinite : (ofNat .double 1).isFinite := by decide +kernel
  have h : strict.Loosens lenient :=
    ⟨rfl, rfl, ⟨_, _, rfl, rfl, hle, hfinite⟩, .inr ⟨by simp [lenient], le_refl _⟩,
      .inr ⟨by simp [lenient], le_refl _⟩⟩
  have hp : ∀ p ∈ pairs, p.1.ty = ty ∧ p.2.ty = ty := by simp [pairs]
  have hfirst : first.failed = 2 := by decide +kernel
  have hsecond : second.failed = 1 := by decide +kernel
  have ho : IsOpening ty opening := .inr rfl
  obtain ⟨-, -, -, -, hless, hworst⟩ := loosening_forgives h rfl ho hp
  exact ⟨h, rfl, ho, hp, hfirst, hsecond, hless, hworst rfl rfl (hsecond ▸ Nat.one_pos)⟩

end Session

end Conformance.Comparison
