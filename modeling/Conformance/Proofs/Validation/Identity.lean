import Mathlib
import Conformance.Proofs.Comparison.Distance
import Conformance.Proofs.Validation.Buffer
import Conformance.Proofs.Value.Buffer

namespace Conformance

namespace Comparison

open Binary

variable {f : Format}

namespace Method

/-- Every default tolerance accepts an error of zero, also where it has to stay below. -/
theorem accepts_zero_tolerance (m : Method) (f : Format) :
    m.accepts (zero false) (m.tolerance f) := by
  cases m <;> cases f <;> decide +kernel

end Method

/-- Options without limits, whose tolerance, if they set one, accepts an error of zero. -/
structure Options.Reflexive (o : Options) : Prop where
  minimum : o.minimum = none
  maximum : o.maximum = none
  precision : ∀ p, o.precision = some p →
    (zero false).le p ∧ (o.method = .image → (zero false).lt p)

namespace Rule

structure Reflexive (r : Rule) : Prop where
  minimum : r.minimum = none
  maximum : r.maximum = none
  accepts : r.method.accepts (zero false) r.precision

variable {r : Rule}

theorem Reflexive.judge_self (h : r.Reflexive) (x : Binary f) : r.judge x x = .clearCut true := by
  obtain hjudge | hjudge := r.judgeBy_self pow x
  · exact hjudge
  · rw [judge, hjudge]
    simp [inRange, h.minimum, h.maximum, h.accepts, Judgement.clearCut]

end Rule

theorem Options.Reflexive.rule {o : Options} (h : o.Reflexive) {ty : ValueType}
    (hf : ty.format? = some f) : ((Session.start o).reset ty).rule.Reflexive := by
  refine ⟨h.minimum, h.maximum, ?_⟩
  have hfloat : ty.isFloat := by simp [ValueType.isFloat, hf]
  cases hp : o.precision with
  | none =>
    have hprec : ((Session.start o).reset ty).rule.precision = o.method.tolerance f := by
      simp [Session.rule, Session.reset, Session.precisionFor, Session.start, hp,
        Method.defaultPrecision, hf]
    rw [hprec]
    exact o.method.accepts_zero_tolerance f
  | some p =>
    obtain ⟨hle, hlt⟩ := h.precision p hp
    have hmethod : ((Session.start o).reset ty).rule.method = o.method := rfl
    rw [Session.precision_of_given hp hfloat, hmethod]
    cases hm : o.method with
    | image => exact hlt hm
    | decimal | ulps | relative => exact hle

namespace Deviation

def nothing (ty : ValueType) : Deviation :=
  match ty with
  | .scalar _ => if ty.isFloat then .error (.zero false) else .exact (.ofNat ty.unsigned 0)
  | .packed p =>
    if ty.isFloat then .lanes (List.replicate p.laneCount (.zero false))
    else .exact (.ofNat ty.unsigned 0)

theorem nothing_float {ty : ValueType} (hf : ty.isFloat) :
    Verdict.ofJudgements (List.replicate ty.laneCount (.clearCut true)) = ⟨true, nothing ty⟩ := by
  cases ty with
  | scalar s => simp [nothing, hf, ValueType.laneCount, Verdict.ofJudgements, Judgement.clearCut]
  | packed p =>
    obtain ⟨n, hn⟩ : ∃ n, p.laneCount = n + 2 := by
      cases p <;> exact ⟨_, rfl⟩
    simp [nothing, hf, ValueType.laneCount, hn, List.replicate_succ, Verdict.ofJudgements,
      Judgement.clearCut]

theorem nothing_exact {ty : ValueType} (hf : ty.format? = none) :
    nothing ty = .exact (.ofNat ty.unsigned 0) := by
  have hfloat : ty.isFloat = false := by simp [ValueType.isFloat, hf]
  cases ty <;> simp [nothing, hfloat]

theorem largest_zeros (n : Nat) : largest (List.replicate n (zero false)) = zero false := by
  have hm : ∀ e ∈ List.replicate n (zero false : Double), e.IsMagnitude := by
    intro e he
    obtain rfl := List.eq_of_mem_replicate he
    exact isMagnitude_zero
  apply (largest_isMagnitude hm).eq_of_code isMagnitude_zero
  obtain h0 | ⟨e, he, hc⟩ := code_largest_cases hm
  · simpa using h0
  · rw [← hc, List.eq_of_mem_replicate he]

end Deviation

theorem gap_self (v : Value) : gap v v = 0 := by
  simp [gap]

namespace Verdict

theorem laneDistance_self (v : Value) :
    laneDistance v v = .ofNat (.scalar v.ty.lane.unsigned) 0 := by
  simp [laneDistance]

theorem joinBits_eq_zero {width : Nat} {vs : List Value} (h : ∀ v ∈ vs, v.toNat = 0) :
    Value.joinBits width vs = 0 := by
  induction vs with
  | nil => rfl
  | cons v rest ih => simp [Value.joinBits, h v (by simp), ih fun w hw => h w (by simp [hw])]

theorem distance_self (v : Value) : distance v v = .ofNat v.ty.unsigned 0 := by
  rw [distance, Value.joined, joinBits_eq_zero]
  intro w hw
  rw [zip_lanes rfl, List.map_map] at hw
  obtain ⟨i, -, rfl⟩ := List.mem_map.mp hw
  rw [Function.comp_apply, laneDistance_self, Value.toNat_ofNat, Nat.zero_mod]

theorem judge_self {r : Rule} {v : Value} (h : v.ty.isFloat → r.Reflexive) :
    judge r v v = ⟨true, .nothing v.ty⟩ := by
  rw [judge]
  cases hf : v.ty.format? with
  | some f =>
    have hfloat : v.ty.isFloat := by simp [ValueType.isFloat, hf]
    have hlanes : (v.lanes.zip v.lanes).map (fun p => r.judge (p.1.toBinary f) (p.2.toBinary f)) =
        List.replicate v.ty.laneCount (.clearCut true) := by
      rw [zip_lanes rfl, List.map_map, List.eq_replicate_iff]
      refine ⟨by simp, fun j hj => ?_⟩
      obtain ⟨i, -, rfl⟩ := List.mem_map.mp hj
      exact (h hfloat).judge_self _
    change ofJudgements _ = _
    rw [hlanes, Deviation.nothing_float hfloat]
  | none =>
    have hpassed : (Verdict.exact v v).passed := by
      rw [← Bool.not_eq_false, exact_failed_iff rfl, gap_self]
      simp
    have hdeviation : (Verdict.exact v v).deviation = .nothing v.ty := by
      rw [Deviation.nothing_exact hf, ← distance_self]
      rfl
    change Verdict.exact v v = _
    rw [← hpassed, ← hdeviation]

end Verdict

theorem Deviation.isZero_nothing (ty : ValueType) : (nothing ty).isZero := by
  have hmagnitude : (nothing ty).magnitude = zero false := by
    cases hf : ty.isFloat with
    | true =>
      cases ty with
      | scalar s => simp [nothing, hf, magnitude]
      | packed p => simp [nothing, hf, magnitude, largest_zeros]
    | false =>
      have hformat : ty.format? = none := by simpa [ValueType.isFloat] using hf
      have h := Verdict.exact_magnitude (e := Value.ofNat ty 0) (a := Value.ofNat ty 0) rfl
      have hd : (Verdict.exact (.ofNat ty 0) (.ofNat ty 0)).deviation = nothing ty := by
        rw [nothing_exact hformat]
        exact congrArg Deviation.exact (Verdict.distance_self _)
      rw [hd, gap_self] at h
      exact h
  rw [isZero, hmagnitude]
  exact isMagnitude_zero.same_zero_iff.mpr (code_zero false)

end Comparison

namespace Validation

open Comparison Binary

variable {ty : ValueType} {bytes : List UInt8} {options : Options}

theorem bufferPairs_self (ty : ValueType) (bytes : List UInt8) :
    bufferPairs ty bytes bytes = (Value.split ty bytes).map fun v => (v, v) := by
  have h : (List.map id _).zip (List.map id _) = (Value.split ty bytes).map fun v => (id v, id v) :=
    List.zip_map'
  rwa [List.map_id] at h

/-- A buffer of whole values, compared with itself, passes in all checks, whatever its bytes. -/
theorem buffer_self (h : options.Reflexive) (hm : bytes.length % ty.size = 0) :
    let summary := (bufferRun ty bytes bytes options).2.summary
    (buffer ty bytes bytes options).result = .ok summary ∧
      summary.checks = bytes.length / ty.size ∧ summary.failed = 0 ∧ summary.maxError = none ∧
      (bufferChecks ty bytes bytes options).map (fun c => (c.expected, c.actual)) =
        (Value.split ty bytes).map (fun v => (v, v)) ∧
      ∀ c ∈ bufferChecks ty bytes bytes options,
        c.verdict = ⟨true, .nothing ty⟩ ∧ c.verdict.deviation.isZero := by
  intro summary
  have hchecks := bufferChecks_eq ty bytes bytes options
  have htracks := bufferRun_tracks ty bytes bytes options
  have hverdict : ∀ c ∈ bufferChecks ty bytes bytes options, c.verdict = ⟨true, .nothing ty⟩ := by
    intro c hc
    rw [hchecks, bufferPairs_self] at hc
    obtain ⟨p, hp, rfl⟩ := List.mem_map.mp hc
    obtain ⟨v, hv, rfl⟩ := List.mem_map.mp hp
    obtain rfl : v.ty = ty := Value.ty_of_mem_split hv
    apply Verdict.judge_self
    intro hf
    obtain ⟨f, hformat⟩ := Option.isSome_iff_exists.mp hf
    exact h.rule hformat
  have hpassed : ∀ c ∈ bufferChecks ty bytes bytes options, c.failed = false := by
    intro c hc
    rw [Check.failed, hverdict c hc]
    rfl
  refine ⟨buffer_result rfl hm, ?_, ?_, ?_, ?_, ?_⟩
  · refine htracks.count.trans ?_
    rw [hchecks, bufferPairs_self, judgedBy, List.length_map, List.length_map, Value.length_split]
  · refine htracks.failures.trans ?_
    rw [List.countP_eq_zero]
    exact fun c hc => Bool.eq_false_iff.mp (hpassed c hc)
  · refine Option.map_eq_none_iff.mpr (Option.not_isSome_iff_eq_none.mp fun hs => ?_)
    obtain ⟨c, hc, hf, -⟩ := htracks.worst_isSome_iff.mp hs
    exact Bool.eq_false_iff.mp (hpassed c hc) hf
  · rw [hchecks, bufferPairs_self, judgedBy, List.map_map]
    exact List.map_id _
  · intro c hc
    refine ⟨hverdict c hc, ?_⟩
    rw [hverdict c hc]
    exact Deviation.isZero_nothing ty

theorem buffer_self_halves :
    let options : Options := { method := .image, precision := some (least .double), flush := true }
    let bytes : List UInt8 := [0x01, 0x7c, 0xff, 0x7b, 0x00, 0x7c, 0x00, 0xfc]
    options.Reflexive ∧ bytes.length % (ValueType.packed .f16x2).size = 0 ∧
      ∃ summary, (buffer (.packed .f16x2) bytes bytes options).result = .ok summary ∧
        summary.checks = 2 ∧ summary.failed = 0 ∧ summary.maxError = none := by
  intro options bytes
  have hlt : (zero false).lt (least .double) := by decide +kernel
  have hle : (zero false).le (least .double) := by decide +kernel
  have h : options.Reflexive := by
    refine ⟨rfl, rfl, ?_⟩
    rintro p ⟨rfl⟩
    exact ⟨hle, fun _ => hlt⟩
  have hm : bytes.length % (ValueType.packed .f16x2).size = 0 := by decide
  obtain ⟨hs, hc, hf, he, -⟩ := buffer_self h hm
  exact ⟨h, hm, _, hs, hc.trans (by decide), hf, he⟩

end Validation

end Conformance
