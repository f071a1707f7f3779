import Mathlib
import Conformance.Proofs.Binary.Number
import Conformance.Proofs.Comparison.Run

namespace Conformance.Comparison

open Binary

variable {f : Format}

/-- Numbers strictly beyond one of the limits. -/
def Outside (minimum maximum : Option Double) (x : Binary f) : Prop :=
  x.isNaN = false ∧
    ((∃ m ∈ minimum, m.isNaN = false ∧ x.number < m.number) ∨
      ∃ m ∈ maximum, m.isNaN = false ∧ m.number < x.number)

def ProperLimits (minimum maximum : Option Double) : Prop :=
  (∀ m ∈ minimum, m.isNaN = false) ∧ ∀ m ∈ maximum, m.isNaN = false

theorem outside_of_lt {minimum : Option Double} {m : Double} {x : Binary f} (hm : m.isNaN = false)
    (hx : x.isNaN = false) (h : m.lt (x.convert .double)) : Outside minimum (some m) x := by
  rw [lt_iff_number_lt hm (isNaN_convert f.embeds_double hx),
    number_convert f.embeds_double hx] at h
  exact ⟨hx, .inr ⟨m, rfl, hm, h⟩⟩

namespace Rule

variable {r : Rule} {e a : Binary f}

def unlimited (r : Rule) : Rule := { r with minimum := none, maximum := none }

theorem not_outside_of_inRange (h : r.inRange a) : ¬ Outside r.minimum r.maximum a := by
  rw [inRange, Bool.and_eq_true, Option.all_eq_true, Option.all_eq_true] at h
  rintro ⟨ha, ⟨m, hm, hmn, hlt⟩ | ⟨m, hm, hmn, hlt⟩⟩
  · have hle := h.1 m hm
    rw [le_iff_number_le hmn (isNaN_convert f.embeds_double ha),
      number_convert f.embeds_double ha] at hle
    exact hle.not_gt hlt
  · have hle := h.2 m hm
    rw [le_iff_number_le (isNaN_convert f.embeds_double ha) hmn,
      number_convert f.embeds_double ha] at hle
    exact hle.not_gt hlt

theorem inRange_of_not_outside (hp : ProperLimits r.minimum r.maximum) (ha : a.isNaN = false)
    (h : ¬ Outside r.minimum r.maximum a) : r.inRange a := by
  rw [inRange, Bool.and_eq_true, Option.all_eq_true, Option.all_eq_true]
  constructor
  · intro m hm
    rw [le_iff_number_le (hp.1 m hm) (isNaN_convert f.embeds_double ha),
      number_convert f.embeds_double ha]
    by_contra hlt
    exact h ⟨ha, .inl ⟨m, hm, hp.1 m hm, lt_of_not_ge hlt⟩⟩
  · intro m hm
    rw [le_iff_number_le (isNaN_convert f.embeds_double ha) (hp.2 m hm),
      number_convert f.embeds_double ha]
    by_contra hlt
    exact h ⟨ha, .inr ⟨m, hm, hp.2 m hm, lt_of_not_ge hlt⟩⟩

theorem error_unlimited (e a : Binary f) : (r.unlimited.judge e a).error = (r.judge e a).error := by
  by_cases h : e.isFinite ∧ a.isFinite
  · rw [judge_of_isFinite _ h.1 h.2, judge_of_isFinite _ h.1 h.2]
    rfl
  · obtain ⟨passed, hjudge⟩ := r.judge_of_not_isFinite h
    rw [hjudge r.unlimited rfl, hjudge r rfl]

/-- Limits are looked at between finite data only. -/
theorem passed_iff : (r.judge e a).passed ↔
    (r.unlimited.judge e a).passed ∧ (e.isFinite → a.isFinite → r.inRange a) := by
  by_cases h : e.isFinite ∧ a.isFinite
  · obtain ⟨he, ha⟩ := h
    have hfree : r.unlimited.inRange a = true := rfl
    have herror : r.unlimited.finiteError e a = r.finiteError e a := rfl
    rw [judge_of_isFinite _ he ha, judge_of_isFinite _ he ha, hfree, herror, Bool.true_and,
      Bool.and_eq_true]
    exact ⟨fun h => ⟨h.2, fun _ _ => h.1⟩, fun h => ⟨h.2 he ha, h.1⟩⟩
  · obtain ⟨passed, hjudge⟩ := r.judge_of_not_isFinite h
    rw [hjudge r.unlimited rfl, hjudge r rfl]
    exact ⟨fun hp => ⟨hp, fun he ha => absurd ⟨he, ha⟩ h⟩, And.left⟩

theorem finite_or_eq_of_passed (ha : a.isNaN = false) (hpass : (r.judge e a).passed) :
    (e.isFinite ∧ a.isFinite) ∨ (a.isInfinite ∧ e = a) := by
  obtain hn | ⟨he, -, hi⟩ | hfinite := classes_cases e a
  · rw [judge, r.judgeBy_of_isNaN pow hn] at hpass
    change r.matchesNaN e a = true at hpass
    simp [matchesNaN, ha] at hpass
  · rw [judge, r.judgeBy_of_isInfinite pow he ha hi] at hpass
    obtain rfl : e = a := of_decide_eq_true hpass
    exact .inr ⟨by simpa using hi, rfl⟩
  · exact .inl hfinite

/-- Of the numbers beyond a limit only an infinity is accepted, and only where it is expected. -/
theorem infinite_of_passed (hpass : (r.judge e a).passed) (hout : Outside r.minimum r.maximum a) :
    a.isInfinite ∧ e = a := by
  obtain ⟨he, ha⟩ | heq := finite_or_eq_of_passed hout.1 hpass
  · exact absurd hout (not_outside_of_inRange ((passed_iff.mp hpass).2 he ha))
  · exact heq

theorem passed_of_unlimited (hp : ProperLimits r.minimum r.maximum)
    (hpass : (r.unlimited.judge e a).passed)
    (hout : Outside r.minimum r.maximum a → a.isInfinite) : (r.judge e a).passed := by
  refine passed_iff.mpr ⟨hpass, fun _ ha => ?_⟩
  apply inRange_of_not_outside hp (isNaN_of_isFinite ha)
  intro ho
  exact Bool.false_ne_true ((isInfinite_of_isFinite ha).symm.trans (hout ho))

end Rule

namespace Verdict

theorem passed_ofJudgements (js : List Judgement) :
    (ofJudgements js).passed = js.all Judgement.passed := by
  match js with
  | [] => rfl
  | [j] => simp [ofJudgements]
  | _ :: _ :: _ => rfl

theorem deviation_ofJudgements_congr {js ks : List Judgement}
    (h : js.map Judgement.error = ks.map Judgement.error) :
    (ofJudgements js).deviation = (ofJudgements ks).deviation := by
  match js, ks with
  | [], [] => rfl
  | [j], [k] => simpa [ofJudgements] using h
  | _ :: _ :: _, _ :: _ :: _ => simpa [ofJudgements] using h
  | [], _ :: _ | _ :: _, [] | [_], _ :: _ :: _ | _ :: _ :: _, [_] => simp at h

variable {r : Rule} {e a : Value}

theorem float_passed_iff (ht : e.ty = a.ty) :
    (float f r e a).passed ↔ ∀ i < e.ty.laneCount,
      (r.judge ((e.laneAt i).toBinary f) ((a.laneAt i).toBinary f)).passed := by
  rw [float, passed_ofJudgements, Value.lanes, Value.lanes, ← ht, List.zip_map', List.map_map,
    List.all_map, List.all_eq_true]
  simp

theorem deviation_float_unlimited (e a : Value) :
    (float f r.unlimited e a).deviation = (float f r e a).deviation := by
  apply deviation_ofJudgements_congr
  rw [List.map_map, List.map_map]
  exact List.map_congr_left fun p _ => Rule.error_unlimited _ _

end Verdict

namespace Session

variable {s : Session}

def unlimited (s : Session) : Session :=
  { s with options := { s.options with minimum := none, maximum := none } }

theorem rule_typed_unlimited (ty : ValueType) :
    (s.unlimited.typed ty).rule = (s.typed ty).rule.unlimited := by
  cases ht : s.valueType <;> simp [typed, unlimited, ht] <;> rfl

theorem compare_returns {expected actual : Value} (ht : actual.ty = expected.ty)
    (hs : s.valueType = none ∨ s.valueType = some expected.ty) :
    ∃ step, s.compare expected actual = .ok step ∧
      step.verdict = Verdict.judge (s.typed expected.ty).rule expected actual := by
  have htakes : s.Takes expected.ty := by
    obtain hs | hs := hs <;> simp [Takes, hs]
  exact ⟨_, compare_eq ht.symm htakes, rfl⟩

/-- Limits let a comparison fail as soon as a lane of the actual value lies beyond them, unless it
is an infinity that is expected bit for bit. Apart from that they change nothing. -/
theorem limits_override (s : Session) {expected actual : Value}
    (hf : expected.ty.format? = some f) (ht : actual.ty = expected.ty)
    (hs : s.valueType = none ∨ s.valueType = some expected.ty) :
    let minimum := s.options.minimum
    let maximum := s.options.maximum
    let lane (v : Value) (i : Nat) : Binary f := (v.laneAt i).toBinary f
    let outside (i : Nat) : Prop := Outside minimum maximum (lane actual i)
    ∃ step free, s.compare expected actual = .ok step ∧
      s.unlimited.compare expected actual = .ok free ∧
      (∀ i < expected.ty.laneCount, outside i →
        (lane actual i).isInfinite = false ∨ lane expected i ≠ lane actual i →
        step.verdict.passed = false) ∧
      (ProperLimits minimum maximum → (step.verdict.passed ↔ free.verdict.passed ∧
        ∀ i < expected.ty.laneCount, outside i → (lane actual i).isInfinite)) ∧
      step.verdict.deviation = free.verdict.deviation := by
  intro minimum maximum lane outside
  obtain ⟨step, hstep, hv⟩ := compare_returns ht hs
  obtain ⟨free, hfree, hw⟩ := compare_returns (s := s.unlimited) ht hs
  rw [rule_typed_unlimited] at hw
  set r := (s.typed expected.ty).rule
  have hmin : r.minimum = minimum := congrArg Options.minimum (options_typed _)
  have hmax : r.maximum = maximum := congrArg Options.maximum (options_typed _)
  have hbeyond : ∀ i, Outside r.minimum r.maximum (lane actual i) ↔ outside i := by
    intro i
    rw [hmin, hmax]
  rw [Verdict.judge, hf] at hv hw
  dsimp only at hv hw
  refine ⟨step, free, hstep, hfree, ?_, ?_, ?_⟩
  · intro i hi hout hexcept
    rw [hv, ← Bool.not_eq_true, Verdict.float_passed_iff ht.symm]
    intro hall
    obtain ⟨hinf, heq⟩ := Rule.infinite_of_passed (hall i hi) ((hbeyond i).mpr hout)
    obtain hfinite | hne := hexcept
    · exact Bool.false_ne_true (hfinite.symm.trans hinf)
    · exact hne heq
  · intro hp
    rw [← hmin, ← hmax] at hp
    rw [hv, hw, Verdict.float_passed_iff ht.symm, Verdict.float_passed_iff ht.symm]
    constructor
    · intro hall
      refine ⟨fun i hi => (Rule.passed_iff.mp (hall i hi)).1, fun i hi hout => ?_⟩
      exact (Rule.infinite_of_passed (hall i hi) ((hbeyond i).mpr hout)).1
    · rintro ⟨hfree, hinf⟩ i hi
      refine Rule.passed_of_unlimited hp (hfree i hi) fun hout => ?_
      exact hinf i hi ((hbeyond i).mp hout)
  · rw [hv, hw, Verdict.deviation_float_unlimited]

theorem limits_override_pair :
    let s := start { method := .decimal, maximum := some (ofNat .double 1) }
    let v : Value := .ofNat (.packed .f32x2) 0x3fc000003f000000
    v.ty.format? = some .single ∧ s.valueType = none ∧
      ProperLimits s.options.minimum s.options.maximum ∧
      Outside s.options.minimum s.options.maximum ((v.laneAt 1).toBinary .single) ∧
      ((v.laneAt 1).toBinary .single).isInfinite = false ∧
      ∃ step free, s.compare v v = .ok step ∧ s.unlimited.compare v v = .ok free ∧
        step.verdict.passed = false ∧
        (step.verdict.passed ↔ free.verdict.passed ∧ ∀ i < v.ty.laneCount,
          Outside s.options.minimum s.options.maximum ((v.laneAt i).toBinary .single) →
            ((v.laneAt i).toBinary .single).isInfinite) := by
  intro s v
  have hp : ProperLimits s.options.minimum s.options.maximum := by
    refine ⟨by simp [s, start], ?_⟩
    intro m hm
    obtain rfl : ofNat .double 1 = m := Option.some.inj hm
    exact (isMagnitude_ofNat 1).isNaN
  have hn : ((v.laneAt 1).toBinary .single).isNaN = false := by decide +kernel
  have hi : ((v.laneAt 1).toBinary .single).isInfinite = false := by decide +kernel
  have hlt : (ofNat .double 1).lt (((v.laneAt 1).toBinary .single).convert .double) := by
    decide +kernel
  have hout : Outside s.options.minimum s.options.maximum ((v.laneAt 1).toBinary .single) :=
    outside_of_lt (isMagnitude_ofNat 1).isNaN hn hlt
  have hf : v.ty.format? = some .single := rfl
  have ht : v.ty = v.ty := rfl
  obtain ⟨step, free, hstep, hfree, hfails, hpasses, -⟩ := limits_override s hf ht (.inl rfl)
  have hfail := hfails 1 (by decide) hout (.inl hi)
  exact ⟨hf, rfl, hp, hout, hi, step, free, hstep, hfree, hfail, hpasses hp⟩

/-- An expected infinity passes, however low the greatest accepted value. -/
theorem infinity_passes_beyond_limit :
    let s := start { method := .decimal, maximum := some (ofNat .double 1) }
    let v : Value := .ofNat (.scalar .f32) 0x7f800000
    v.ty.isFloat ∧ (ofNat .double 1).isNaN = false ∧
      Outside s.options.minimum s.options.maximum ((v.laneAt 0).toBinary .single) ∧
      ∃ step, s.compare v v = .ok step ∧ step.verdict.passed := by
  intro s v
  have hn : ((v.laneAt 0).toBinary .single).isNaN = false := by decide +kernel
  have hlt : (ofNat .double 1).lt (((v.laneAt 0).toBinary .single).convert .double) := by
    decide +kernel
  have hone := (isMagnitude_ofNat (f := .double) 1).isNaN
  refine ⟨rfl, hone, outside_of_lt hone hn hlt, _, rfl, ?_⟩
  decide +kernel

end Session

end Conformance.Comparison
