import Mathlib
import Conformance.Proofs.Comparison.Tolerance

namespace Conformance.Comparison

open Binary

variable {f : Format}

namespace Method

variable {m : Method} {x y p : Double}

theorem accepts_of_code_le (hx : x.IsMagnitude) (hy : y.IsMagnitude) (h : x.code ≤ y.code)
    (hay : m.accepts y p) : m.accepts x p := by
  by_contra hax
  have hlt := m.code_lt_of_accepts hy hx hay (Bool.eq_false_iff.mpr hax)
  omega

theorem accepts_smaller (hx : x.IsMagnitude) (hy : y.IsMagnitude) :
    m.accepts (x.smaller y) p ↔ m.accepts x p ∨ m.accepts y p := by
  have hs := hx.smaller hy
  have hcode := hx.code_smaller hy
  constructor
  · intro h
    obtain hle | hle := Nat.le_total x.code y.code
    · exact .inl (accepts_of_code_le hx hs (by omega) h)
    · exact .inr (accepts_of_code_le hy hs (by omega) h)
  · rintro (h | h)
    · exact accepts_of_code_le hs hx (by omega) h
    · exact accepts_of_code_le hs hy (by omega) h

end Method

/-- A judgement that is no worse than another one. -/
structure Judgement.Eases (j k : Judgement) : Prop where
  code_le : j.error.code ≤ k.error.code
  passed : k.passed → j.passed

namespace Rule

variable (r : Rule) (e a : Binary f)

def flushing (flush : Bool) : Rule := { r with flush }

theorem judge_flushing_of_isFinite {e a : Binary f} (he : e.isFinite) (ha : a.isFinite) :
    let error := r.method.error e a
    let flushed := r.method.error e.flush a.flush
    (r.flushing false).judge e a = ⟨r.inRange a && r.method.accepts error r.precision, error⟩ ∧
      (r.flushing true).judge e a =
        ⟨r.inRange a && r.method.accepts (error.smaller flushed) r.precision,
          error.smaller flushed⟩ := by
  intro error flushed
  rw [judge_of_isFinite _ he ha, judge_of_isFinite _ he ha]
  exact ⟨rfl, rfl⟩

theorem judge_flushing_of_not_isFinite {e a : Binary f} (h : ¬(e.isFinite ∧ a.isFinite)) :
    (r.flushing true).judge e a = (r.flushing false).judge e a := by
  obtain ⟨passed, hjudge⟩ := r.judge_of_not_isFinite h
  rw [hjudge (r.flushing true) rfl, hjudge (r.flushing false) rfl]

theorem passed_flushing :
    ((r.flushing true).judge e a).passed ↔ ((r.flushing false).judge e a).passed ∨
      e.isFinite ∧ a.isFinite ∧ r.inRange a ∧
        r.method.accepts (r.method.error e.flush a.flush) r.precision := by
  by_cases h : e.isFinite ∧ a.isFinite
  · obtain ⟨he, ha⟩ := h
    have hm := r.method.error_isMagnitude he ha
    have hm' := r.method.error_isMagnitude (isFinite_flush he) (isFinite_flush ha)
    obtain ⟨hoff, hon⟩ := r.judge_flushing_of_isFinite he ha
    rw [hoff, hon, Bool.and_eq_true, Bool.and_eq_true, Method.accepts_smaller hm hm']
    tauto
  · rw [r.judge_flushing_of_not_isFinite h]
    tauto

theorem judge_flushing_eases :
    ((r.flushing true).judge e a).Eases ((r.flushing false).judge e a) := by
  refine ⟨?_, fun hp => (r.passed_flushing e a).mpr (.inl hp)⟩
  by_cases h : e.isFinite ∧ a.isFinite
  · obtain ⟨he, ha⟩ := h
    have hm := r.method.error_isMagnitude he ha
    have hm' := r.method.error_isMagnitude (isFinite_flush he) (isFinite_flush ha)
    obtain ⟨hoff, hon⟩ := r.judge_flushing_of_isFinite he ha
    rw [hoff, hon, hm.code_smaller hm']
    exact Nat.min_le_left _ _
  · rw [r.judge_flushing_of_not_isFinite h]

end Rule

namespace Verdict

structure Eases (v w : Verdict) : Prop where
  le : v.deviation.magnitude.le w.deviation.magnitude
  passed : w.passed → v.passed

theorem code_ofJudgements_map_le {α : Type} {l : List α} {j k : α → Judgement}
    (hj : ∀ x ∈ l, (j x).error.IsMagnitude) (hk : ∀ x ∈ l, (k x).error.IsMagnitude)
    (h : ∀ x ∈ l, (j x).Eases (k x)) :
    (ofJudgements (l.map j)).code ≤ (ofJudgements (l.map k)).code := by
  refine Nat.lt_succ_iff.mp (code_ofJudgements_lt (List.forall_mem_map.mpr hj) (Nat.succ_pos _) ?_)
  rw [List.forall_mem_map]
  intro x hx
  have hle := code_le_ofJudgements (List.forall_mem_map.mpr hk) (List.mem_map_of_mem hx)
  exact Nat.lt_succ_of_le ((h x hx).code_le.trans hle)

theorem judge_flushing_eases (r : Rule) (e a : Value) :
    (judge (r.flushing true) e a).Eases (judge (r.flushing false) e a) := by
  have hon := judge_isMagnitude (r.flushing true) e a
  have hoff := judge_isMagnitude (r.flushing false) e a
  cases hf : e.ty.format? with
  | none =>
    have hsame : judge (r.flushing true) e a = judge (r.flushing false) e a := by
      rw [judge, judge, hf]
    rw [hsame]
    exact ⟨(hoff.le_iff hoff).mpr (le_refl _), id⟩
  | some f =>
    have heases : ∀ p ∈ e.lanes.zip a.lanes,
        ((r.flushing true).judge (p.1.toBinary f) (p.2.toBinary f)).Eases
          ((r.flushing false).judge (p.1.toBinary f) (p.2.toBinary f)) :=
      fun p _ => r.judge_flushing_eases _ _
    refine ⟨(hon.le_iff hoff).mpr ?_, ?_⟩
    · rw [judge_of_format hf, judge_of_format hf]
      exact code_ofJudgements_map_le (fun _ _ => Rule.judge_error_isMagnitude _ _ _)
        (fun _ _ => Rule.judge_error_isMagnitude _ _ _) heases
    · rw [judge_of_format hf, judge_of_format hf, passed_ofJudgements,
        passed_ofJudgements, judgements, judgements, List.all_map, List.all_map, List.all_eq_true,
        List.all_eq_true]
      exact fun hp p hmem => (heases p hmem).passed (hp p hmem)

end Verdict

/-- An outcome that is no worse than another one of the same operation. -/
inductive Outcome.Eases : Outcome → Outcome → Prop
  | same (o : Outcome) : Eases o o
  | judged {c d : Check} (expected : c.expected = d.expected) (actual : c.actual = d.actual)
      (verdict : c.verdict.Eases d.verdict) : Eases (.judged c) (.judged d)

namespace Session

/-- Two sessions of the same history, of which the first flushes and the second does not. -/
structure Eases (on off : Session) : Prop where
  options : on.options = { off.options with flush := true }
  unflushed : off.options.flush = false
  precision : on.precision = off.precision
  valueType : on.valueType = off.valueType
  checks : on.checks = off.checks
  failed : on.failed ≤ off.failed

namespace Eases

variable {on off : Session}

theorem fresh (options : Options) (precision : Option Double) (valueType : Option ValueType) :
    Eases { options := { options with flush := true }, precision, valueType }
      { options := { options with flush := false }, precision, valueType } := by
  constructor <;> rfl

theorem rule (h : Eases on off) :
    ∃ r : Rule, on.rule = r.flushing true ∧ off.rule = r.flushing false := by
  refine ⟨off.rule, ?_, ?_⟩
  · simp only [Session.rule, Rule.flushing, h.options, h.precision]
  · simp only [Session.rule, Rule.flushing, h.unflushed]

theorem reset (h : Eases on off) (ty : ValueType) : Eases (on.reset ty) (off.reset ty) := by
  have hprecision : on.precisionFor ty = off.precisionFor ty := by
    simp only [precisionFor, h.options]
  exact ⟨h.options, h.unflushed, hprecision, rfl, rfl, le_refl _⟩

theorem typed (h : Eases on off) (ty : ValueType) : Eases (on.typed ty) (off.typed ty) := by
  rw [Session.typed, Session.typed, h.valueType]
  cases off.valueType with
  | some _ => exact h
  | none => exact h.reset ty

theorem record (h : Eases on off) {c d : Check} (hcd : c.failed → d.failed) :
    Eases (on.record c) (off.record d) := by
  refine ⟨by simp [h.options], by simp [h.unflushed], by simp [h.precision], by simp [h.valueType],
    by simp [h.checks], ?_⟩
  rw [failed_record, failed_record]
  have hle := h.failed
  split_ifs with hc hd
  · omega
  · exact absurd (hcd hc) hd
  · omega
  · omega

/-- What one operation preserves. -/
theorem perform (h : Eases on off) (op : Operation) :
    (on.perform op).1.Eases (off.perform op).1 ∧ Eases (on.perform op).2 (off.perform op).2 := by
  cases op with
  | reset ty => exact ⟨.same _, h.reset ty⟩
  | compare e a =>
    by_cases hfits : e.ty = a.ty ∧ off.Takes e.ty
    · have htakes : on.Takes e.ty := by simpa only [Takes, h.valueType] using hfits.2
      obtain ⟨r, hon, hoff⟩ := (h.typed e.ty).rule
      have hverdict := Verdict.judge_flushing_eases r e a
      rw [← hon, ← hoff] at hverdict
      rw [perform_judged hfits.1 htakes, perform_judged hfits.1 hfits.2]
      refine ⟨.judged rfl rfl hverdict, (h.typed e.ty).record ?_⟩
      simp only [Check.failed, Bool.not_eq_true']
      exact fun hfail => Bool.eq_false_iff.mpr fun hp =>
        Bool.eq_false_iff.mp hfail (hverdict.passed hp)
    · obtain ⟨fault, hrefused⟩ := perform_refused hfits
      rw [hrefused on h.valueType, hrefused off rfl]
      exact ⟨.same _, h⟩
  | setDefaultPrecision =>
    have hsame : on.options.method = off.options.method := by rw [h.options]
    cases ht : off.valueType with
    | none =>
      have hton : on.valueType = none := h.valueType.trans ht
      simp only [Session.perform, setDefaultPrecision, hton, ht]
      exact ⟨.same _, h⟩
    | some ty =>
      have hton : on.valueType = some ty := h.valueType.trans ht
      simp only [Session.perform, setDefaultPrecision, hton, ht, hsame]
      exact ⟨.same _, h.options, h.unflushed, rfl, rfl, h.checks, h.failed⟩

theorem run (h : Eases on off) (ops : List Operation) :
    List.Forall₂ Outcome.Eases (on.run ops).1 (off.run ops).1 ∧
    Eases (on.run ops).2 (off.run ops).2 := by
  induction ops generalizing on off with
  | nil => exact ⟨.nil, h⟩
  | cons op rest ih =>
    obtain ⟨houtcome, hnext⟩ := h.perform op
    obtain ⟨houtcomes, hfinal⟩ := ih hnext
    exact ⟨.cons houtcome houtcomes, hfinal⟩

end Eases

/-- With flushing a lane passes if it passes without or if both data are finite, the actual one lies
within the limits and the error of the flushed data is accepted. No error grows, and of the same
operations none fails that does not fail without flushing. -/
theorem flushing_forgives (f : Format) (r : Rule) (options : Options) (ops : List Operation) :
    let on := (start { options with flush := true }).run ops
    let off := (start { options with flush := false }).run ops
    (∀ e a : Binary f,
      ((r.flushing true).judge e a).passed ↔ ((r.flushing false).judge e a).passed ∨
        e.isFinite ∧ a.isFinite ∧ r.inRange a ∧
          r.method.accepts (r.method.error e.flush a.flush) r.precision) ∧
    (∀ e a : Binary f,
      ((r.flushing true).judge e a).error.le ((r.flushing false).judge e a).error) ∧
    List.Forall₂ Outcome.Eases on.1 off.1 ∧
    on.2.checks = off.2.checks ∧ on.2.failed ≤ off.2.failed := by
  intro on off
  have hstart :
      Eases (start { options with flush := true }) (start { options with flush := false }) :=
    .fresh options none none
  obtain ⟨houtcomes, hfinal⟩ := hstart.run ops
  refine ⟨r.passed_flushing, fun e a => ?_, houtcomes, hfinal.checks, hfinal.failed⟩
  rw [(Rule.judge_error_isMagnitude _ e a).le_iff (Rule.judge_error_isMagnitude _ e a)]
  exact (r.judge_flushing_eases e a).code_le

example :
    let r : Rule := ⟨.ulps, zero false, false, none, none⟩
    ((r.flushing false).judge (zero false) (least .half)).passed = false ∧
      ((r.flushing true).judge (zero false) (least .half)).passed := by
  decide +kernel

end Session

end Conformance.Comparison
