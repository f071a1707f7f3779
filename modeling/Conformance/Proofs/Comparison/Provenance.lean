import Mathlib
import Conformance.Proofs.Comparison.Run

namespace Conformance.Comparison.Session

/-- How the checks since the last reset came about. -/
structure Judged (s : Session) (checks : List Check) : Prop where
  expected : ∀ c ∈ checks, s.valueType = some c.expected.ty
  actual : ∀ c ∈ checks, c.actual.ty = c.expected.ty
  verdict : ∀ c ∈ checks, ∃ p,
    c.verdict = Verdict.judge { s.rule with precision := p } c.expected c.actual

theorem judged_nil (s : Session) : s.Judged [] := by
  constructor <;> simp

variable {s t : Session} {checks : List Check}

theorem Judged.congr (h : s.Judged checks) (hty : t.valueType = s.valueType)
    (ho : t.options = s.options) : t.Judged checks := by
  refine ⟨fun c hc => ?_, h.actual, fun c hc => ?_⟩
  · rw [hty]
    exact h.expected c hc
  · obtain ⟨p, hp⟩ := h.verdict c hc
    exact ⟨p, by simpa [rule, ho] using hp⟩

theorem Judged.typed (h : s.Judged checks) (ty : ValueType) : (s.typed ty).Judged checks := by
  rw [Session.typed]
  cases ht : s.valueType with
  | some _ => exact h
  | none =>
    -- without a type nothing has been judged
    have hnil : checks = [] := by
      rw [List.eq_nil_iff_forall_not_mem]
      intro c hc
      have hty := h.expected c hc
      rw [ht] at hty
      cases hty
    rw [hnil]
    exact judged_nil _

theorem Judged.concat (h : s.Judged checks) {c : Check} (he : s.valueType = some c.expected.ty)
    (ha : c.actual.ty = c.expected.ty) (hv : c.verdict = Verdict.judge s.rule c.expected c.actual) :
    s.Judged (checks ++ [c]) := by
  constructor
  · exact List.forall_mem_append.mpr ⟨h.expected, List.forall_mem_singleton.mpr he⟩
  · exact List.forall_mem_append.mpr ⟨h.actual, List.forall_mem_singleton.mpr ha⟩
  · exact List.forall_mem_append.mpr ⟨h.verdict, List.forall_mem_singleton.mpr ⟨_, hv⟩⟩

theorem ty_of_compare_ok {expected actual : Value} {step : Step}
    (h : s.compare expected actual = .ok step) : actual.ty = expected.ty := by
  by_contra hne
  simp [compare, Ne.symm hne] at h

/-- What one operation preserves. -/
theorem Judged.perform {os : List Outcome} (h : s.Judged (sinceReset os)) (op : Operation) :
    (s.perform op).2.Judged (sinceReset (os ++ [(s.perform op).1])) := by
  cases op with
  | reset ty =>
    simp only [Session.perform, sinceReset_cleared]
    exact judged_nil _
  | compare expected actual =>
    cases hc : s.compare expected actual with
    | error fault => simpa [Session.perform, hc, sinceReset_concat, Outcome.check?] using h
    | ok step =>
      obtain ⟨hty, hv, hs⟩ := compare_ok hc
      have hall := (h.typed expected.ty).concat (c := ⟨expected, actual, step.verdict⟩) hty
        (ty_of_compare_ok hc) hv
      have hnext : ((s.typed expected.ty).record ⟨expected, actual, step.verdict⟩).Judged _ :=
        hall.congr (valueType_record _) (options_record _)
      simpa [Session.perform, hc, sinceReset_concat, Outcome.check?, hs] using hnext
  | setDefaultPrecision =>
    cases hc : s.setDefaultPrecision with
    | error fault => simpa [Session.perform, hc, sinceReset_concat, Outcome.check?] using h
    | ok next =>
      have hn : next.Judged (sinceReset os) := by
        unfold setDefaultPrecision at hc
        split at hc
        · obtain rfl := Except.ok.inj hc
          exact h.congr rfl rfl
        · cases hc
      simpa [Session.perform, hc, sinceReset_concat, Outcome.check?] using hn

theorem Judged.run {os : List Outcome} (h : s.Judged (sinceReset os)) (ops : List Operation) :
    (s.run ops).2.Judged (sinceReset (os ++ (s.run ops).1)) := by
  induction ops generalizing s os with
  | nil => simpa [Session.run] using h
  | cons op rest ih =>
    have ht := ih (h.perform op)
    simpa [Session.run, List.append_assoc] using ht

theorem judged_run_start (options : Options) (ops : List Operation) :
    ((start options).run ops).2.Judged (sinceReset ((start options).run ops).1) := by
  have h : (start options).Judged (sinceReset []) := judged_nil _
  simpa using h.run ops

theorem Judged.verdict_eq_exact (h : s.Judged checks) {ty : ValueType} (hty : s.valueType = some ty)
    (hf : ty.isFloat = false) {c : Check} (hc : c ∈ checks) :
    c.verdict = Verdict.exact c.expected c.actual := by
  obtain ⟨p, hp⟩ := h.verdict c hc
  obtain rfl : ty = c.expected.ty := Option.some.inj (hty.symm.trans (h.expected c hc))
  have hn : c.expected.ty.format? = none := by simpa [ValueType.isFloat] using hf
  rw [hp, Verdict.judge, hn]

end Conformance.Comparison.Session
