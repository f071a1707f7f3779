import Mathlib
import Conformance.Proofs.Comparison.Run

namespace Conformance.Comparison

def judgedBy (r : Rule) (pairs : List (Value × Value)) : List Check :=
  pairs.map fun p => ⟨p.1, p.2, Verdict.judge r p.1 p.2⟩

theorem getElem?_judgedBy {r : Rule} {pairs : List (Value × Value)} {i : Nat} {c : Check} :
    (judgedBy r pairs)[i]? = some c ↔
      ∃ p, pairs[i]? = some p ∧ ⟨p.1, p.2, Verdict.judge r p.1 p.2⟩ = c := by
  rw [judgedBy, List.getElem?_map, Option.map_eq_some_iff]

theorem comparable_judgedBy (r : Rule) (pairs : List (Value × Value)) :
    Comparable (judgedBy r pairs) := by
  intro c hc
  obtain ⟨p, -, rfl⟩ := List.mem_map.mp hc
  exact Verdict.judge_isMagnitude r p.1 p.2

theorem sinceReset_append_judged (os : List Outcome) (checks : List Check) :
    sinceReset (os ++ checks.map .judged) = sinceReset os ++ checks := by
  induction checks using List.reverseRecOn with
  | nil => simp
  | append_singleton rest c ih =>
    rw [List.map_append, ← List.append_assoc, List.map_singleton, sinceReset_concat _ (by simp), ih,
      List.append_assoc]
    rfl

theorem sinceReset_judged (checks : List Check) :
    sinceReset (.cleared :: checks.map .judged) = checks := by
  have hcleared : sinceReset [.cleared] = [] := sinceReset_cleared []
  have h := sinceReset_append_judged [.cleared] checks
  rwa [hcleared] at h

namespace Session

variable {s : Session} {ty : ValueType} {pairs : List (Value × Value)}

theorem takes_of_typed (hs : s.valueType = some ty) : s.Takes ty := by simp [Takes, hs]

theorem compare_typed (hs : s.valueType = some ty) {expected actual : Value}
    (he : expected.ty = ty) (ha : actual.ty = ty) :
    s.compare expected actual = .ok (s.check expected actual) := by
  subst he
  have htyped : s.typed expected.ty = s := by rw [typed, hs]
  rw [compare_eq ha.symm (takes_of_typed hs), htyped, notes, hs]
  rfl

/-- Values of the type in use are all judged, and by one rule. -/
theorem run_compares (hs : s.valueType = some ty) (hp : ∀ p ∈ pairs, p.1.ty = ty ∧ p.2.ty = ty) :
    (s.run (pairs.map fun p => .compare p.1 p.2)).1 = (judgedBy s.rule pairs).map .judged ∧
      (s.compareAll pairs).result = .ok (s.run (pairs.map fun p => .compare p.1 p.2)).2 := by
  induction pairs generalizing s with
  | nil => exact ⟨rfl, rfl⟩
  | cons p rest ih =>
    obtain ⟨he, ha⟩ := hp p (by simp)
    have hc := compare_typed hs he ha
    have hn : (s.check p.1 p.2).session.valueType = some ty := by simp [check, hs]
    obtain ⟨ho, hr⟩ := ih hn fun q hq => hp q (by simp [hq])
    have hrule : (s.check p.1 p.2).session.rule = s.rule := by simp [check]
    rw [hrule] at ho
    constructor
    · simp only [List.map_cons, run, perform, hc, ho, judgedBy]
      rfl
    · simp only [List.map_cons, run, perform, hc, compareAll, Logged.after]
      exact hr

theorem valueType_run_compares (hs : s.valueType = some ty)
    (hp : ∀ p ∈ pairs, p.1.ty = ty ∧ p.2.ty = ty) :
    (s.run (pairs.map fun p => .compare p.1 p.2)).2.valueType = some ty := by
  induction pairs generalizing s with
  | nil => exact hs
  | cons p rest ih =>
    obtain ⟨he, ha⟩ := hp p (by simp)
    have hn : (s.check p.1 p.2).session.valueType = some ty := by simp [check, hs]
    simp only [List.map_cons, run, perform, compare_typed hs he ha]
    exact ih hn fun q hq => hp q (by simp [hq])

/-- The first check of a session without a type is judged as after a reset to its type. -/
theorem perform_compare_untyped (hs : s.valueType = none) {expected actual : Value}
    (ht : expected.ty = actual.ty) :
    s.perform (.compare expected actual) =
      (s.reset expected.ty).perform (.compare expected actual) := by
  have hc : (s.reset expected.ty).compare expected actual =
      .ok ((s.reset expected.ty).check expected actual) := compare_typed rfl rfl ht.symm
  simp only [perform, hc]
  simp [compare, ht, hs]

theorem run_compares_untyped (hs : s.valueType = none)
    (hp : ∀ p ∈ pairs, p.1.ty = ty ∧ p.2.ty = ty) :
    (s.run (pairs.map fun p => .compare p.1 p.2)).1 =
      (judgedBy (s.reset ty).rule pairs).map .judged := by
  cases pairs with
  | nil => rfl
  | cons p rest =>
    obtain ⟨he, ha⟩ := hp p (by simp)
    have hfirst := perform_compare_untyped hs (he.trans ha.symm)
    rw [he] at hfirst
    rw [← (run_compares (s := s.reset ty) rfl hp).1, List.map_cons, run, run, hfirst]

theorem precision_of_given {options : Options} {p : Double} (hp : options.precision = some p)
    (hf : ty.isFloat) : ((start options).reset ty).rule.precision = p := by
  simp [rule, reset, precisionFor, start, hp, hf]

/-- What a stream of pairs begins with: nothing, or a reset to their type. -/
def IsOpening (ty : ValueType) (opening : List Operation) : Prop :=
  opening = [] ∨ opening = [.reset ty]

theorem sinceReset_run_start (options : Options) {opening : List Operation}
    (ho : IsOpening ty opening) (hp : ∀ p ∈ pairs, p.1.ty = ty ∧ p.2.ty = ty) :
    sinceReset ((start options).run (opening ++ pairs.map fun p => .compare p.1 p.2)).1 =
      judgedBy ((start options).reset ty).rule pairs := by
  obtain rfl | rfl := ho
  · rw [List.nil_append, run_compares_untyped rfl hp]
    exact sinceReset_append_judged [] _
  · rw [List.singleton_append, run, perform]
    dsimp only
    rw [(run_compares rfl hp).1, sinceReset_judged]

end Session

end Conformance.Comparison
