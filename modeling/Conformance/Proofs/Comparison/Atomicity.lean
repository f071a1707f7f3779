import Mathlib
import Conformance.Proofs.Comparison.InPlace

namespace Conformance.Comparison

def Outcome.result : Outcome → Except InPlace.Fault Outcome
  | .refused fault => .error (.session fault)
  | o => .ok o

theorem Outcome.result_eq_ok {o : Outcome} (h : ∀ fault, o ≠ .refused fault) :
    o.result = .ok o := by
  cases o with
  | refused fault => exact absurd rfl (h fault)
  | cleared | judged | adjusted => rfl

namespace InPlace

def perform : Operation → Action Outcome
  | .reset ty => do
    reset ty
    return .cleared
  | .compare expected actual => do
    let (verdict, _) ← compare expected actual
    return .judged ⟨expected, actual, verdict⟩
  | .setDefaultPrecision => do
    setDefaultPrecision
    return .adjusted

/-- Operations one after the other. A fault is caught, and the next one finds the fields
that are left. -/
def run (s : State) : List Operation → List (Except Fault Outcome) × State
  | [] => ([], s)
  | op :: rest =>
    let step := (perform op).exec s
    let tail := run step.2 rest
    (step.1 :: tail.1, tail.2)

/-- The states that a session can come to. -/
def Reachable (s : State) : Prop := ∃ options ops, s = (run (State.start options) ops).2

def Action.Fails {α : Type} (x : Action α) (s : State) : Prop :=
  ∃ fault, (x.exec s).1 = .error fault

variable {s t : State} {op : Operation} {r : Except Fault Outcome}

/-- What an operation can do: what it does to the session that the fields stand for, or nothing. A
count that is full is a fault of its own. -/
inductive Performs (s : State) : Operation → Except Fault Outcome → State → Prop where
  | returned {op o t} (hperform : s.session.perform op = (o, t.session))
      (ho : ∀ fault, o ≠ .refused fault) (ht : t.Sound) : Performs s op (.ok o) t
  | refused {op fault} (hperform : s.session.perform op = (.refused fault, s.session)) :
      Performs s op (.error (.session fault)) s
  | full {e a} (ht : e.ty = a.ty) (hs : s.valueType = some e.ty)
      (hfull : s.checks.toNat + 1 = UInt64.size) :
        Performs s (.compare e a) (.error (.count .sum)) s

theorem performs_compare (h : s.Sound) (e a : Value) :
    Performs s (.compare e a) ((perform (.compare e a)).exec s).1
      ((perform (.compare e a)).exec s).2 := by
  by_cases ht : e.ty = a.ty
  · by_cases hs : s.session.Takes e.ty
    · obtain hroom | hfull := Nat.lt_or_eq_of_le (s.typed e.ty).checks.toNat_lt
      · obtain ⟨step, t, hstep, hcompare, hsession, hsound⟩ := exec_compare ht h hroom hs
        have hperform : (perform (.compare e a)).exec s = (.ok (.judged ⟨e, a, step.verdict⟩), t) :=
          exec_bind_ok hcompare
        rw [hperform]
        exact .returned (by simp [Session.perform, hstep, hsession]) (by simp) hsound
      · obtain ⟨htyped, hfull⟩ := typed_full hfull hs
        have hperform : (perform (.compare e a)).exec s = (.error (.count .sum), s) :=
          exec_bind_error (exec_compare_full ht htyped hfull)
        rw [hperform]
        exact .full ht htyped hfull
    · simp only [Session.Takes, not_forall] at hs
      obtain ⟨configured, hv, hne⟩ := hs
      have hperform : (perform (.compare e a)).exec s =
          (.error (.session (.other configured e.ty)), s) :=
        exec_bind_error (exec_compare_other ht hv hne)
      have hsession : s.session.valueType = some configured := hv
      rw [hperform]
      exact .refused (by simp [Session.perform, Session.compare, ht, hsession, ht ▸ hne])
  · have hperform : (perform (.compare e a)).exec s = (.error (.session (.mixed e.ty a.ty)), s) :=
      exec_bind_error (exec_compare_mixed ht)
    rw [hperform]
    exact .refused (by simp [Session.perform, Session.compare, ht])

theorem performs_setDefaultPrecision (h : s.Sound) :
    Performs s .setDefaultPrecision ((perform .setDefaultPrecision).exec s).1
      ((perform .setDefaultPrecision).exec s).2 := by
  cases hv : s.valueType with
  | none =>
    have hperform : (perform .setDefaultPrecision).exec s = (.error (.session .noType), s) :=
      exec_bind_error (exec_setDefaultPrecision_untyped hv)
    have hsession : s.session.valueType = none := hv
    rw [hperform]
    exact .refused (by simp [Session.perform, Session.setDefaultPrecision, hsession])
  | some ty =>
    let t : State := { s with precision := s.options.method.defaultPrecision ty }
    have hperform : (perform .setDefaultPrecision).exec s = (.ok .adjusted, t) :=
      exec_bind_ok (exec_setDefaultPrecision hv)
    have hsession : s.session.perform .setDefaultPrecision = (.adjusted, t.session) := by
      cases s
      cases hv
      rfl
    rw [hperform]
    exact .returned hsession (by simp) ⟨h.failed_le, h.fits⟩

theorem exec_perform_reset (s : State) (ty : ValueType) :
    (perform (.reset ty)).exec s = (.ok .cleared, s.cleared ty) := exec_bind_ok (exec_reset s ty)

theorem performs_reset (s : State) (ty : ValueType) :
    Performs s (.reset ty) ((perform (.reset ty)).exec s).1 ((perform (.reset ty)).exec s).2 := by
  rw [exec_perform_reset]
  exact .returned rfl (by simp) (sound_cleared s ty)

theorem performs (h : s.Sound) (op : Operation) :
    Performs s op ((perform op).exec s).1 ((perform op).exec s).2 := by
  cases op with
  | reset ty => exact performs_reset s ty
  | compare e a => exact performs_compare h e a
  | setDefaultPrecision => exact performs_setDefaultPrecision h

namespace Performs

theorem sound (hp : Performs s op r t) (h : s.Sound) : t.Sound := by
  cases hp with
  | returned _ _ ht => exact ht
  | refused | full => exact h

theorem unchanged (hp : Performs s op r t) {fault : Fault} (hr : r = .error fault) : t = s := by
  cases hp with
  | returned => cases hr
  | refused | full => rfl

/-- Short of a full count the fields do what the session does. -/
theorem agrees (hp : Performs s op r t) (hroom : s.checks.toNat + 1 < UInt64.size) :
    r = (s.session.perform op).1.result ∧ t.session = (s.session.perform op).2 := by
  cases hp with
  | returned hperform ho _ =>
    rw [hperform]
    exact ⟨(Outcome.result_eq_ok ho).symm, rfl⟩
  | refused hperform =>
    rw [hperform]
    exact ⟨rfl, rfl⟩
  | full _ _ hfull => exact absurd hfull hroom.ne

end Performs

theorem sound_run (h : s.Sound) (ops : List Operation) : (run s ops).2.Sound := by
  induction ops generalizing s with
  | nil => exact h
  | cons op rest ih => exact ih ((performs h op).sound h)

theorem sound_start (options : Options) : (State.start options).Sound :=
  ⟨le_refl _, by simp [State.start]⟩

theorem Reachable.sound (h : Reachable s) : s.Sound := by
  obtain ⟨options, ops, rfl⟩ := h
  exact sound_run (sound_start options) ops

theorem checks_perform_le (s : Session) (op : Operation) :
    (s.perform op).2.checks ≤ s.checks + 1 := by
  cases op with
  | reset ty => exact Nat.zero_le _
  | compare e a =>
    cases hc : s.compare e a with
    | error fault => simp [Session.perform, hc]
    | ok step =>
      obtain ⟨-, -, hsession⟩ := Session.compare_ok hc
      have htyped : (s.typed e.ty).checks ≤ s.checks := by
        rw [Session.typed]
        split
        · exact le_refl _
        · exact Nat.zero_le _
      simpa [Session.perform, hc, hsession] using htyped
  | setDefaultPrecision =>
    cases hs : s.valueType <;> simp [Session.perform, Session.setDefaultPrecision, hs]

theorem run_agrees (h : s.Sound) {ops : List Operation}
    (hroom : s.checks.toNat + ops.length < UInt64.size) :
    (run s ops).1 = (s.session.run ops).1.map Outcome.result ∧
      (run s ops).2.session = (s.session.run ops).2 := by
  induction ops generalizing s with
  | nil => exact ⟨rfl, rfl⟩
  | cons op rest ih =>
    rw [List.length_cons] at hroom
    have hp := performs h op
    obtain ⟨hresult, hsession⟩ := hp.agrees (by omega)
    have hchecks : ((perform op).exec s).2.checks.toNat ≤ s.checks.toNat + 1 := by
      have hle := checks_perform_le s.session op
      rwa [← hsession] at hle
    obtain ⟨hresults, hfinal⟩ := ih (hp.sound h) (by omega)
    rw [hsession] at hresults hfinal
    rw [run, Session.run]
    exact ⟨by rw [List.map_cons, ← hresult, ← hresults], hfinal⟩

theorem fails_iff (h : s.Sound) (hroom : s.checks.toNat + 1 < UInt64.size) (op : Operation) :
    (perform op).Fails s ↔ ∃ fault, (s.session.perform op).1 = .refused fault := by
  rw [Action.Fails, ((performs h op).agrees hroom).1]
  cases (s.session.perform op).1 <;> simp [Outcome.result]

theorem refuses_compare_iff (s : Session) (e a : Value) :
    (∃ fault, (s.perform (.compare e a)).1 = .refused fault) ↔
      e.ty ≠ a.ty ∨ ∃ ty, s.valueType = some ty ∧ ty ≠ e.ty := by
  have hother : (e.ty ≠ a.ty ∨ ∃ ty, s.valueType = some ty ∧ ty ≠ e.ty) ↔
      ¬(e.ty = a.ty ∧ s.Takes e.ty) := by
    rw [not_and_or]
    simp [Session.Takes]
  rw [hother]
  constructor
  · rintro ⟨fault, hrefused⟩ ⟨ht, hs⟩
    rw [Session.perform_judged ht hs] at hrefused
    cases hrefused
  · intro hfits
    obtain ⟨fault, hrefused⟩ := Session.perform_refused hfits
    exact ⟨fault, by rw [hrefused s rfl]⟩

theorem refuses_setDefaultPrecision_iff (s : Session) :
    (∃ fault, (s.perform .setDefaultPrecision).1 = .refused fault) ↔ s.valueType = none := by
  cases hs : s.valueType <;> simp [Session.perform, Session.setDefaultPrecision, hs]

/-- In every state that a session can come to, an operation that fails has changed no field, so that
what follows is as if it had not been asked for. While the count is not full, a comparison fails for
the types alone, the default precision for want of a type, and a reset never. -/
theorem faults_atomic (hs : Reachable s) :
    (∀ op, (perform op).Fails s → ((perform op).exec s).2 = s) ∧
    (∀ op rest, (perform op).Fails s →
      run s (op :: rest) = (((perform op).exec s).1 :: (run s rest).1, (run s rest).2)) ∧
    (s.checks.toNat + 1 < UInt64.size →
      (∀ e a, (perform (.compare e a)).Fails s ↔
        e.ty ≠ a.ty ∨ ∃ ty, s.valueType = some ty ∧ ty ≠ e.ty) ∧
      ((perform .setDefaultPrecision).Fails s ↔ s.valueType = none) ∧
      (∀ ty, ¬(perform (.reset ty)).Fails s) ∧
      ∀ op, ((perform op).exec s).1 = (s.session.perform op).1.result ∧
        ((perform op).exec s).2.session = (s.session.perform op).2) := by
  have h := hs.sound
  have hunchanged (op : Operation) (hop : (perform op).Fails s) : ((perform op).exec s).2 = s := by
    obtain ⟨fault, hfault⟩ := hop
    exact (performs h op).unchanged hfault
  refine ⟨hunchanged, fun op rest hop => ?_, fun hroom =>
    ⟨fun e a => ?_, ?_, fun ty => ?_, fun op => ?_⟩⟩
  · rw [run, hunchanged op hop]
  · exact (fails_iff h hroom _).trans (refuses_compare_iff _ e a)
  · exact (fails_iff h hroom _).trans (refuses_setDefaultPrecision_iff _)
  · rw [fails_iff h hroom]
    simp [Session.perform]
  · exact (performs h op).agrees hroom

/-- A session with one failed check refuses a value of another type and stays as it is. -/
theorem faults_atomic_after_failure :
    let s := (run (State.start {}) [.compare (.ofNat (.scalar .u8) 1) (.ofNat (.scalar .u8) 3)]).2
    let other : Value := .ofNat (.scalar .u16) 1
    Reachable s ∧ s.checks.toNat + 1 < UInt64.size ∧ s.failed = 1 ∧
      (perform (.compare other other)).Fails s ∧
        ((perform (.compare other other)).exec s).2 = s := by
  intro s other
  have hs : Reachable s := ⟨_, _, rfl⟩
  have hfields : s.checks = 1 ∧ s.failed = 1 ∧ s.valueType = some (.scalar .u8) := by decide +kernel
  have hroom : s.checks.toNat + 1 < UInt64.size := by
    rw [hfields.1]
    decide
  obtain ⟨hunchanged, -, hroomed⟩ := faults_atomic hs
  have hfails : (perform (.compare other other)).Fails s :=
    ((hroomed hroom).1 other other).mpr (.inr ⟨_, hfields.2.2, by decide⟩)
  exact ⟨hs, hroom, hfields.2.1, hfails, hunchanged _ hfails⟩

end InPlace

end Conformance.Comparison
