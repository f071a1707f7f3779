import Mathlib
import Conformance.Comparison.Session
import Conformance.Proofs.Comparison.Error

namespace Conformance.Comparison

inductive Operation where
  | reset (ty : ValueType)
  | compare (expected actual : Value)
  | setDefaultPrecision
deriving DecidableEq

inductive Outcome where
  | cleared
  | judged (c : Check)
  | adjusted
  | refused (fault : Fault)
deriving DecidableEq

def Outcome.check? : Outcome → Option Check
  | .judged c => some c
  | _ => none

/-- The checks that returned a verdict since the last reset, or since the start if there was
none. -/
def sinceReset (outcomes : List Outcome) : List Check :=
  (outcomes.rtakeWhile (· ≠ .cleared)).filterMap Outcome.check?

@[simp]
theorem sinceReset_cleared (os : List Outcome) : sinceReset (os ++ [.cleared]) = [] := by
  simp [sinceReset]

theorem sinceReset_concat (os : List Outcome) {o : Outcome} (h : o ≠ .cleared) :
    sinceReset (os ++ [o]) = sinceReset os ++ o.check?.toList := by
  cases hc : o.check? <;> simp [sinceReset, h, List.filterMap_append, hc]

namespace Check

def failed (c : Check) : Bool := !c.verdict.passed

def magnitude (c : Check) : Double := c.verdict.deviation.magnitude

end Check

/-- The failed check of largest deviation, the first of several, which has to deviate at all. -/
structure IsWorst (checks : List Check) (w : Worst) : Prop where
  check : ∃ c, checks[w.index]? = some c ∧ c.failed ∧ c.verdict.deviation = w.deviation
  positive : (Binary.zero false).lt w.deviation.magnitude
  largest : ∀ c ∈ checks, c.failed → c.magnitude.le w.deviation.magnitude
  first : ∀ j c, checks[j]? = some c → c.failed → j < w.index →
    c.magnitude.lt w.deviation.magnitude

def Comparable (checks : List Check) : Prop := ∀ c ∈ checks, c.magnitude.IsMagnitude

theorem getElem?_concat_eq_some {α : Type} {l : List α} {a b : α} {j : Nat} :
    (l ++ [a])[j]? = some b ↔ l[j]? = some b ∨ (j = l.length ∧ a = b) := by
  obtain h | h | h := Nat.lt_trichotomy j l.length
  · have hn : j ≠ l.length := by omega
    simp [List.getElem?_append_left h, hn]
  · subst h
    simp
  · have hn : j ≠ l.length := by omega
    have hs : l.length + 1 ≤ j := h
    simp [hn, List.getElem?_eq_none h.le, List.getElem?_eq_none (l := l ++ [a]) (by simpa using hs)]

namespace IsWorst

variable {checks : List Check} {w : Worst} {c : Check}

theorem magnitude (hw : IsWorst checks w) (hm : Comparable checks) :
    w.deviation.magnitude.IsMagnitude := by
  obtain ⟨c, hc, -, hd⟩ := hw.check
  rw [← hd]
  exact hm c (List.mem_of_getElem? hc)

/-- A further check that passes, or fails without deviating more, changes nothing. -/
theorem concat (hw : IsWorst checks w)
    (hc : c.failed → c.magnitude.le w.deviation.magnitude) : IsWorst (checks ++ [c]) w := by
  obtain ⟨d, hd, hf, hdev⟩ := hw.check
  have hlt : w.index < checks.length := (List.getElem?_eq_some_iff.mp hd).1
  refine ⟨⟨d, getElem?_concat_eq_some.mpr (.inl hd), hf, hdev⟩, hw.positive, ?_, ?_⟩
  · intro e he hef
    obtain he | he := List.mem_append.mp he
    · exact hw.largest e he hef
    · obtain rfl : e = c := by simpa using he
      exact hc hef
  · intro j e hj hef hlt'
    obtain hj | ⟨hj, -⟩ := getElem?_concat_eq_some.mp hj
    · exact hw.first j e hj hef hlt'
    · omega

theorem of_concat (hm : c.magnitude.IsMagnitude) (hf : c.failed)
    (hpos : (Binary.zero false).lt c.magnitude)
    (hall : ∀ d ∈ checks, d.failed → d.magnitude.lt c.magnitude) :
    IsWorst (checks ++ [c]) ⟨checks.length, c.verdict.deviation⟩ := by
  refine ⟨⟨c, getElem?_concat_eq_some.mpr (.inr ⟨rfl, rfl⟩), hf, rfl⟩, hpos, ?_, ?_⟩
  · intro d hd hdf
    obtain hd | hd := List.mem_append.mp hd
    · have hlt := hall d hd hdf
      simp only [Binary.lt, Bool.and_eq_true, decide_eq_true_eq] at hlt
      simp only [Binary.le, Bool.and_eq_true, decide_eq_true_eq]
      exact ⟨hlt.1, hlt.2.le⟩
    · obtain rfl : d = c := by simpa using hd
      exact (hm.le_iff hm).mpr (le_refl _)
  · intro j d hj hdf hlt
    obtain hj | ⟨hj, -⟩ := getElem?_concat_eq_some.mp hj
    · exact hall d (List.mem_of_getElem? hj) hdf
    · exact absurd hj hlt.ne

theorem unique {v : Worst} (hm : Comparable checks) (hw : IsWorst checks w)
    (hv : IsWorst checks v) :
    w = v := by
  have hwm := hw.magnitude hm
  have hvm := hv.magnitude hm
  obtain ⟨c, hc, hcf, hcd⟩ := hw.check
  obtain ⟨d, hd, hdf, hdd⟩ := hv.check
  have hle := hv.largest c (List.mem_of_getElem? hc) hcf
  have hge := hw.largest d (List.mem_of_getElem? hd) hdf
  rw [Check.magnitude, hcd, hwm.le_iff hvm] at hle
  rw [Check.magnitude, hdd, hvm.le_iff hwm] at hge
  have hi : w.index = v.index := by
    obtain h | h | h := Nat.lt_trichotomy w.index v.index
    · have hlt := hv.first _ c hc hcf h
      rw [Check.magnitude, hcd, hwm.lt_iff hvm] at hlt
      omega
    · exact h
    · have hlt := hw.first _ d hd hdf h
      rw [Check.magnitude, hdd, hvm.lt_iff hwm] at hlt
      omega
  rw [hi, hd] at hc
  obtain rfl := Option.some.inj hc
  cases w
  cases v
  simp_all

end IsWorst

namespace Session

/-- The statistics of a session are those of the given checks. -/
structure Tracks (s : Session) (checks : List Check) : Prop where
  comparable : Comparable checks
  untyped : s.valueType = none → checks = []
  count : s.checks = checks.length
  failures : s.failed = checks.countP Check.failed
  last : s.last = checks.getLast?
  worst : ∀ w, s.worst = some w → IsWorst checks w
  bound : ∀ c ∈ checks, c.failed → c.magnitude.le s.maxMagnitude

theorem tracks_fresh (options : Options) (precision : Option Double)
    (valueType : Option ValueType) :
    Tracks { options, precision, valueType } [] := by
  constructor <;> simp [Comparable]

variable {s : Session} {checks : List Check}

theorem Tracks.maxMagnitude (h : Tracks s checks) : s.maxMagnitude.IsMagnitude := by
  rw [Session.maxMagnitude]
  split
  · next w hw => exact (h.worst w hw).magnitude h.comparable
  · exact Binary.isMagnitude_zero

theorem Tracks.worst_eq_some_iff (h : Tracks s checks) (w : Worst) :
    s.worst = some w ↔ IsWorst checks w := by
  refine ⟨h.worst w, fun hw => ?_⟩
  obtain ⟨c, hc, hf, hd⟩ := hw.check
  have hm := hw.magnitude h.comparable
  have hb := h.bound c (List.mem_of_getElem? hc) hf
  rw [Check.magnitude, hd, hm.le_iff h.maxMagnitude] at hb
  have hp := hm.zero_lt_iff.mp hw.positive
  cases hs : s.worst with
  | none =>
    rw [Session.maxMagnitude, hs, Binary.code_zero] at hb
    omega
  | some v => rw [IsWorst.unique h.comparable (h.worst v hs) hw]

theorem Tracks.worst_isSome_iff (h : Tracks s checks) :
    s.worst.isSome ↔ ∃ c ∈ checks, c.failed ∧ (Binary.zero false).lt c.magnitude := by
  constructor
  · intro hs
    obtain ⟨w, hw⟩ := Option.isSome_iff_exists.mp hs
    obtain ⟨c, hc, hf, hd⟩ := (h.worst w hw).check
    refine ⟨c, List.mem_of_getElem? hc, hf, ?_⟩
    rw [Check.magnitude, hd]
    exact (h.worst w hw).positive
  · rintro ⟨c, hc, hf, hp⟩
    by_contra hs
    have hn : s.worst = none := by simpa using hs
    have hcm := h.comparable c hc
    have hb := h.bound c hc hf
    rw [hcm.le_iff h.maxMagnitude, Session.maxMagnitude, hn, Binary.code_zero] at hb
    have hpc := hcm.zero_lt_iff.mp hp
    omega

theorem Tracks.concat (h : Tracks s checks) {t : Session} {c : Check}
    (hm : c.magnitude.IsMagnitude) (htyped : t.valueType ≠ none) (hcount : t.checks = s.checks + 1)
    (hfailures : t.failed = s.failed + if c.failed then 1 else 0) (hlast : t.last = some c)
    (hworst : ∀ w, t.worst = some w → IsWorst (checks ++ [c]) w)
    (hbound : ∀ d ∈ checks ++ [c], d.failed → d.magnitude.le t.maxMagnitude) :
    Tracks t (checks ++ [c]) := by
  refine ⟨?_, fun hn => absurd hn htyped, ?_, ?_, ?_, hworst, hbound⟩
  · intro d hd
    obtain hd | hd := List.mem_append.mp hd
    · exact h.comparable d hd
    · obtain rfl : d = c := by simpa using hd
      exact hm
  · rw [hcount, h.count, List.length_append, List.length_singleton]
  · rw [hfailures, h.failures, List.countP_append, List.countP_singleton]
  · rw [hlast, List.getLast?_concat]

theorem Tracks.bound_concat (h : Tracks s checks) {c : Check}
    (hc : c.failed → c.magnitude.le s.maxMagnitude) :
    ∀ d ∈ checks ++ [c], d.failed → d.magnitude.le s.maxMagnitude := by
  intro d hd hdf
  obtain hd | hd := List.mem_append.mp hd
  · exact h.bound d hd hdf
  · obtain rfl : d = c := by simpa using hd
    exact hc hdf

theorem Tracks.worst_concat (h : Tracks s checks) {c : Check}
    (hc : c.failed → c.magnitude.le s.maxMagnitude) :
    ∀ w, s.worst = some w → IsWorst (checks ++ [c]) w := by
  intro w hw
  have he : s.maxMagnitude = w.deviation.magnitude := by simp only [Session.maxMagnitude, hw]
  rw [he] at hc
  exact (h.worst w hw).concat hc

theorem Tracks.record (h : Tracks s checks) {c : Check} (hm : c.magnitude.IsMagnitude)
    (ht : s.valueType ≠ none) : Tracks (s.record c) (checks ++ [c]) := by
  have hmax := h.maxMagnitude
  rw [Session.record]
  split
  · next hp =>
    have hf : c.failed = false := by simp [Check.failed, hp]
    have hc : c.failed → c.magnitude.le s.maxMagnitude := by simp [hf]
    exact h.concat hm ht rfl (by simp [hf]) rfl (h.worst_concat hc) (h.bound_concat hc)
  · next hp =>
    have hf : c.failed := by simp [Check.failed, hp]
    dsimp only
    split
    · next hgt =>
      have hlt : s.maxMagnitude.code < c.magnitude.code := (hmax.lt_iff hm).mp hgt
      have hall : ∀ d ∈ checks, d.failed → d.magnitude.lt c.magnitude := by
        intro d hd hdf
        have hb := ((h.comparable d hd).le_iff hmax).mp (h.bound d hd hdf)
        exact ((h.comparable d hd).lt_iff hm).mpr (by omega)
      have hw : IsWorst (checks ++ [c]) ⟨s.checks, c.verdict.deviation⟩ := by
        rw [h.count]
        exact IsWorst.of_concat hm hf (hm.zero_lt_iff.mpr (by omega)) hall
      refine h.concat hm ht rfl (by simp [hf]) rfl ?_ hw.largest
      intro w hs
      obtain rfl := Option.some.inj hs
      exact hw
    · next hngt =>
      have hc : c.failed → c.magnitude.le s.maxMagnitude := by
        intro _
        have hle : ¬ s.maxMagnitude.code < c.magnitude.code :=
          fun hl => hngt ((hmax.lt_iff hm).mpr hl)
        exact (hm.le_iff hmax).mpr (by omega)
      exact h.concat hm ht rfl (by simp [hf]) rfl (h.worst_concat hc) (h.bound_concat hc)

/-- One operation. A session that refuses it stays as it was. -/
def perform (s : Session) : Operation → Outcome × Session
  | .reset ty => (.cleared, s.reset ty)
  | .compare expected actual =>
    match s.compare expected actual with
    | .ok step => (.judged ⟨expected, actual, step.verdict⟩, step.session)
    | .error fault => (.refused fault, s)
  | .setDefaultPrecision =>
    match s.setDefaultPrecision with
    | .ok next => (.adjusted, next)
    | .error fault => (.refused fault, s)

def run (s : Session) : List Operation → List Outcome × Session
  | [] => ([], s)
  | op :: rest =>
    let step := s.perform op
    let tail := run step.2 rest
    (step.1 :: tail.1, tail.2)

def typed (s : Session) (ty : ValueType) : Session :=
  match s.valueType with
  | some _ => s
  | none => s.reset ty

/-- A session that has no other type than the given one. -/
def Takes (s : Session) (ty : ValueType) : Prop := ∀ t ∈ s.valueType, t = ty

def notes (s : Session) (ty : ValueType) : List LogRecord :=
  match s.valueType with
  | some _ => []
  | none => [⟨.trace, s!"Comparison configured implicitly for {ty.name}."⟩]

theorem Takes.valueType_typed {ty : ValueType} (hs : s.Takes ty) :
    (s.typed ty).valueType = some ty := by
  rw [typed]
  cases ht : s.valueType with
  | some t =>
    obtain rfl := hs t ht
    exact ht
  | none => rfl

section Compare

variable {expected actual : Value}

/-- Two values of one type that no other type is in the way of. -/
theorem compare_eq (ht : expected.ty = actual.ty) (hs : s.Takes expected.ty) :
    s.compare expected actual =
      .ok { (s.typed expected.ty).check expected actual with
        records := s.notes expected.ty ++
          ((s.typed expected.ty).check expected actual).records } := by
  rw [compare, if_neg (not_not_intro ht), typed, notes]
  cases hv : s.valueType with
  | some ty =>
    have hsame : ty = expected.ty := hs ty hv
    exact if_neg (not_not_intro hsame)
  | none => rfl

theorem compare_refused (h : ¬(expected.ty = actual.ty ∧ s.Takes expected.ty)) :
    ∃ fault, ∀ t : Session, t.valueType = s.valueType →
      t.compare expected actual = .error fault := by
  by_cases ht : expected.ty = actual.ty
  · have hother : ¬s.Takes expected.ty := fun hs => h ⟨ht, hs⟩
    simp only [Takes, not_forall] at hother
    obtain ⟨ty, hty, hne⟩ := hother
    refine ⟨.other ty expected.ty, fun t htv => ?_⟩
    rw [compare, if_neg (not_not_intro ht), htv, hty]
    exact if_pos hne
  · exact ⟨.mixed expected.ty actual.ty, fun t _ => if_pos ht⟩

theorem compare_ok {step : Step} (h : s.compare expected actual = .ok step) :
    (s.typed expected.ty).valueType = some expected.ty ∧
      step.verdict = Verdict.judge (s.typed expected.ty).rule expected actual ∧
      step.session = (s.typed expected.ty).record ⟨expected, actual, step.verdict⟩ := by
  by_cases hfits : expected.ty = actual.ty ∧ s.Takes expected.ty
  · rw [compare_eq hfits.1 hfits.2] at h
    obtain rfl := Except.ok.inj h
    exact ⟨hfits.2.valueType_typed, rfl, rfl⟩
  · obtain ⟨fault, hrefused⟩ := compare_refused hfits
    rw [hrefused s rfl] at h
    cases h

theorem perform_judged (ht : expected.ty = actual.ty) (hs : s.Takes expected.ty) :
    let c : Check := ⟨expected, actual, Verdict.judge (s.typed expected.ty).rule expected actual⟩
    s.perform (.compare expected actual) = (.judged c, (s.typed expected.ty).record c) := by
  rw [perform, compare_eq ht hs]
  rfl

theorem perform_refused (h : ¬(expected.ty = actual.ty ∧ s.Takes expected.ty)) :
    ∃ fault, ∀ t : Session, t.valueType = s.valueType →
      t.perform (.compare expected actual) = (.refused fault, t) := by
  obtain ⟨fault, hrefused⟩ := compare_refused h
  exact ⟨fault, fun t ht => by rw [perform, hrefused t ht]⟩

end Compare

theorem Tracks.typed (h : Tracks s checks) (ty : ValueType) : Tracks (s.typed ty) checks := by
  rw [Session.typed]
  cases ht : s.valueType with
  | some _ => exact h
  | none =>
    rw [h.untyped ht]
    exact tracks_fresh _ _ _

/-- What one operation preserves. -/
theorem Tracks.perform {os : List Outcome} (h : Tracks s (sinceReset os)) (op : Operation) :
    Tracks (s.perform op).2 (sinceReset (os ++ [(s.perform op).1])) := by
  cases op with
  | reset ty =>
    simp only [Session.perform, sinceReset_cleared]
    exact tracks_fresh _ _ _
  | compare expected actual =>
    cases hc : s.compare expected actual with
    | error fault => simpa [Session.perform, hc, sinceReset_concat, Outcome.check?] using h
    | ok step =>
      obtain ⟨hty, hv, hs⟩ := compare_ok hc
      have hm : (Check.mk expected actual step.verdict).magnitude.IsMagnitude := by
        rw [Check.magnitude, hv]
        exact Verdict.judge_isMagnitude _ _ _
      have hr := (h.typed expected.ty).record hm (by simp [hty])
      simpa [Session.perform, hc, sinceReset_concat, Outcome.check?, hs] using hr
  | setDefaultPrecision =>
    cases hc : s.setDefaultPrecision with
    | error fault => simpa [Session.perform, hc, sinceReset_concat, Outcome.check?] using h
    | ok next =>
      have hn : Tracks next (sinceReset os) := by
        unfold setDefaultPrecision at hc
        split at hc
        · obtain rfl := Except.ok.inj hc
          exact ⟨h.comparable, h.untyped, h.count, h.failures, h.last, h.worst, h.bound⟩
        · cases hc
      simpa [Session.perform, hc, sinceReset_concat, Outcome.check?] using hn

/-- What a run preserves. -/
theorem Tracks.run {os : List Outcome} (h : Tracks s (sinceReset os)) (ops : List Operation) :
    Tracks (s.run ops).2 (sinceReset (os ++ (s.run ops).1)) := by
  induction ops generalizing s os with
  | nil => simpa [Session.run] using h
  | cons op rest ih =>
    have ht := ih (h.perform op)
    simpa [Session.run, List.append_assoc] using ht

theorem tracks_run_start (options : Options) (ops : List Operation) :
    Tracks ((start options).run ops).2 (sinceReset ((start options).run ops).1) := by
  have h : Tracks (start options) (sinceReset []) := tracks_fresh options none none
  simpa using h.run ops

@[simp]
theorem options_record (c : Check) : (s.record c).options = s.options := by
  rw [record]
  split <;> rfl

@[simp]
theorem rule_record (c : Check) : (s.record c).rule = s.rule := by
  rw [record]
  split <;> rfl

@[simp]
theorem valueType_record (c : Check) : (s.record c).valueType = s.valueType := by
  rw [record]
  split <;> rfl

@[simp]
theorem precision_record (c : Check) : (s.record c).precision = s.precision := by
  rw [record]
  split <;> rfl

@[simp]
theorem checks_record (c : Check) : (s.record c).checks = s.checks + 1 := by
  rw [record]
  split <;> rfl

@[simp]
theorem failed_record (c : Check) :
    (s.record c).failed = s.failed + if c.failed then 1 else 0 := by
  rw [record]
  split <;> simp_all [Check.failed]

@[simp]
theorem options_typed (ty : ValueType) : (s.typed ty).options = s.options := by
  rw [typed]
  split <;> rfl

@[simp]
theorem options_perform (s : Session) (op : Operation) : (s.perform op).2.options = s.options := by
  cases op with
  | reset ty => rfl
  | compare expected actual =>
    cases hc : s.compare expected actual with
    | error fault => simp [perform, hc]
    | ok step =>
      obtain ⟨-, -, hs⟩ := compare_ok hc
      simp [perform, hc, hs]
  | setDefaultPrecision => cases hv : s.valueType <;> simp [perform, setDefaultPrecision, hv]

@[simp]
theorem options_run (s : Session) (ops : List Operation) : (s.run ops).2.options = s.options := by
  induction ops generalizing s with
  | nil => rfl
  | cons op rest ih => simp [run, ih]

@[simp]
theorem length_run (s : Session) (ops : List Operation) : (s.run ops).1.length = ops.length := by
  induction ops generalizing s with
  | nil => rfl
  | cons op rest ih => simp [run, ih]

theorem run_append (s : Session) (before after : List Operation) :
    s.run (before ++ after) =
      ((s.run before).1 ++ ((s.run before).2.run after).1, ((s.run before).2.run after).2) := by
  induction before generalizing s with
  | nil => rfl
  | cons op rest ih => simp [run, ih]

theorem reset_congr {t : Session} (h : s.options = t.options) (ty : ValueType) :
    s.reset ty = t.reset ty := by
  simp [reset, precisionFor, h]

theorem run_reset_congr {t : Session} (h : s.options = t.options) (ty : ValueType)
    (ops : List Operation) : s.run (.reset ty :: ops) = t.run (.reset ty :: ops) := by
  simp [run, perform, reset_congr h]

/-- The statistics after any run are those of the checks since the last reset, and what follows a
reset is the same as if nothing had been before it. -/
theorem run_statistics (options : Options) (ops : List Operation) :
    let outcomes := ((start options).run ops).1
    let final := ((start options).run ops).2
    let checks := sinceReset outcomes
    final.options = options ∧
    final.summary.checks = checks.length ∧
    final.summary.failed = checks.countP Check.failed ∧
    final.last = checks.getLast? ∧
    (final.summary.maxError.isSome ↔
      ∃ c ∈ checks, c.failed ∧ (Binary.zero false).lt c.magnitude) ∧
    (∀ d, final.summary.maxError = some d → IsWorst checks ⟨final.summary.maxErrorIndex, d⟩) ∧
    (final.summary.maxError = none → final.summary.maxErrorIndex = 0) ∧
    Comparable checks ∧
    ∀ before ty after, ops = before ++ .reset ty :: after →
      final = ((start options).run (.reset ty :: after)).2 ∧
      outcomes.drop before.length = ((start options).run (.reset ty :: after)).1 := by
  intro outcomes final checks
  have h : Tracks final checks := tracks_run_start options ops
  refine ⟨options_run _ _, h.count, h.failures, h.last, ?_, ?_, ?_, h.comparable, ?_⟩
  · rw [← h.worst_isSome_iff]
    simp [summary]
  · intro d hd
    obtain ⟨w, hw, rfl⟩ := Option.map_eq_some_iff.mp hd
    have hi : final.summary.maxErrorIndex = w.index := by simp [summary, hw]
    rw [hi]
    exact h.worst w hw
  · intro hn
    have hw : final.worst = none := Option.map_eq_none_iff.mp hn
    simp [summary, hw]
  · rintro before ty after rfl
    have hc : ((start options).run before).2.options = (start options).options := options_run _ _
    have hr := run_reset_congr hc ty after
    have ha := run_append (start options) before (.reset ty :: after)
    rw [hr] at ha
    have hfinal := congrArg Prod.snd ha
    have houtcomes := congrArg Prod.fst ha
    dsimp only at hfinal houtcomes
    refine ⟨hfinal, ?_⟩
    dsimp only [outcomes]
    rw [houtcomes, ← length_run (start options) before, List.drop_left]

end Session

end Conformance.Comparison
