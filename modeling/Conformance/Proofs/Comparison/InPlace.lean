import Mathlib
import Conformance.Comparison.InPlace
import Conformance.Proofs.Blocks
import Conformance.Proofs.Comparison.Exact
import Conformance.Proofs.Comparison.Tolerance

namespace Conformance.Comparison.InPlace

section Judging

variable {r : Rule} {e a : Value} {f : Format}

theorem judgeLane_eq {s : Scalar} (hs : s.kind = .float f) (he : e.ty = .scalar s)
    (ha : a.ty = .scalar s) :
    judgeLane r e a = .ok (r.judge (e.toBinary f) (a.toBinary f)) := by
  rw [judgeLane, he, ha]
  cases s <;> cases hs <;> rfl

def judgement (f : Format) (r : Rule) (expected actual : Value) (i : Nat) : Judgement :=
  r.judge ((expected.laneAt i).toBinary f) ((actual.laneAt i).toBinary f)

variable (ht : e.ty = a.ty) (hf : e.ty.lane.kind = .float f)

include ht hf

theorem fillPlace_eq {i : Nat} (hi : i < e.ty.laneCount) {places : List Judgement}
    (hp : i < places.length) :
    fillPlace r e a places i = .ok (places.set i (judgement f r e a i)) := by
  have hj : judgeLane r (e.laneAt i) (a.laneAt i) = .ok (judgement f r e a i) :=
    judgeLane_eq hf rfl (by rw [ht]; rfl)
  rw [fillPlace, Value.lane, Value.lane, if_pos hi, if_pos (ht ▸ hi)]
  change (judgeLane r (e.laneAt i) (a.laneAt i) >>= _) = _
  rw [hj]
  exact if_pos hp

/-- After `count` steps the first places hold the judgements and the others are as before. -/
theorem fillPlaces_eq {places : List Judgement} {count : Nat} (hc : count ≤ e.ty.laneCount)
    (hp : count ≤ places.length) :
    (List.range count).foldlM (fillPlace r e a) places =
      .ok ((List.range count).map (judgement f r e a) ++ places.drop count) := by
  induction count with
  | zero => rfl
  | succ count ih =>
    have hlength : ((List.range count).map (judgement f r e a)).length = count := by simp
    set written := (List.range count).map (judgement f r e a) with hw
    have hroom : count < (written ++ places.drop count).length := by
      simp only [List.length_append, List.length_drop]
      omega
    have hnext : (List.range (count + 1)).map (judgement f r e a) =
        written ++ [judgement f r e a count] := by
      rw [List.range_succ, List.map_append, List.map_singleton]
    rw [hnext, ← set_append_drop hlength (by omega), List.range_succ, List.foldlM_append,
      ih (by omega) (by omega)]
    change (fillPlace r e a _ count >>= pure) = _
    rw [fillPlace_eq ht hf hc hroom]
    rfl

omit ht hf

theorem deviationOf_eq {js : List Judgement} (h : js.length ≤ capacity) :
    deviationOf js js.length = .ok (Verdict.ofJudgements js).deviation := by
  have hlanes : Deviation.ofLanes (js.map Judgement.error) =
      .ok (.lanes (js.map Judgement.error)) :=
    if_pos (by simpa [capacity] using h)
  match js with
  | [] => rfl
  | [j] => rfl
  | j :: k :: l =>
    rw [deviationOf, if_neg (by simp), hlanes]
    rfl

theorem ofPlaces_eq {js rest : List Judgement} (h : js.length ≤ capacity) :
    ofPlaces (js ++ rest) js.length = .ok (Verdict.ofJudgements js) := by
  have hroom : ¬(js ++ rest).length < js.length := by simp
  rw [ofPlaces, if_neg hroom, List.take_left]
  dsimp only
  rw [deviationOf_eq h, ← Verdict.passed_ofJudgements]
  rfl

theorem laneCount_le_capacity {ty : ValueType} (h : ty.lane.kind = .float f) :
    ty.laneCount ≤ capacity := by
  cases ty with
  | scalar s => exact (by decide : 1 ≤ 4)
  | packed p => cases p <;> first | decide | cases h

theorem judgements_eq_map (ht : e.ty = a.ty) :
    Verdict.judgements f r e a = (List.range e.ty.laneCount).map (judgement f r e a) := by
  rw [Verdict.judgements, Verdict.zip_lanes ht, List.map_map]
  rfl

theorem judgeFloats_eq (ht : e.ty = a.ty) (hf : e.ty.lane.kind = .float f) :
    judgeFloats r e a = .ok (Verdict.ofJudgements (Verdict.judgements f r e a)) := by
  have hroom := laneCount_le_capacity hf
  have hcount : (Verdict.judgements f r e a).length = e.ty.laneCount := by
    rw [judgements_eq_map ht, List.length_map, List.length_range]
  rw [judgeFloats, ← ht, Nat.min_self, fillPlaces_eq ht hf (le_refl _) (by simpa using hroom),
    ← judgements_eq_map ht, ← ofPlaces_eq (by rwa [hcount]), hcount]
  rfl

theorem judge_eq (r : Rule) (ht : e.ty = a.ty) : judge r e a = .ok (Verdict.judge r e a) := by
  rw [judge]
  split
  · next hf =>
    obtain ⟨f, hk⟩ := Value.exists_format hf
    rw [judgeFloats_eq ht hk, Verdict.judge_of_format (by rw [ValueType.format?, hk])]
  · next hf =>
    have hf : e.ty.isFloat = false := by simpa using hf
    rw [WordDistance.exact_eq ht hf, Verdict.judge_of_not_isFloat r hf]
    rfl

end Judging

section Texts

theorem laneText_eq (v : Value) : laneText v = .ok (v.laneText true) := by
  rw [laneText, Value.laneText]
  cases hk : v.ty.lane.kind with
  | float f =>
    have hcount : DigitFault.check f.printDigits = .ok () := by cases f <;> rfl
    dsimp only
    rw [Binary.checkedText, hcount]
    split <;> rfl
  | unsigned | signed | pointer => rfl

theorem detail_eq (v : Value) : detail v = .ok v.detail := by
  rw [detail, Value.detail, Value.chars, mapM_eq_ok fun lane _ => laneText_eq lane, laneText_eq]
  split <;> rfl

end Texts

section Places

def Fits (d : Deviation) : Prop := lanesOf d = .ok d

theorem magnitude_eq {d : Deviation} (h : Fits d) : magnitude d = .ok d.magnitude := by
  rw [magnitude, h]
  rfl

theorem fits_ofJudgements {js : List Judgement} (h : js.length ≤ capacity) :
    Fits (Verdict.ofJudgements js).deviation := by
  match js with
  | [] | [_] => rfl
  | j :: k :: l =>
    have hlength : ((j :: k :: l).map Judgement.error).length ≤ capacity := by rwa [List.length_map]
    exact if_pos hlength

theorem judge_fits (r : Rule) {e a : Value} (ht : e.ty = a.ty) :
    Fits (Verdict.judge r e a).deviation := by
  cases hf : e.ty.isFloat with
  | true =>
    obtain ⟨f, hk⟩ := Value.exists_format hf
    rw [Verdict.judge_of_format (by rw [ValueType.format?, hk]), judgements_eq_map ht]
    apply fits_ofJudgements
    simpa using laneCount_le_capacity hk
  | false =>
    rw [Verdict.judge_of_not_isFloat r hf]
    rfl

theorem failureRecord_eq (index : UInt64) {c : Check} (h : Fits c.verdict.deviation) :
    failureRecord index c = .ok (Session.failureRecord index.toNat c) := by
  rw [failureRecord, detail_eq, detail_eq, h]
  rfl

end Places

section Counts

variable {n : UInt64}

theorem toNat_succ (h : n.toNat + 1 < UInt64.size) : (n + 1).toNat = n.toNat + 1 := by
  rw [UInt64.toNat_add]
  exact Nat.mod_eq_of_lt h

theorem next_eq (h : n.toNat + 1 < UInt64.size) : next n = .ok (n + 1) := by
  have hfits : n.toNat + (1 : UInt64).toNat < UInt64.size := h
  rw [next, Count.plus, if_pos hfits]
  rfl

theorem next_full (h : n.toNat + 1 = UInt64.size) : next n = .error (.count .sum) := by
  have hfull : ¬n.toNat + (1 : UInt64).toNat < UInt64.size := by
    change ¬n.toNat + 1 < UInt64.size
    omega
  rw [next, Count.plus, if_neg hfull]
  rfl

end Counts

section Steps

variable {α β : Type} {x : Action α} {f : α → Action β} {s t : State}

/-- What the steps give, and the fields behind them. -/
def Action.exec (x : Action α) (s : State) : Except Fault α × State := x.run.run s

theorem exec_bind_ok {v : α} (h : x.exec s = (.ok v, t)) : (x >>= f).exec s = (f v).exec t := by
  unfold Action.exec at *
  rw [ExceptT.run_bind, StateT.run_bind, h]
  rfl

theorem exec_bind_error {fault : Fault} (h : x.exec s = (.error fault, t)) :
    (x >>= f).exec s = (.error fault, t) := by
  unfold Action.exec at *
  rw [ExceptT.run_bind, StateT.run_bind, h]
  rfl

theorem exec_get_bind {f : State → Action β} : (get >>= f).exec s = (f s).exec s := rfl

theorem exec_modify_bind {f : PUnit → Action β} (g : State → State) :
    (modify g >>= f).exec s = (f ⟨⟩).exec (g s) := rfl

theorem exec_lift_bind {r : Except Fault α} {v : α} (h : r = .ok v) :
    ((liftM r : Action α) >>= f).exec s = (f v).exec s := by
  rw [h]
  rfl

end Steps

variable {s : State}

def State.cleared (s : State) (ty : ValueType) : State :=
  { options := s.options, precision := s.session.precisionFor ty, valueType := some ty }

theorem exec_setDefaultPrecision {ty : ValueType} (h : s.valueType = some ty) :
    setDefaultPrecision.exec s =
      (.ok (), { s with precision := s.options.method.defaultPrecision ty }) := by
  cases s
  cases h
  rfl

theorem exec_setDefaultPrecision_untyped (h : s.valueType = none) :
    setDefaultPrecision.exec s = (.error (.session .noType), s) := by
  cases s
  cases h
  rfl

theorem exec_choosePrecision {ty : ValueType} (h : s.valueType = some ty) :
    (choosePrecision ty).exec s = (.ok (), { s with precision := s.session.precisionFor ty }) := by
  have hdefault := exec_setDefaultPrecision h
  rw [choosePrecision, exec_get_bind]
  cases hp : s.options.precision with
  | none =>
    have hfor : s.session.precisionFor ty = s.options.method.defaultPrecision ty := by
      simp [Session.precisionFor, State.session, hp]
    rw [hfor]
    exact hdefault
  | some p =>
    cases hf : ty.isFloat with
    | true =>
      have hfor : s.session.precisionFor ty = some p := by
        simp [Session.precisionFor, State.session, hp, hf]
      rw [hfor]
      rfl
    | false =>
      have hfor : s.session.precisionFor ty = s.options.method.defaultPrecision ty := by
        simp [Session.precisionFor, State.session, hp, hf]
      rw [hfor]
      exact hdefault

theorem exec_reset (s : State) (ty : ValueType) : (reset ty).exec s = (.ok (), s.cleared ty) := by
  rw [reset, exec_modify_bind, exec_modify_bind, exec_choosePrecision rfl]
  rfl

def State.typed (s : State) (ty : ValueType) : State :=
  match s.valueType with
  | some _ => s
  | none => s.cleared ty

theorem exec_settle {ty : ValueType} (h : s.session.Takes ty) :
    (settle ty).exec s = (.ok (s.session.notes ty), s.typed ty) := by
  have hsession : s.session.valueType = s.valueType := rfl
  rw [settle, exec_get_bind, State.typed, Session.notes, hsession]
  cases hs : s.valueType with
  | some configured =>
    obtain rfl := h configured hs
    dsimp only
    rw [if_neg (not_not_intro rfl)]
    rfl
  | none =>
    dsimp only
    rw [exec_bind_ok (exec_reset s ty)]
    rfl

theorem exec_settle_other {configured ty : ValueType} (hs : s.valueType = some configured)
    (h : configured ≠ ty) : (settle ty).exec s = (.error (.session (.other configured ty)), s) := by
  rw [settle, exec_get_bind, hs]
  dsimp only
  rw [if_pos h]
  rfl

/-- What holds of the fields from the start on. -/
structure State.Sound (s : State) : Prop where
  failed_le : s.failed.toNat ≤ s.checks.toNat
  fits : ∀ d ∈ s.maxError, Fits d

theorem maxMagnitude_eq (h : s.Sound) : maxMagnitude s.maxError = .ok s.session.maxMagnitude := by
  rw [Session.maxMagnitude, State.session]
  cases hd : s.maxError with
  | none => rfl
  | some d => exact magnitude_eq (h.fits d hd)

def State.withFailure (s : State) (index : UInt64) (c : Check) : State :=
  let t := { s with failed := s.failed + 1 }
  if s.session.maxMagnitude.lt c.verdict.deviation.magnitude then
    { t with maxError := some c.verdict.deviation, maxErrorIndex := index }
  else t

theorem exec_recordFailure (h : s.Sound) (index : UInt64) {c : Check}
    (hroom : s.failed.toNat + 1 < UInt64.size) (hc : Fits c.verdict.deviation) :
    (recordFailure index c).exec s =
      (.ok [Session.failureRecord index.toNat c], s.withFailure index c) := by
  rw [recordFailure, exec_get_bind, exec_lift_bind (next_eq hroom), exec_modify_bind, exec_get_bind,
    exec_lift_bind (maxMagnitude_eq h), exec_lift_bind (magnitude_eq hc), State.withFailure]
  dsimp only
  split
  · rw [exec_modify_bind, exec_lift_bind (failureRecord_eq index hc)]
    rfl
  · rw [exec_lift_bind (failureRecord_eq index hc)]
    rfl

theorem session_withFailure {index : UInt64} {c : Check}
    (hroom : s.failed.toNat + 1 < UInt64.size) :
    (s.withFailure index c).session =
      { s.session with
        failed := s.session.failed + 1
        worst :=
          if s.session.maxMagnitude.lt c.verdict.deviation.magnitude then
            some ⟨index.toNat, c.verdict.deviation⟩
          else s.session.worst } := by
  have hfailed := toNat_succ hroom
  rw [State.withFailure]
  dsimp only
  split
  · simp [State.session, hfailed]
  · simp [State.session, hfailed]

theorem fits_withFailure (h : s.Sound) {index : UInt64} {c : Check}
    (hc : Fits c.verdict.deviation) :
    ∀ d ∈ (s.withFailure index c).maxError, Fits d := by
  rw [State.withFailure]
  dsimp only
  split
  · rintro d ⟨⟩
    exact hc
  · exact h.fits

@[simp]
theorem failed_withFailure (index : UInt64) (c : Check) :
    (s.withFailure index c).failed = s.failed + 1 := by
  rw [State.withFailure]
  dsimp only
  split <;> rfl

@[simp]
theorem checks_withFailure (index : UInt64) (c : Check) :
    (s.withFailure index c).checks = s.checks := by
  rw [State.withFailure]
  dsimp only
  split <;> rfl

def State.counted (s : State) : State := { s with checks := s.checks + 1 }

def State.recorded (s : State) (c : Check) : State :=
  { if c.verdict.passed then s.counted else s.counted.withFailure s.checks c with last := some c }

section Checks

variable {c : Check} (h : s.Sound) (hroom : s.checks.toNat + 1 < UInt64.size)

include h hroom

theorem failed_room : s.counted.failed.toNat + 1 < UInt64.size :=
  (Nat.succ_le_succ h.failed_le).trans_lt hroom

theorem sound_counted : s.counted.Sound := by
  have hchecks : s.counted.checks.toNat = s.checks.toNat + 1 := toNat_succ hroom
  refine ⟨?_, h.fits⟩
  rw [hchecks]
  exact h.failed_le.trans (Nat.le_succ _)

theorem session_recorded : (s.recorded c).session = s.session.record c := by
  have hchecks : s.counted.session = { s.session with checks := s.session.checks + 1 } := by
    simp [State.session, State.counted, toNat_succ hroom]
  have hlast (t : State) (last : Option Check) :
      State.session { t with last } = { t.session with last } := rfl
  rw [State.recorded, hlast, Session.record]
  split
  · rw [hchecks]
  · rw [session_withFailure (failed_room h hroom), hchecks]
    rfl

theorem sound_recorded (hc : Fits c.verdict.deviation) : (s.recorded c).Sound := by
  have hcounted := sound_counted h hroom
  rw [State.recorded]
  split
  · exact ⟨hcounted.failed_le, hcounted.fits⟩
  · refine ⟨?_, fits_withFailure hcounted hc⟩
    rw [failed_withFailure, checks_withFailure]
    change (s.failed + 1).toNat ≤ (s.checks + 1).toNat
    rw [toNat_succ hroom, toNat_succ (n := s.failed) (failed_room h hroom)]
    exact Nat.succ_le_succ h.failed_le

theorem exec_check {e a : Value} (ht : e.ty = a.ty) :
    (check e a).exec s =
      (.ok ((s.session.check e a).verdict, (s.session.check e a).records),
        s.recorded ⟨e, a, (s.session.check e a).verdict⟩) := by
  have hfailure := exec_recordFailure (sound_counted h hroom) s.checks
    (c := ⟨e, a, Verdict.judge s.session.rule e a⟩) (failed_room h hroom) (judge_fits _ ht)
  rw [check, exec_get_bind, exec_lift_bind (judge_eq _ ht), exec_lift_bind (next_eq hroom),
    exec_modify_bind, Session.check, State.recorded]
  dsimp only
  split
  · rfl
  · change Action.exec (recordFailure _ _ >>= _) s.counted = _
    rw [exec_bind_ok hfailure]
    rfl

end Checks

theorem exec_check_full {e a : Value} (ht : e.ty = a.ty) (h : s.checks.toNat + 1 = UInt64.size) :
    (check e a).exec s = (.error (.count .sum), s) := by
  rw [check, exec_get_bind, exec_lift_bind (judge_eq _ ht), next_full h]
  rfl

theorem sound_cleared (s : State) (ty : ValueType) : (s.cleared ty).Sound :=
  ⟨le_refl _, by simp [State.cleared]⟩

theorem session_typed (s : State) (ty : ValueType) : (s.typed ty).session = s.session.typed ty := by
  rw [State.typed, Session.typed]
  change _ = match s.valueType with | some _ => s.session | none => s.session.reset ty
  split <;> rfl

theorem sound_typed (h : s.Sound) (ty : ValueType) : (s.typed ty).Sound := by
  rw [State.typed]
  split
  · exact h
  · exact sound_cleared s ty

theorem typed_full {ty : ValueType} (h : (s.typed ty).checks.toNat + 1 = UInt64.size)
    (hs : s.session.Takes ty) : s.valueType = some ty ∧ s.checks.toNat + 1 = UInt64.size := by
  rw [State.typed] at h
  cases hv : s.valueType with
  | none =>
    rw [hv] at h
    exact absurd h (by decide : 0 + 1 ≠ UInt64.size)
  | some t =>
    rw [hv] at h
    exact ⟨by rw [hs t hv], h⟩

section Comparisons

variable {e a : Value}

theorem exec_compare_mixed (ht : e.ty ≠ a.ty) :
    (compare e a).exec s = (.error (.session (.mixed e.ty a.ty)), s) := by
  rw [compare, if_pos ht]
  rfl

variable (ht : e.ty = a.ty)

include ht

theorem exec_compare_other {configured : ValueType} (hs : s.valueType = some configured)
    (h : configured ≠ e.ty) :
    (compare e a).exec s = (.error (.session (.other configured e.ty)), s) := by
  rw [compare, if_neg (not_not_intro ht)]
  exact exec_bind_error (exec_settle_other hs h)

/-- Values of one type that no other type is in the way of. -/
theorem exec_compare (h : s.Sound) (hroom : (s.typed e.ty).checks.toNat + 1 < UInt64.size)
    (hs : s.session.Takes e.ty) :
    ∃ step t, s.session.compare e a = .ok step ∧
      (compare e a).exec s = (.ok (step.verdict, step.records), t) ∧
      t.session = step.session ∧ t.Sound := by
  have htyped := sound_typed h e.ty
  have hcheck := exec_check htyped hroom ht
  refine ⟨_, _, Session.compare_eq ht hs, ?_, ?_,
    sound_recorded htyped hroom (c := ⟨e, a, Verdict.judge (s.typed e.ty).session.rule e a⟩)
      (judge_fits _ ht)⟩
  · rw [compare, if_neg (not_not_intro ht)]
    dsimp only
    rw [exec_bind_ok (exec_settle hs), exec_bind_ok hcheck, session_typed]
    rfl
  · rw [session_recorded htyped hroom, session_typed]
    rfl

theorem exec_compare_full (hs : s.valueType = some e.ty) (h : s.checks.toNat + 1 = UInt64.size) :
    (compare e a).exec s = (.error (.count .sum), s) := by
  have htyped : s.typed e.ty = s := by rw [State.typed, hs]
  have hsettle : (settle e.ty).exec s = (.ok (s.session.notes e.ty), s.typed e.ty) :=
    exec_settle (Session.takes_of_typed hs)
  rw [htyped] at hsettle
  rw [compare, if_neg (not_not_intro ht)]
  dsimp only
  rw [exec_bind_ok hsettle]
  exact exec_bind_error (exec_check_full ht h)

end Comparisons

end Conformance.Comparison.InPlace
