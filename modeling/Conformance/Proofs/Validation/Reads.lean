import Mathlib
import Conformance.Proofs.Image.StoredTexel
import Conformance.Proofs.Validation.Buffer

namespace Conformance

def ColorKind.valueType : ColorKind → ValueType
  | .float => .scalar .f32
  | .signed => .scalar .s32
  | .unsigned => .scalar .u32

namespace Color

@[simp]
theorem length_values (c : Color) : c.values.length = 4 := by
  cases c <;> rfl

theorem ty_of_mem_values {c : Color} {v : Value} (h : v ∈ c.values) : v.ty = c.kind.valueType := by
  cases c <;>
    · obtain ⟨x, -, rfl⟩ := List.mem_map.mp h
      rfl

end Color

namespace Comparison

namespace Session

variable {s : Session} {ty : ValueType} {pairs : List (Value × Value)}

theorem takes_start (options : Options) (ty : ValueType) : (start options).Takes ty := by
  simp [Takes, start]

theorem compare_untyped (hs : s.valueType = none) {expected actual : Value} (he : expected.ty = ty)
    (ha : actual.ty = ty) :
    ∃ records, s.compare expected actual =
      .ok { (s.reset ty).check expected actual with records } := by
  subst he
  have htyped : s.typed expected.ty = s.reset expected.ty := by rw [typed, hs]
  rw [compare_eq ha.symm (by simp [Takes, hs]), htyped]
  exact ⟨_, rfl⟩

theorem compare_returns_typed (hs : s.Takes ty) {expected actual : Value} (he : expected.ty = ty)
    (ha : actual.ty = ty) :
    Returns (s.compare expected actual) fun step => step.session.Takes ty := by
  subst he
  rw [compare_eq ha.symm hs]
  exact .ok (by simp [check, Takes, hs.valueType_typed])

theorem compareAll_returns (hs : s.Takes ty) (hp : ∀ p ∈ pairs, p.1.ty = ty ∧ p.2.ty = ty) :
    Returns (s.compareAll pairs).result fun t => t.Takes ty := by
  induction pairs generalizing s with
  | nil => exact .ok hs
  | cons p rest ih =>
    obtain ⟨he, ha⟩ := hp p (by simp)
    obtain ⟨step, hc, hstep⟩ := compare_returns_typed hs he ha
    rw [compareAll, hc]
    exact ih hstep fun q hq => hp q (by simp [hq])

theorem compareAll_append (s : Session) (before after : List (Value × Value)) :
    (s.compareAll (before ++ after)).result =
      (s.compareAll before).result >>= fun t => (t.compareAll after).result := by
  induction before generalizing s with
  | nil => rfl
  | cons p rest ih =>
    rw [List.cons_append, compareAll, compareAll]
    cases s.compare p.1 p.2 with
    | ok step => exact ih step.session
    | error fault => rfl

theorem compareAll_untyped (hs : s.valueType = none) (hne : pairs ≠ [])
    (hp : ∀ p ∈ pairs, p.1.ty = ty ∧ p.2.ty = ty) :
    (s.compareAll pairs).result = ((s.reset ty).compareAll pairs).result := by
  obtain ⟨p, rest, rfl⟩ := List.exists_cons_of_ne_nil hne
  obtain ⟨he, ha⟩ := hp p (by simp)
  obtain ⟨records, hc⟩ := compare_untyped hs he ha
  rw [compareAll, compareAll, hc, compare_typed rfl he ha]
  rfl

end Session

end Comparison

namespace Validation

open Comparison

/-- The channels of two lists of colors, in their order. -/
def channelPairs (expected actual : List Color) : List (Value × Value) :=
  (expected.flatMap Color.values).zip (actual.flatMap Color.values)

variable {kind : ColorKind} {expected actual : List Color} {options : Options}

theorem ty_of_mem_channels (h : ∀ c ∈ expected, c.kind = kind) {v : Value}
    (hv : v ∈ expected.flatMap Color.values) : v.ty = kind.valueType := by
  obtain ⟨c, hc, hm⟩ := List.mem_flatMap.mp hv
  rw [Color.ty_of_mem_values hm, h c hc]

theorem channelPairs_typed (he : ∀ c ∈ expected, c.kind = kind) (ha : ∀ c ∈ actual, c.kind = kind) :
    ∀ p ∈ channelPairs expected actual, p.1.ty = kind.valueType ∧ p.2.ty = kind.valueType :=
  fun _ hp => ⟨ty_of_mem_channels he (List.of_mem_zip hp).1,
    ty_of_mem_channels ha (List.of_mem_zip hp).2⟩

theorem channelPairs_cons (e a : Color) (expected actual : List Color) :
    channelPairs (e :: expected) (a :: actual) =
      e.values.zip a.values ++ channelPairs expected actual := by
  rw [channelPairs, List.flatMap_cons, List.flatMap_cons, List.zip_append (by simp)]
  rfl

theorem judgePairs_append {s t : Session} {before : List (Value × Value)}
    (h : (s.compareAll before).result = .ok t) (after : List (Value × Value)) :
    (judgePairs s (before ++ after)).result = (judgePairs t after).result := by
  have hall := Session.compareAll_append s before after
  rw [h] at hall
  replace hall : (s.compareAll (before ++ after)).result = (t.compareAll after).result := hall
  rw [judgePairs, judgePairs, hall]
  cases (t.compareAll after).result <;> rfl

/-- The reads at the given coordinates give the given colors. -/
def Emulates (im : SampledImage) (reads : List (List Single)) (expected : List Color) : Prop :=
  List.Forall₂ (fun coords color => im.read (coords.take im.shape.kind.coordinateCount) = .ok color)
    reads expected

/-- Read by read is the same as all channels at once, up to the first color of another kind. -/
theorem judgeReads_result {im : SampledImage} {i : Nat} {s : Session} {reads : List (List Single)}
    (hs : s.Takes kind.valueType) (hr : Emulates im reads expected)
    (he : ∀ e ∈ expected, e.kind = kind) (hl : reads.length = actual.length) :
    (judgeReads im i s (reads.zip actual)).result =
      match actual.find? (fun c => decide (c.kind ≠ kind)) with
      | some c => .error (.mismatch (.kinds c.kind kind))
      | none => (judgePairs s (channelPairs expected actual)).result := by
  induction hr generalizing i s actual with
  | nil =>
    obtain rfl := List.eq_nil_of_length_eq_zero hl.symm
    rfl
  | @cons coords e reads expected hread _ ih =>
    obtain ⟨a, actual, rfl⟩ := List.exists_cons_of_length_eq_add_one hl.symm
    have hek : e.kind = kind := he e (by simp)
    rw [List.zip_cons_cons, judgeReads, hread]
    simp only [hek]
    by_cases hk : kind = a.kind
    · have hpairs : ∀ p ∈ e.values.zip a.values,
          p.1.ty = kind.valueType ∧ p.2.ty = kind.valueType := by
        have hone : ∀ c ∈ [e], c.kind = kind := by simp [hek]
        have hother : ∀ c ∈ [a], c.kind = kind := by simp [hk]
        simpa [channelPairs] using channelPairs_typed hone hother
      obtain ⟨next, hnext, htakes⟩ := Session.compareAll_returns hs hpairs
      have hrest := ih (i := i + 1) htakes (fun c hc => he c (by simp [hc]))
        (by simpa using hl)
      rw [channelPairs_cons, judgePairs_append hnext,
        List.find?_cons_of_neg (by simp [hk]), ← hrest]
      simp [hk, hnext, Logged.after]
    · rw [List.find?_cons_of_pos (by simpa using Ne.symm hk)]
      simp [hk, fail]

theorem values_result {ty : ValueType} {expected actual : List Value} (options : Options)
    (hl : expected.length = actual.length) (he : ∀ v ∈ expected, v.ty = ty)
    (ha : ∀ v ∈ actual, v.ty = ty) :
    ∃ t : Session, (values expected actual options).result = .ok t.summary ∧
      t.Tracks (judgedBy ((Session.start options).reset ty).rule (expected.zip actual)) := by
  rw [values, if_neg (not_not.mpr hl)]
  cases expected with
  | nil => exact ⟨Session.start options, rfl, Session.tracks_fresh options none none⟩
  | cons v rest =>
    obtain rfl : v.ty = ty := he v (by simp)
    have hp : ∀ p ∈ (v :: rest).zip actual, p.1.ty = v.ty ∧ p.2.ty = v.ty :=
      fun _ hp => ⟨he _ (List.of_mem_zip hp).1, ha _ (List.of_mem_zip hp).2⟩
    have hrun := (Session.run_compares (s := (Session.start options).reset v.ty) rfl hp).2
    refine ⟨_, judgePairs_result hrun, ?_⟩
    have htracks := Session.tracks_run_start options
      ([.reset v.ty] ++ ((v :: rest).zip actual).map fun p => .compare p.1 p.2)
    rw [Session.sinceReset_run_start options (.inr rfl) hp] at htracks
    exact htracks

theorem judgePairs_channelPairs (hl : expected.length = actual.length)
    (he : ∀ c ∈ expected, c.kind = kind) (ha : ∀ c ∈ actual, c.kind = kind) :
    (judgePairs (.start options) (channelPairs expected actual)).result =
      (values (expected.flatMap Color.values) (actual.flatMap Color.values) options).result := by
  have hlengths : (expected.flatMap Color.values).length =
      (actual.flatMap Color.values).length := by
    rw [length_flatMap_block fun c _ => c.length_values, hl,
      length_flatMap_block fun c _ => c.length_values]
  rw [values, if_neg (not_not.mpr hlengths)]
  cases hv : expected.flatMap Color.values with
  | nil => simp [channelPairs, hv]
  | cons v rest =>
    have hty : v.ty = kind.valueType := ty_of_mem_channels he (by simp [hv])
    have hne : channelPairs expected actual ≠ [] := by
      intro hnil
      have hzero := congrArg List.length hnil
      rw [channelPairs, List.length_zip, ← hlengths, hv] at hzero
      simp at hzero
    have hsame := Session.compareAll_untyped (s := .start options) rfl hne
      (channelPairs_typed he ha)
    rw [← hv, ← channelPairs]
    simp only [List.head?_cons, Option.elim_some, hty, hv, judgePairs, hsame]
    cases (((Session.start options).reset kind.valueType).compareAll
      (channelPairs expected actual)).result <;> rfl

theorem channel_of_getElem? {i : Nat} {p : Value × Value}
    (h : (channelPairs expected actual)[i]? = some p) :
    ∃ e a, expected[i / 4]? = some e ∧ actual[i / 4]? = some a ∧ e.values[i % 4]? = some p.1 ∧
      a.values[i % 4]? = some p.2 := by
  have hlt : i % 4 < 4 := Nat.mod_lt i (by decide)
  have hi : i / 4 * 4 + i % 4 = i := by omega
  rw [channelPairs, List.getElem?_zip_eq_some, ← hi,
    getElem?_flatMap_block (fun c _ => c.length_values) _ hlt,
    getElem?_flatMap_block (fun c _ => c.length_values) _ hlt] at h
  obtain ⟨e, he, hv⟩ := Option.bind_eq_some_iff.mp h.1
  obtain ⟨a, ha, hw⟩ := Option.bind_eq_some_iff.mp h.2
  exact ⟨e, a, he, ha, hv, hw⟩

theorem imageReads_result {im : SampledImage} {reads : List (List Single)}
    (hr : Emulates im reads expected)
    (he : ∀ e ∈ expected, e.kind = kind) (actual : List Color) (options : Options) :
    (imageReads im reads actual options).result =
      if reads.length ≠ actual.length then .error (.mismatch (.reads reads.length actual.length))
      else
        match actual.find? (fun c => decide (c.kind ≠ kind)) with
        | some c => .error (.mismatch (.kinds c.kind kind))
        | none =>
          (values (expected.flatMap Color.values) (actual.flatMap Color.values) options).result := by
  rw [imageReads]
  split_ifs with hl
  · rfl
  · have hlen : reads.length = actual.length := not_not.mp hl
    rw [judgeReads_result (Session.takes_start options _) hr he hlen]
    cases hf : actual.find? (fun c => decide (c.kind ≠ kind)) with
    | some c => rfl
    | none =>
      have ha : ∀ c ∈ actual, c.kind = kind := by simpa using List.find?_eq_none.mp hf
      exact judgePairs_channelPairs (hr.length_eq.symm.trans hlen) he ha

/-- The pair of channels that deviates most. -/
theorem worst_channel {t : Session} {r : Rule}
    (ht : t.Tracks (judgedBy r (channelPairs expected actual)))
    {d : Deviation} (hd : t.summary.maxError = some d) :
    ∃ e a v w, expected[t.summary.maxErrorIndex / 4]? = some e ∧
      actual[t.summary.maxErrorIndex / 4]? = some a ∧
      e.values[t.summary.maxErrorIndex % 4]? = some v ∧
      a.values[t.summary.maxErrorIndex % 4]? = some w ∧ Verdict.judge r v w = ⟨false, d⟩ := by
  obtain ⟨w, hw, rfl⟩ := Option.map_eq_some_iff.mp hd
  have hindex : t.summary.maxErrorIndex = w.index := by simp [Session.summary, hw]
  obtain ⟨c, hget, hfailed, hdeviation⟩ := (ht.worst w hw).check
  obtain ⟨p, hp, rfl⟩ := getElem?_judgedBy.mp hget
  obtain ⟨e, a, he, ha, hv, hx⟩ := channel_of_getElem? hp
  rw [hindex]
  refine ⟨e, a, p.1, p.2, he, ha, hv, hx, ?_⟩
  have hpassed : (Verdict.judge r p.1 p.2).passed = false := by simpa [Check.failed] using hfailed
  rw [← hpassed, ← hdeviation]

theorem values_channels (options : Options) (hl : expected.length = actual.length)
    (he : ∀ c ∈ expected, c.kind = kind) (ha : ∀ c ∈ actual, c.kind = kind) :
    ∃ t : Session,
      (values (expected.flatMap Color.values) (actual.flatMap Color.values) options).result =
        .ok t.summary ∧
      t.summary.checks = 4 * expected.length ∧
      t.Tracks (judgedBy ((Session.start options).reset kind.valueType).rule
        (channelPairs expected actual)) := by
  have hexpected : (expected.flatMap Color.values).length = expected.length * 4 :=
    length_flatMap_block fun c _ => c.length_values
  have hactual : (actual.flatMap Color.values).length = actual.length * 4 :=
    length_flatMap_block fun c _ => c.length_values
  obtain ⟨t, hresult, htracks⟩ := values_result options (by rw [hexpected, hactual, hl])
    (fun _ => ty_of_mem_channels he) fun _ => ty_of_mem_channels ha
  refine ⟨t, hresult, ?_, htracks⟩
  calc t.summary.checks
      = (judgedBy ((Session.start options).reset kind.valueType).rule
          (channelPairs expected actual)).length := htracks.count
    _ = 4 * expected.length := by
      rw [judgedBy, List.length_map, channelPairs, List.length_zip, hexpected, hactual, ← hl,
        Nat.min_self, Nat.mul_comm]

theorem exists_emulates {im : SampledImage} {mem : Raster} (h : im.Reads mem)
    {reads : List (List Single)} (h3 : ∀ coords ∈ reads, coords.length = 3) :
    ∃ expected, Emulates im reads expected ∧ ∀ e ∈ expected, e.kind = im.type.kind := by
  induction reads with
  | nil => exact ⟨[], .nil, by simp⟩
  | cons coords rest ih =>
    obtain ⟨expected, hrest, hkinds⟩ := ih fun c hc => h3 c (by simp [hc])
    have hlength : (coords.take im.shape.kind.coordinateCount).length =
        im.shape.kind.coordinateCount := by
      rw [List.length_take_of_le]
      rw [h3 coords (by simp)]
      exact im.shape.kind.coordinateCount_le
    obtain ⟨e, hread, hkind⟩ := h.read_returns hlength
    exact ⟨e :: expected, .cons hread hrest, by simpa using ⟨hkind, hkinds⟩⟩

/-- Sampled colors are compared like two lists of values, the channels of all colors in their order.
Only a count or a kind of colors that does not fit is refused, and the largest deviation is found by
read and channel. -/
theorem imageReads_flat {kind : ImageKind} {size : ImageSize} {shape : ImageShape}
    {order : ChannelOrder} {type : ChannelType} {sampler : Sampler} {new : Raster}
    (hs : ImageShape.make kind size = .ok shape) (hc : checkImage kind order type sampler = .ok ())
    (hi : Raster.tight shape order type = .ok new ∨
      ∃ rowPitch slicePitch, Raster.withPitch shape order type rowPitch slicePitch = .ok new)
    (contents : Nat → UInt8) {reads : List (List Single)} (h3 : ∀ coords ∈ reads, coords.length = 3)
    (actual : List Color) (options : Options) :
    let mem : Raster := { new with byte := contents }
    ∃ im expected, SampledImage.make shape order type sampler mem.texelBytes = .ok im ∧
      Emulates im reads expected ∧ (∀ e ∈ expected, e.kind = type.kind) ∧
      let result := (imageReads im reads actual options).result
      (reads.length ≠ actual.length →
        result = .error (.mismatch (.reads reads.length actual.length))) ∧
      (reads.length = actual.length → ∀ before c after, actual = before ++ c :: after →
        (∀ b ∈ before, b.kind = type.kind) → c.kind ≠ type.kind →
        result = .error (.mismatch (.kinds c.kind type.kind))) ∧
      ((∃ cause, result = .error (.mismatch cause)) ↔
        reads.length ≠ actual.length ∨ ∃ c ∈ actual, c.kind ≠ type.kind) ∧
      (reads.length = actual.length → (∀ c ∈ actual, c.kind = type.kind) →
        ∃ summary, result = .ok summary ∧
          (values (expected.flatMap Color.values) (actual.flatMap Color.values) options).result =
            .ok summary ∧
          summary.checks = 4 * reads.length ∧
          ∀ d, summary.maxError = some d →
            ∃ e a v w, expected[summary.maxErrorIndex / 4]? = some e ∧
              actual[summary.maxErrorIndex / 4]? = some a ∧
              e.values[summary.maxErrorIndex % 4]? = some v ∧
              a.values[summary.maxErrorIndex % 4]? = some w ∧
              Verdict.judge ((Session.start options).reset type.kind.valueType).rule v w =
                ⟨false, d⟩) := by
  intro mem
  have hnew : new.IsNew shape order type := Raster.isNew_of_made hi
  obtain ⟨expected, hemulates, hkinds⟩ := exists_emulates (hnew.reads hs hc contents) h3
  refine ⟨_, expected, SampledImage.make_eq hs hc _, hemulates, hkinds, ?_⟩
  intro result
  have hresult : result = _ := imageReads_result hemulates hkinds actual options
  have hcounts (hl : reads.length ≠ actual.length) :
      result = .error (.mismatch (.reads reads.length actual.length)) := by
    rw [hresult, if_pos hl]
  have hother (hl : reads.length = actual.length) {c : Color}
      (hfind : actual.find? (fun c => decide (c.kind ≠ type.kind)) = some c) :
      result = .error (.mismatch (.kinds c.kind type.kind)) := by
    rw [hresult, if_neg (not_not.mpr hl), hfind]
  have hsame (hl : reads.length = actual.length) (ha : ∀ c ∈ actual, c.kind = type.kind) :
      result = (values (expected.flatMap Color.values)
        (actual.flatMap Color.values) options).result := by
    have hfind : actual.find? (fun c => decide (c.kind ≠ type.kind)) = none := by simpa using ha
    rw [hresult, if_neg (not_not.mpr hl), hfind]
  refine ⟨hcounts, ?_, ⟨?_, ?_⟩, ?_⟩
  · intro hl before c after ha hb hne
    apply hother hl
    rw [List.find?_eq_some_iff_append]
    exact ⟨by simpa using hne, before, after, ha, by simpa using hb⟩
  · rintro ⟨cause, hcause⟩
    by_contra hnone
    push Not at hnone
    obtain ⟨t, hvalues, -⟩ :=
      values_channels options (hemulates.length_eq.symm.trans hnone.1) hkinds hnone.2
    rw [hsame hnone.1 hnone.2, hvalues] at hcause
    cases hcause
  · rintro (hl | ⟨c, hc, hne⟩)
    · exact ⟨_, hcounts hl⟩
    · by_cases hl : reads.length = actual.length
      · have hsome : (actual.find? fun c => decide (c.kind ≠ type.kind)).isSome :=
          List.find?_isSome.mpr ⟨c, hc, by simpa using hne⟩
        obtain ⟨d, hfind⟩ := Option.isSome_iff_exists.mp hsome
        exact ⟨_, hother hl hfind⟩
      · exact ⟨_, hcounts hl⟩
  · intro hl ha
    obtain ⟨t, hvalues, hchecks, htracks⟩ :=
      values_channels options (hemulates.length_eq.symm.trans hl) hkinds ha
    refine ⟨t.summary, (hsame hl ha).trans hvalues, hvalues, ?_, fun d hd =>
      worst_channel htracks hd⟩
    rw [hchecks, ← hemulates.length_eq]

theorem imageReads_flat_signed :
    let shape : ImageShape := ⟨.line, ⟨2, 1, 1, 1⟩⟩
    let new : Raster := ⟨shape, 4, 8, 8, fun _ => 0⟩
    let mem : Raster := { new with byte := UInt8.ofNat }
    let reads : List (List Single) :=
      [[.ofNat .single 1, .zero false, .zero false], [.quietNaN false, .zero false, .zero false]]
    let actual : List Color := [.signed ⟨4, 5, 6, 7⟩, .signed ⟨0, 1, 4, 3⟩]
    ImageShape.make .line ⟨2, 1, 1, 1⟩ = .ok shape ∧
      checkImage .line .rgba .signedInt8 {} = .ok () ∧
      Raster.tight shape .rgba .signedInt8 = .ok new ∧
      (∀ coords ∈ reads, coords.length = 3) ∧
      ∃ im summary, SampledImage.make shape .rgba .signedInt8 {} mem.texelBytes = .ok im ∧
        (imageReads im reads actual {}).result = .ok summary ∧
        summary.checks = 8 ∧ summary.failed = 1 ∧ summary.maxErrorIndex = 6 ∧
        summary.maxError = some (.exact (.ofNat (.scalar .u32) 2)) := by
  intro shape new mem reads actual
  have hs : ImageShape.make .line ⟨2, 1, 1, 1⟩ = .ok shape := rfl
  have hc : checkImage .line .rgba .signedInt8 {} = .ok () := rfl
  have hi : Raster.tight shape .rgba .signedInt8 = .ok new := rfl
  have h3 : ∀ coords ∈ reads, coords.length = 3 := by simp [reads]
  obtain ⟨im, expected, hmake, -, -, -, -, -, hok⟩ :=
    imageReads_flat hs hc (.inl hi) UInt8.ofNat h3 actual {}
  obtain ⟨summary, hresult, -, hchecks, -⟩ := hok rfl (by decide)
  obtain rfl := Except.ok.inj (hmake.symm.trans (SampledImage.make_eq hs hc _))
  have hsummary :
      (imageReads ⟨shape, .rgba, .signedInt8, {}, mem.texelBytes⟩ reads actual {}).result.toOption.map
        (fun s => (s.failed, s.maxErrorIndex, s.maxError)) =
      some (1, 6, some (.exact (.ofNat (.scalar .u32) 2))) := by decide +kernel
  rw [hresult] at hsummary
  simp only [Except.toOption, Option.map_some, Option.some.injEq, Prod.mk.injEq] at hsummary
  exact ⟨hs, hc, hi, h3, _, summary, hmake, hresult, hchecks, hsummary⟩

end Validation

end Conformance
