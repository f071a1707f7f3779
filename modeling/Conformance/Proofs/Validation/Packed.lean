import Mathlib
import Conformance.Proofs.Blocks
import Conformance.Proofs.Comparison.Lanes
import Conformance.Proofs.Validation.Buffer

namespace Conformance

namespace Comparison

variable {r : Rule} {pairs : List (Value × Value)}

def laneChecks (r : Rule) (p : Value × Value) : List Check := judgedBy r (p.1.lanes.zip p.2.lanes)

def lanePairs (pairs : List (Value × Value)) : List (Value × Value) :=
  pairs.flatMap fun p => p.1.lanes.zip p.2.lanes

theorem judgedBy_lanePairs : judgedBy r (lanePairs pairs) = pairs.flatMap (laneChecks r) :=
  List.map_flatMap ..

theorem zip_flatMap_lanes {ty : ValueType} {vs ws : List Value} (hv : ∀ v ∈ vs, v.ty = ty)
    (hw : ∀ w ∈ ws, w.ty = ty) :
    (vs.flatMap Value.lanes).zip (ws.flatMap Value.lanes) = lanePairs (vs.zip ws) := by
  induction vs generalizing ws with
  | nil => simp [lanePairs]
  | cons v vs ih =>
    cases ws with
    | nil => simp [lanePairs]
    | cons w ws =>
      have hl : v.lanes.length = w.lanes.length := by
        rw [Value.length_lanes, Value.length_lanes, hv v (by simp), hw w (by simp)]
      have hrest := ih (fun x hx => hv x (by simp [hx]))
        (fun x (hx : x ∈ ws) => hw x (by simp [hx]))
      rw [List.flatMap_cons, List.flatMap_cons, List.zip_append hl, hrest]
      rfl

/-- Pairs of `n` lanes each, judged by a rule without limits. -/
structure Blocks (r : Rule) (n : Nat) (pairs : List (Value × Value)) : Prop where
  minimum : r.minimum = none
  maximum : r.maximum = none
  typed : ∀ p ∈ pairs, p.1.ty = p.2.ty
  count : ∀ p ∈ pairs, p.1.ty.laneCount = n
  pos : 0 < n

namespace Blocks

variable {n : Nat}

theorem length (h : Blocks r n pairs) : ∀ p ∈ pairs, (laneChecks r p).length = n := by
  intro p hp
  simp [laneChecks, judgedBy, ← h.typed p hp, h.count p hp]

theorem length_lanePairs (h : Blocks r n pairs) : (lanePairs pairs).length = pairs.length * n :=
  length_flatMap_block fun p hp => by simpa [laneChecks, judgedBy] using h.length p hp

theorem joins (h : Blocks r n pairs) {p : Value × Value} (hp : p ∈ pairs) :
    (Verdict.judge r p.1 p.2).Joins ((laneChecks r p).map Check.verdict) := by
  have hj := Verdict.judge_joins r h.minimum h.maximum (h.typed p hp)
  simpa [laneChecks, judgedBy, Function.comp_def] using hj

theorem getElem?_lane (h : Blocks r n pairs) (k : Nat) {j : Nat} (hj : j < n) :
    (judgedBy r (lanePairs pairs))[k * n + j]? = pairs[k]?.bind fun p => (laneChecks r p)[j]? := by
  rw [judgedBy_lanePairs]
  exact getElem?_flatMap_block h.length k hj

theorem exists_pair (h : Blocks r n pairs) {i : Nat} {c : Check}
    (hc : (judgedBy r (lanePairs pairs))[i]? = some c) :
    ∃ p, pairs[i / n]? = some p ∧ c ∈ laneChecks r p := by
  have hi : i / n * n + i % n = i := by
    rw [Nat.mul_comm]
    exact Nat.div_add_mod i n
  rw [← hi, h.getElem?_lane _ (Nat.mod_lt i h.pos), Option.bind_eq_some_iff] at hc
  obtain ⟨p, hp, hm⟩ := hc
  exact ⟨p, hp, List.mem_of_getElem? hm⟩

theorem exists_lane (h : Blocks r n pairs) {k : Nat} {p : Value × Value} {c : Check}
    (hp : pairs[k]? = some p) (hc : c ∈ laneChecks r p) :
    ∃ j < n, (judgedBy r (lanePairs pairs))[k * n + j]? = some c := by
  obtain ⟨j, hj, rfl⟩ := List.mem_iff_getElem.mp hc
  have hjn : j < n := h.length p (List.mem_of_getElem? hp) ▸ hj
  refine ⟨j, hjn, ?_⟩
  rw [h.getElem?_lane k hjn, hp, Option.bind_some, List.getElem?_eq_getElem hj]

theorem failed_iff (h : Blocks r n pairs) {p : Value × Value} (hp : p ∈ pairs) :
    (Check.mk p.1 p.2 (Verdict.judge r p.1 p.2)).failed ↔ ∃ c ∈ laneChecks r p, c.failed := by
  simp [Check.failed, (h.joins hp).passed]

/-- A packed check fails exactly if one of its lanes does. -/
theorem any_failed_iff (h : Blocks r n pairs) (k : Nat) :
    (judgedBy r pairs)[k]?.any Check.failed ↔
      ∃ j < n, (judgedBy r (lanePairs pairs))[k * n + j]?.any Check.failed := by
  rw [judgedBy, List.getElem?_map]
  cases hp : pairs[k]? with
  | none =>
    simp only [Option.map_none, Option.any_none, Bool.false_eq_true, false_iff, not_exists, not_and]
    intro j hj
    simp [h.getElem?_lane k hj, hp]
  | some p =>
    simp only [Option.map_some, Option.any_some]
    rw [h.failed_iff (List.mem_of_getElem? hp)]
    constructor
    · rintro ⟨c, hc, hf⟩
      obtain ⟨j, hj, hget⟩ := h.exists_lane hp hc
      exact ⟨j, hj, by simpa [hget] using hf⟩
    · rintro ⟨j, hj, hf⟩
      rw [h.getElem?_lane k hj, hp, Option.bind_some, Option.any_eq_true] at hf
      obtain ⟨c, hc, hcf⟩ := hf
      exact ⟨c, List.mem_of_getElem? hc, hcf⟩

theorem lane_le (h : Blocks r n pairs) {p : Value × Value} (hp : p ∈ pairs) {c : Check}
    (hc : c ∈ laneChecks r p) (hf : c.failed) :
    c.magnitude.code ≤ (Verdict.judge r p.1 p.2).code :=
  (h.joins hp).le c.verdict (List.mem_map_of_mem hc) (by simpa [Check.failed] using hf)

theorem attained (h : Blocks r n pairs) {k : Nat} {p : Value × Value} (hp : pairs[k]? = some p)
    (hf : (Check.mk p.1 p.2 (Verdict.judge r p.1 p.2)).failed)
    (hpos : 0 < (Verdict.judge r p.1 p.2).code) :
    ∃ c, ∃ j < n, (judgedBy r (lanePairs pairs))[k * n + j]? = some c ∧ c.failed ∧
      c.magnitude.code = (Verdict.judge r p.1 p.2).code := by
  have hf' : (Verdict.judge r p.1 p.2).passed = false := by simpa [Check.failed] using hf
  have hj := (h.joins (List.mem_of_getElem? hp)).attained hf'
  obtain ⟨l, hl, hlf, hlc⟩ := hj.resolve_left (by omega)
  obtain ⟨c, hc, rfl⟩ := List.mem_map.mp hl
  obtain ⟨j, hj, hget⟩ := h.exists_lane hp hc
  exact ⟨c, j, hj, hget, by simpa [Check.failed] using hlf, hlc⟩

/-- No failed pair deviates more than the worst lane. -/
theorem code_le_worst (h : Blocks r n pairs) {w : Worst}
    (hw : IsWorst (judgedBy r (lanePairs pairs)) w) {k : Nat} {p : Value × Value}
    (hp : pairs[k]? = some p) (hf : (Check.mk p.1 p.2 (Verdict.judge r p.1 p.2)).failed) :
    (Verdict.judge r p.1 p.2).code ≤ w.deviation.magnitude.code := by
  have hlanes := comparable_judgedBy r (lanePairs pairs)
  obtain h0 | hpos := Nat.eq_zero_or_pos (Verdict.judge r p.1 p.2).code
  · omega
  · obtain ⟨c, j, -, hget, hcf, hcc⟩ := h.attained hp hf hpos
    have hcm := List.mem_of_getElem? hget
    have hle := ((hlanes c hcm).le_iff (hw.magnitude hlanes)).mp (hw.largest c hcm hcf)
    omega

theorem code_lt_worst (h : Blocks r n pairs) {w : Worst}
    (hw : IsWorst (judgedBy r (lanePairs pairs)) w) {k : Nat} {p : Value × Value}
    (hp : pairs[k]? = some p) (hf : (Check.mk p.1 p.2 (Verdict.judge r p.1 p.2)).failed)
    (hk : k < w.index / n) :
    (Verdict.judge r p.1 p.2).code < w.deviation.magnitude.code := by
  have hlanes := comparable_judgedBy r (lanePairs pairs)
  have hwm := hw.magnitude hlanes
  obtain h0 | hpos := Nat.eq_zero_or_pos (Verdict.judge r p.1 p.2).code
  · have hwpos := hwm.zero_lt_iff.mp hw.positive
    omega
  · obtain ⟨c, j, hj, hget, hcf, hcc⟩ := h.attained hp hf hpos
    have hbefore : k * n + j < w.index := by
      have hblock : (k + 1) * n ≤ w.index := by
        calc (k + 1) * n ≤ w.index / n * n := Nat.mul_le_mul_right _ hk
          _ ≤ w.index := Nat.div_mul_le_self _ _
      rw [Nat.succ_mul] at hblock
      omega
    have hlt := (hlanes c (List.mem_of_getElem? hget)).lt_iff hwm
    have hless := hlt.mp (hw.first _ c hget hcf hbefore)
    omega

theorem pair_of_worst (h : Blocks r n pairs) {w : Worst}
    (hw : IsWorst (judgedBy r (lanePairs pairs)) w) :
    ∃ p, pairs[w.index / n]? = some p ∧ (Check.mk p.1 p.2 (Verdict.judge r p.1 p.2)).failed ∧
      (Verdict.judge r p.1 p.2).deviation.magnitude = w.deviation.magnitude := by
  obtain ⟨c, hget, hcf, hcd⟩ := hw.check
  obtain ⟨p, hp, hc⟩ := h.exists_pair hget
  have hpm := List.mem_of_getElem? hp
  have hpf := (h.failed_iff hpm).mpr ⟨c, hc, hcf⟩
  have hcode : c.magnitude.code = w.deviation.magnitude.code := by rw [Check.magnitude, hcd]
  have hge := h.lane_le hpm hc hcf
  have hle := h.code_le_worst hw hp hpf
  have heq : (Verdict.judge r p.1 p.2).code = w.deviation.magnitude.code := by omega
  have hvm := Verdict.judge_isMagnitude r p.1 p.2
  exact ⟨p, hp, hpf, hvm.eq_of_code (hw.magnitude (comparable_judgedBy _ _)) heq⟩

/-- The pair of the worst lane is the worst pair. -/
theorem isWorst (h : Blocks r n pairs) {w : Worst} (hw : IsWorst (judgedBy r (lanePairs pairs)) w) :
    ∃ d, IsWorst (judgedBy r pairs) ⟨w.index / n, d⟩ ∧ d.magnitude = w.deviation.magnitude := by
  have hwm := hw.magnitude (comparable_judgedBy r (lanePairs pairs))
  have hpairs := comparable_judgedBy r pairs
  obtain ⟨p, hp, hpf, hmag⟩ := h.pair_of_worst hw
  have hget : (judgedBy r pairs)[w.index / n]? = some ⟨p.1, p.2, Verdict.judge r p.1 p.2⟩ := by
    simp [judgedBy, hp]
  refine ⟨(Verdict.judge r p.1 p.2).deviation, ⟨⟨_, hget, hpf, rfl⟩, ?_, ?_, ?_⟩, hmag⟩
  · rw [hmag]
    exact hw.positive
  · intro d hd hdf
    rw [hmag, (hpairs d hd).le_iff hwm]
    obtain ⟨k, hk⟩ := List.mem_iff_getElem?.mp hd
    rw [judgedBy, List.getElem?_map, Option.map_eq_some_iff] at hk
    obtain ⟨q, hq, rfl⟩ := hk
    exact h.code_le_worst hw hq hdf
  · intro k d hk hdf hlt
    rw [hmag, (hpairs d (List.mem_of_getElem? hk)).lt_iff hwm]
    rw [judgedBy, List.getElem?_map, Option.map_eq_some_iff] at hk
    obtain ⟨q, hq, rfl⟩ := hk
    exact h.code_lt_worst hw hq hdf hlt

theorem exists_failed_lane (h : Blocks r n pairs)
    (hex : ∃ c ∈ judgedBy r pairs, c.failed ∧ (Binary.zero false).lt c.magnitude) :
    ∃ c ∈ judgedBy r (lanePairs pairs), c.failed ∧ (Binary.zero false).lt c.magnitude := by
  obtain ⟨c, hc, hf, hpos⟩ := hex
  have hcpos := (comparable_judgedBy r pairs c hc).zero_lt_iff.mp hpos
  obtain ⟨k, hk⟩ := List.mem_iff_getElem?.mp hc
  rw [judgedBy, List.getElem?_map, Option.map_eq_some_iff] at hk
  obtain ⟨p, hp, rfl⟩ := hk
  obtain ⟨l, j, -, hget, hlf, hlc⟩ := h.attained hp hf hcpos
  have hlm := List.mem_of_getElem? hget
  refine ⟨l, hlm, hlf, (comparable_judgedBy r (lanePairs pairs) l hlm).zero_lt_iff.mpr ?_⟩
  rw [hlc]
  exact hcpos

theorem maxError_agrees (h : Blocks r n pairs) {s t : Session} (hs : s.Tracks (judgedBy r pairs))
    (ht : t.Tracks (judgedBy r (lanePairs pairs))) :
    s.summary.maxError = none ∧ t.summary.maxError = none ∨
      ∃ d e, s.summary.maxError = some d ∧ t.summary.maxError = some e ∧ d.magnitude = e.magnitude ∧
        s.summary.maxErrorIndex = t.summary.maxErrorIndex / n := by
  cases hw : t.worst with
  | none =>
    have hsn : s.worst = none := by
      by_contra hne
      have hsome := hs.worst_isSome_iff.mp (Option.isSome_iff_ne_none.mpr hne)
      have hlane := ht.worst_isSome_iff.mpr (h.exists_failed_lane hsome)
      simp [hw] at hlane
    exact .inl ⟨by simp [Session.summary, hsn], by simp [Session.summary, hw]⟩
  | some w =>
    obtain ⟨d, hd, hmag⟩ := h.isWorst (ht.worst w hw)
    have hsw := (hs.worst_eq_some_iff _).mpr hd
    exact .inr ⟨d, w.deviation, by simp [Session.summary, hsw], by simp [Session.summary, hw], hmag,
      by simp [Session.summary, hsw, hw]⟩

end Blocks

end Comparison

namespace Validation

open Comparison

variable {ty : ValueType} {expected actual : List UInt8}

theorem bufferPairs_lane (hl : expected.length = actual.length)
    (hm : expected.length % ty.size = 0) :
    bufferPairs (.scalar ty.lane) expected actual = lanePairs (bufferPairs ty expected actual) := by
  rw [bufferPairs, Value.split_lane hm, Value.split_lane (hl ▸ hm)]
  exact zip_flatMap_lanes (fun _ => Value.ty_of_mem_split) fun _ => Value.ty_of_mem_split

/-- A type and its lanes are judged by one rule. -/
theorem rule_reset_lane (s : Session) : (s.reset (.scalar ty.lane)).rule = (s.reset ty).rule := rfl

theorem blocks_bufferPairs (ty : ValueType) (expected actual : List UInt8) {options : Options}
    (hmin : options.minimum = none) (hmax : options.maximum = none) :
    Blocks ((Session.start options).reset ty).rule ty.laneCount
      (bufferPairs ty expected actual) where
  minimum := hmin
  maximum := hmax
  typed := fun p hp => by
    obtain ⟨he, ha⟩ := bufferPairs_typed ty expected actual p hp
    rw [he, ha]
  count := fun p hp => by rw [(bufferPairs_typed ty expected actual p hp).1]
  pos := ty.laneCount_pos

/-- Without limits, it makes no difference to the outcome whether buffers are compared as packed
values or as their lanes: a packed check fails if one of its lanes does, and the largest deviation
is the same and found in the same value. -/
theorem packed_agrees (ty : ValueType) (expected actual : List UInt8) (options : Options)
    (hmin : options.minimum = none) (hmax : options.maximum = none)
    (hl : expected.length = actual.length) (hm : expected.length % ty.size = 0) :
    let n := ty.laneCount
    let packed := (bufferRun ty expected actual options).2.summary
    let lanes := (bufferRun (.scalar ty.lane) expected actual options).2.summary
    (buffer ty expected actual options).result = .ok packed ∧
    (buffer (.scalar ty.lane) expected actual options).result = .ok lanes ∧
    packed.checks = (bufferChecks ty expected actual options).length ∧
    lanes.checks = (bufferChecks (.scalar ty.lane) expected actual options).length ∧
    lanes.checks = packed.checks * n ∧
    (∀ k < packed.checks, (bufferChecks ty expected actual options)[k]?.any Check.failed ↔
      ∃ j < n,
        (bufferChecks (.scalar ty.lane) expected actual options)[k * n + j]?.any Check.failed) ∧
    (packed.maxError = none ∧ lanes.maxError = none ∨
      ∃ d e, packed.maxError = some d ∧ lanes.maxError = some e ∧ d.magnitude = e.magnitude ∧
        packed.maxErrorIndex = lanes.maxErrorIndex / n) := by
  intro n packed lanes
  have hlane : expected.length % (ValueType.scalar ty.lane).size = 0 := by
    rw [ValueType.size_scalar]
    exact Nat.mod_eq_zero_of_dvd ((Nat.dvd_mul_right _ _).trans (Nat.dvd_of_mod_eq_zero hm))
  have hb := blocks_bufferPairs ty expected actual hmin hmax
  have hp := bufferRun_tracks ty expected actual options
  have ht := bufferRun_tracks (.scalar ty.lane) expected actual options
  have hchecks := bufferChecks_eq ty expected actual options
  have hlanes := bufferChecks_eq (.scalar ty.lane) expected actual options
  rw [rule_reset_lane, bufferPairs_lane hl hm] at hlanes
  refine ⟨buffer_result hl hm, buffer_result hl hlane, hp.count, ht.count, ?_, ?_, ?_⟩
  · have hpc : packed.checks = _ := hp.count
    have htc : lanes.checks = _ := ht.count
    rw [hpc, htc, hchecks, hlanes, judgedBy, judgedBy, List.length_map, List.length_map,
      hb.length_lanePairs]
  · intro k _
    rw [hchecks, hlanes]
    exact hb.any_failed_iff k
  · rw [hchecks] at hp
    rw [hlanes] at ht
    exact hb.maxError_agrees hp ht

theorem packed_agrees_bytes :
    let e : List UInt8 := [1, 2, 3, 4, 5, 6, 7, 8]
    let a : List UInt8 := [1, 2, 3, 4, 5, 7, 7, 3]
    let packed := (bufferRun (.packed .u8x4) e a {}).2.summary
    let lanes := (bufferRun (.scalar .u8) e a {}).2.summary
    e.length = a.length ∧ e.length % (ValueType.packed .u8x4).size = 0 ∧
      (buffer (.packed .u8x4) e a {}).result = .ok packed ∧
      (buffer (.scalar .u8) e a {}).result = .ok lanes ∧
      (packed.checks, packed.failed, packed.maxErrorIndex) = (2, 1, 1) ∧
      (lanes.checks, lanes.failed, lanes.maxErrorIndex) = (8, 2, 7) := by
  intro e a packed lanes
  obtain ⟨hp, hl, -⟩ := packed_agrees (.packed .u8x4) e a {} rfl rfl rfl (by decide)
  exact ⟨rfl, by decide, hp, hl, by decide +kernel, by decide +kernel⟩

end Validation

end Conformance
