import Mathlib
import Conformance.Proofs.Comparison.Error
import Conformance.Proofs.Value.Lanes

namespace Conformance

namespace ValueType

@[simp]
theorem format?_lane (ty : ValueType) : (ValueType.scalar ty.lane).format? = ty.format? := rfl

@[simp]
theorem lane_unsigned (ty : ValueType) : ty.unsigned.lane = ty.lane.unsigned := by
  cases ty with
  | scalar s => rfl
  | packed p => cases p <;> rfl

@[simp]
theorem laneCount_unsigned (ty : ValueType) : ty.unsigned.laneCount = ty.laneCount := by
  cases ty with
  | scalar s => rfl
  | packed p => cases p <;> rfl

end ValueType

namespace Comparison.Verdict

open Binary

def code (v : Verdict) : Nat := v.deviation.magnitude.code

/-- A verdict that the given verdicts on lanes add up to. -/
structure Joins (v : Verdict) (lanes : List Verdict) : Prop where
  passed : v.passed = lanes.all Verdict.passed
  le : ∀ l ∈ lanes, l.passed = false → l.code ≤ v.code
  attained : v.passed = false → v.code = 0 ∨ ∃ l ∈ lanes, l.passed = false ∧ l.code = v.code

def ofJudgement (j : Judgement) : Verdict := ⟨j.passed, .error j.error⟩

@[simp]
theorem code_ofJudgement (j : Judgement) : (ofJudgement j).code = j.error.code := rfl

theorem code_le_ofJudgements {js : List Judgement} (hm : ∀ j ∈ js, j.error.IsMagnitude)
    {j : Judgement} (hj : j ∈ js) : j.error.code ≤ (ofJudgements js).code := by
  have hme : ∀ e ∈ js.map Judgement.error, e.IsMagnitude := by
    simpa using hm
  match js with
  | [k] =>
    obtain rfl : j = k := by simpa using hj
    exact le_refl _
  | _ :: _ :: _ => exact Deviation.code_le_largest hme (List.mem_map_of_mem hj)

/-- Floating-point lanes, of which those that pass deviate at most as much as those that fail. -/
theorem ofJudgements_joins {js : List Judgement} (hm : ∀ j ∈ js, j.error.IsMagnitude)
    (hle : ∀ j ∈ js, ∀ k ∈ js, j.passed → k.passed = false → j.error.code ≤ k.error.code) :
    (ofJudgements js).Joins (js.map ofJudgement) := by
  by_cases hs : ∃ j, js = [j]
  · obtain ⟨j, rfl⟩ := hs
    refine ⟨by simp [ofJudgements, ofJudgement], ?_, ?_⟩
    · intro l hl _
      obtain rfl : l = ofJudgement j := by simpa using hl
      exact le_refl _
    · exact fun hf => .inr ⟨ofJudgement j, by simp, hf, rfl⟩
  · have hv : ofJudgements js = ⟨js.all Judgement.passed, .lanes (js.map Judgement.error)⟩ := by
      match js with
      | [] => rfl
      | [j] => exact absurd ⟨j, rfl⟩ hs
      | _ :: _ :: _ => rfl
    have hme : ∀ e ∈ js.map Judgement.error, e.IsMagnitude := by
      intro e he
      obtain ⟨j, hj, rfl⟩ := List.mem_map.mp he
      exact hm j hj
    refine ⟨by simp [hv, ofJudgement, Function.comp_def], ?_, ?_⟩
    · intro l hl _
      obtain ⟨j, hj, rfl⟩ := List.mem_map.mp hl
      exact code_le_ofJudgements hm hj
    · intro hf
      obtain ⟨k, hk, hkf⟩ : ∃ k ∈ js, k.passed = false := by simpa [hv] using hf
      have hcases : (ofJudgements js).code = 0 ∨
          ∃ e ∈ js.map Judgement.error, e.code = (ofJudgements js).code := by
        rw [hv]
        exact Deviation.code_largest_cases hme
      obtain h0 | ⟨e, he, hec⟩ := hcases
      · exact .inl h0
      · right
        obtain ⟨j, hj, rfl⟩ := List.mem_map.mp he
        cases hjp : j.passed with
        | false => exact ⟨ofJudgement j, List.mem_map_of_mem hj, hjp, hec⟩
        | true =>
          -- a passing lane can only be the largest if a failing one deviates as much
          have h1 := hle j hj k hk hjp hkf
          have h2 := code_le_ofJudgements hm hk
          exact ⟨ofJudgement k, List.mem_map_of_mem hk, hkf, by rw [code_ofJudgement]; omega⟩

theorem float_scalar {f : Format} (r : Rule) {s : Scalar} {e a : Value} (he : e.ty = .scalar s)
    (ha : a.ty = .scalar s) :
    float f r e a = ofJudgement (r.judge (e.toBinary f) (a.toBinary f)) := by
  obtain ⟨ty, bits⟩ := e
  obtain ⟨ty', bits'⟩ := a
  obtain rfl : ty = .scalar s := he
  obtain rfl : ty' = .scalar s := ha
  simp [float, Value.lanes_scalar, ofJudgements, ofJudgement]

theorem float_joins {f : Format} (r : Rule) (hmin : r.minimum = none) (hmax : r.maximum = none)
    {e a : Value} (ht : e.ty = a.ty) :
    (float f r e a).Joins ((e.lanes.zip a.lanes).map fun p => float f r p.1 p.2) := by
  have hlanes : ∀ p ∈ e.lanes.zip a.lanes,
      float f r p.1 p.2 = ofJudgement (r.judge (p.1.toBinary f) (p.2.toBinary f)) := by
    intro p hp
    have he := Value.ty_of_mem_lanes (List.of_mem_zip hp).1
    have ha := Value.ty_of_mem_lanes (List.of_mem_zip hp).2
    exact float_scalar r he (by rw [ha, ht])
  have hmap : (e.lanes.zip a.lanes).map (fun p => float f r p.1 p.2) =
      ((e.lanes.zip a.lanes).map fun p => r.judge (p.1.toBinary f) (p.2.toBinary f)).map
        ofJudgement := by
    rw [List.map_map]
    exact List.map_congr_left hlanes
  rw [hmap]
  apply ofJudgements_joins
  · intro j hj
    obtain ⟨p, -, rfl⟩ := List.mem_map.mp hj
    exact r.judge_error_isMagnitude _ _
  · intro j hj k hk
    obtain ⟨p, -, rfl⟩ := List.mem_map.mp hj
    obtain ⟨q, -, rfl⟩ := List.mem_map.mp hk
    exact r.judge_error_le hmin hmax

def size (distance : Value) : Double := .ofNat .double distance.toNat

theorem exact_code (e a : Value) :
    (Verdict.exact e a).code = (Deviation.largest ((distance e a).lanes.map size)).code := rfl

theorem exact_passed_iff (e a : Value) :
    (Verdict.exact e a).passed ↔ (Verdict.exact e a).code = 0 :=
  (exact_isMagnitude e a).same_zero_iff

theorem lanes_distance {e a : Value} (ht : e.ty = a.ty) :
    (distance e a).lanes = (e.lanes.zip a.lanes).map fun p => laneDistance p.1 p.2 := by
  apply Value.lanes_joined
  · simp [ht]
  · intro v hv
    obtain ⟨p, hp, rfl⟩ := List.mem_map.mp hv
    have he := Value.ty_of_mem_lanes (List.of_mem_zip hp).1
    simp [laneDistance, he]

theorem isMagnitude_sizes (ds : List Value) : ∀ e ∈ ds.map size, e.IsMagnitude := by
  intro e he
  obtain ⟨d, -, rfl⟩ := List.mem_map.mp he
  exact isMagnitude_ofNat _

theorem exact_scalar {s : Scalar} {e a : Value} (he : e.ty = .scalar s) (ha : a.ty = .scalar s) :
    (Verdict.exact e a).code = (size (laneDistance e a)).code := by
  have hlanes := lanes_distance (he.trans ha.symm)
  obtain ⟨ty, bits⟩ := e
  obtain ⟨ty', bits'⟩ := a
  obtain rfl : ty = .scalar s := he
  obtain rfl : ty' = .scalar s := ha
  rw [exact_code, hlanes, Value.lanes_scalar, Value.lanes_scalar]
  set d := laneDistance ⟨.scalar s, bits⟩ ⟨.scalar s, bits'⟩ with hd
  have hm := isMagnitude_sizes [d]
  have hle := Deviation.code_le_largest hm (e := size d) (by simp)
  have hcases := Deviation.code_largest_cases hm
  simp only [List.map_cons, List.map_nil, List.mem_singleton, exists_eq_left] at hle hcases ⊢
  simp only [List.zip_cons_cons, List.zip_nil_left, List.map_cons, List.map_nil, ← hd]
  omega

theorem exact_joins {e a : Value} (ht : e.ty = a.ty) :
    (Verdict.exact e a).Joins ((e.lanes.zip a.lanes).map fun p => Verdict.exact p.1 p.2) := by
  have hlane : ∀ p ∈ e.lanes.zip a.lanes,
      (Verdict.exact p.1 p.2).code = (size (laneDistance p.1 p.2)).code := by
    intro p hp
    have he := Value.ty_of_mem_lanes (List.of_mem_zip hp).1
    have ha := Value.ty_of_mem_lanes (List.of_mem_zip hp).2
    exact exact_scalar he (by rw [ha, ht])
  have hm := isMagnitude_sizes ((e.lanes.zip a.lanes).map fun p => laneDistance p.1 p.2)
  have hcode := exact_code e a
  rw [lanes_distance ht] at hcode
  have hle : ∀ p ∈ e.lanes.zip a.lanes,
      (Verdict.exact p.1 p.2).code ≤ (Verdict.exact e a).code := by
    intro p hp
    rw [hlane p hp, hcode]
    exact Deviation.code_le_largest hm (List.mem_map_of_mem (List.mem_map_of_mem hp))
  have hattained : (Verdict.exact e a).code = 0 ∨
      ∃ p ∈ e.lanes.zip a.lanes, (Verdict.exact p.1 p.2).code = (Verdict.exact e a).code := by
    rw [hcode]
    obtain h0 | ⟨x, hx, hxc⟩ := Deviation.code_largest_cases hm
    · exact .inl h0
    · obtain ⟨d, hd, rfl⟩ := List.mem_map.mp hx
      obtain ⟨p, hp, rfl⟩ := List.mem_map.mp hd
      exact .inr ⟨p, hp, by rw [hlane p hp, hxc]⟩
  refine ⟨?_, ?_, ?_⟩
  · rw [Bool.eq_iff_iff, exact_passed_iff, List.all_map, List.all_eq_true]
    simp only [Function.comp_apply, exact_passed_iff]
    constructor
    · intro h0 p hp
      have h := hle p hp
      omega
    · intro hall
      obtain h0 | ⟨p, hp, hpc⟩ := hattained
      · exact h0
      · rw [← hpc, hall p hp]
  · intro l hl _
    obtain ⟨p, hp, rfl⟩ := List.mem_map.mp hl
    exact hle p hp
  · intro hf
    have hne : (Verdict.exact e a).code ≠ 0 := by
      rw [ne_eq, ← exact_passed_iff, hf]
      simp
    obtain ⟨p, hp, hpc⟩ := hattained.resolve_left hne
    refine .inr ⟨Verdict.exact p.1 p.2, List.mem_map_of_mem hp, ?_, hpc⟩
    rw [← Bool.not_eq_true, exact_passed_iff, hpc]
    exact hne

/-- The verdict on two values of one type adds up from those on their lanes. -/
theorem judge_joins (r : Rule) (hmin : r.minimum = none) (hmax : r.maximum = none) {e a : Value}
    (ht : e.ty = a.ty) :
    (judge r e a).Joins ((e.lanes.zip a.lanes).map fun p => judge r p.1 p.2) := by
  have hlane : ∀ p ∈ e.lanes.zip a.lanes, p.1.ty.format? = e.ty.format? := by
    intro p hp
    rw [Value.ty_of_mem_lanes (List.of_mem_zip hp).1, ValueType.format?_lane]
  cases hf : e.ty.format? with
  | some f =>
    have hl : ∀ p ∈ e.lanes.zip a.lanes, judge r p.1 p.2 = float f r p.1 p.2 := by
      intro p hp
      simp [judge, hlane p hp, hf]
    rw [List.map_congr_left hl]
    simpa [judge, hf] using float_joins r hmin hmax ht
  | none =>
    have hl : ∀ p ∈ e.lanes.zip a.lanes, judge r p.1 p.2 = Verdict.exact p.1 p.2 := by
      intro p hp
      simp [judge, hlane p hp, hf]
    rw [List.map_congr_left hl]
    simpa [judge, hf] using exact_joins ht

end Comparison.Verdict

end Conformance
