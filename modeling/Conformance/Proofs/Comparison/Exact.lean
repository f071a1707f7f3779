import Mathlib
import Conformance.Comparison.WordDistance
import Conformance.Proofs.Comparison.Distance
import Conformance.Proofs.Comparison.Stream
import Conformance.Proofs.Value.DetailText
import Conformance.Proofs.Word

namespace Conformance

namespace Value

variable {v w : Value}

theorem ext_toInt (ht : v.ty = w.ty) (h : v.toInt = w.toInt) : v = w := by
  rw [← v.ofInt_toInt, ← w.ofInt_toInt, ht, h]

theorem ext_laneAt (ht : v.ty = w.ty) (h : ∀ i < v.ty.laneCount, v.laneAt i = w.laneAt i) :
    v = w := by
  have hlanes : v.lanes = w.lanes := by
    rw [lanes, lanes, ← ht]
    exact List.map_congr_left fun i hi => h i (List.mem_range.mp hi)
  rw [← v.joined_lanes, ← w.joined_lanes, ht, hlanes]

end Value

namespace ValueType

@[simp]
theorem size_unsigned (ty : ValueType) : ty.unsigned.size = ty.size := by
  rw [size, size, lane_unsigned, laneCount_unsigned, Scalar.size_unsigned]

theorem isSigned_scalar (s : Scalar) : (scalar s).isSigned = decide (s.kind = .signed) := rfl

theorem isSigned_unsigned (ty : ValueType) : ty.unsigned.isSigned = false := by
  have hkind : ty.lane.unsigned.kind ≠ .signed := by cases ty.lane <;> decide
  rw [isSigned, lane_unsigned, decide_eq_false hkind]

theorem kind_of_not_isFloat {ty : ValueType} (h : ty.isFloat = false) (f : Format) :
    ty.lane.kind ≠ .float f := by
  intro hk
  simp [isFloat, format?, hk] at h

end ValueType

namespace Comparison

variable {e a : Value}

theorem gap_eq_zero_iff (ht : e.ty = a.ty) : gap e a = 0 ↔ e = a := by
  constructor
  · intro h
    refine Value.ext_laneAt ht fun i hi => Value.ext_toInt (by rw [Value.laneAt, ht]; rfl) ?_
    have hle := Finset.le_sup
      (f := fun i => ((e.laneAt i).toInt - (a.laneAt i).toInt).natAbs) (Finset.mem_range.mpr hi)
    rw [← gap, h] at hle
    omega
  · rintro rfl
    simp [gap]

namespace WordDistance

variable {s : Scalar}

theorem widened_scalar (hs : s ≠ .u128) (bits : BitVec (ValueType.scalar s).width) :
    widened ⟨.scalar s, bits⟩ =
      match s.kind with
      | .signed => .ok (bits.signExtend 128)
      | .unsigned | .pointer => .ok (bits.setWidth 128)
      | .float _ => .error (.lane (.scalar s)) := by
  cases s
  case u128 => exact absurd rfl hs
  all_goals rfl

theorem width_le (hs : s ≠ .u128) : (ValueType.scalar s).width ≤ 64 := by
  cases s
  case u128 => exact absurd rfl hs
  all_goals decide

theorem toInt_setWidth {n : Nat} (h : n ≤ 64) (bits : BitVec n) :
    (bits.setWidth 128).toInt = bits.toNat := by
  have hnat : (bits.setWidth 128).toNat = bits.toNat := BitVec.toNat_setWidth_of_le (by omega)
  have hlt : bits.toNat < 2 ^ 64 := bits.isLt.trans_le (Nat.pow_le_pow_right two_pos h)
  rw [BitVec.toInt_eq_toNat_of_lt (by omega), hnat]

theorem widened_returns {v : Value} (hv : v.ty = .scalar s) (hs : s ≠ .u128)
    (hf : ∀ f, s.kind ≠ .float f) : Returns (widened v) fun x => x.toInt = v.toInt := by
  obtain ⟨ty, bits⟩ := v
  obtain rfl : ty = .scalar s := hv
  have hw := width_le hs
  rw [widened_scalar hs, Value.toInt, ValueType.isSigned_scalar]
  cases hk : s.kind with
  | signed => exact .ok (BitVec.toInt_signExtend_of_le (by omega))
  | unsigned | pointer => exact .ok (toInt_setWidth hw bits)
  | float f => exact absurd hk (hf f)

theorem ofLanes_returns (he : e.ty = .scalar s) (ha : a.ty = .scalar s)
    (hf : ∀ f, s.kind ≠ .float f) :
    Returns (ofLanes e a) fun x => x.toNat = (e.toInt - a.toInt).natAbs := by
  by_cases hs : s = .u128
  · subst hs
    rw [ofLanes, if_pos ⟨he, ha⟩]
    obtain ⟨te, e⟩ := e
    obtain ⟨ta, a⟩ := a
    obtain rfl : te = .scalar .u128 := he
    obtain rfl : ta = .scalar .u128 := ha
    refine .ok ?_
    change (Word.apart false (e.setWidth 128) (a.setWidth 128)).toNat = _
    rw [Word.toNat_apart_unsigned, BitVec.toNat_setWidth_of_le (by decide),
      BitVec.toNat_setWidth_of_le (by decide)]
    rfl
  · have hwide : ¬(e.ty = .scalar .u128 ∧ a.ty = .scalar .u128) := by
      rintro ⟨h, -⟩
      exact hs (ValueType.scalar.inj (he.symm.trans h))
    rw [ofLanes, if_neg hwide]
    refine (widened_returns he hs hf).bind fun x hx =>
      (widened_returns ha hs hf).bind fun y hy => ?_
    refine .ok ?_
    rw [Word.toNat_apart_signed, hx, hy]

variable (ht : e.ty = a.ty) (hf : e.ty.isFloat = false)

include ht hf

theorem ofValues_eq : ofValues e a = .ok (Verdict.distance e a) := by
  have hlanes : ∀ p ∈ e.lanes.zip a.lanes,
      (do return Value.ofNat (.scalar e.ty.unsigned.lane) (← ofLanes p.1 p.2).toNat :
        Except Fault Value) = .ok (Verdict.laneDistance p.1 p.2) := by
    intro p hp
    have h1 := Value.ty_of_mem_lanes (List.of_mem_zip hp).1
    have h2 := Value.ty_of_mem_lanes (List.of_mem_zip hp).2
    obtain ⟨x, hx, hn⟩ := ofLanes_returns h1 (ht ▸ h2) (ValueType.kind_of_not_isFloat hf)
    rw [hx, Verdict.laneDistance, h1, ValueType.lane_scalar, ← hn, ValueType.lane_unsigned]
    rfl
  set distances := (e.lanes.zip a.lanes).map fun p => Verdict.laneDistance p.1 p.2 with hd
  have hcount : distances.length = e.ty.unsigned.laneCount := by simp [hd, ht]
  have htyped : ∀ v ∈ distances, v.ty = .scalar e.ty.unsigned.lane := by
    intro v hv
    obtain ⟨p, hp, rfl⟩ := List.mem_map.mp hv
    have h1 := Value.ty_of_mem_lanes (List.of_mem_zip hp).1
    simp [Verdict.laneDistance, h1]
  rw [ofValues, mapM_eq_ok hlanes]
  change (Value.ofLanes e.ty.unsigned distances).mapError Fault.value = _
  rw [Value.ofLanes_eq hcount htyped]
  rfl

/-- Nothing is cut off on the way through words. -/
theorem exact_eq : exact e a = .ok (Verdict.exact e a) := by
  rw [exact, ofValues_eq ht hf]
  rfl

end WordDistance

namespace Verdict

theorem laneDistance_comm {s : Scalar} (he : e.ty = .scalar s) (ha : a.ty = .scalar s) :
    laneDistance e a = laneDistance a e := by
  rw [laneDistance, laneDistance, he, ha, ← Int.natAbs_neg, Int.neg_sub]

theorem distance_comm (ht : e.ty = a.ty) : distance e a = distance a e := by
  rw [distance, distance, zip_lanes ht, zip_lanes ht.symm, ← ht, List.map_map, List.map_map]
  congr 1
  apply List.map_congr_left
  intro i _
  exact laneDistance_comm rfl (by rw [ht]; rfl)

theorem exact_eq (ht : e.ty = a.ty) : exact e a = ⟨decide (e = a), .exact (distance e a)⟩ := by
  have hfailed := exact_failed_iff ht
  rw [ne_eq, gap_eq_zero_iff ht] at hfailed
  have hpassed : (exact e a).passed = decide (e = a) := by
    by_cases heq : e = a
    · rw [decide_eq_true heq, ← Bool.not_eq_false, hfailed]
      exact not_not_intro heq
    · rw [decide_eq_false heq, hfailed]
      exact heq
  rw [← hpassed]
  rfl

theorem judge_of_not_isFloat (r : Rule) (hf : e.ty.isFloat = false) : judge r e a = exact e a := by
  have hnone : e.ty.format? = none := by simpa [ValueType.isFloat] using hf
  rw [judge, hnone]

end Verdict

namespace Session

variable {s : Session}

theorem compare_exact (ht : e.ty = a.ty) (hs : ∀ ty ∈ s.valueType, ty = e.ty)
    (hf : e.ty.isFloat = false) :
    ∃ step, s.compare e a = .ok step ∧
      step.verdict = ⟨decide (e = a), .exact (Verdict.distance e a)⟩ := by
  refine ⟨_, compare_eq ht hs, ?_⟩
  rw [← Verdict.exact_eq ht, ← Verdict.judge_of_not_isFloat _ hf]
  rfl

/-- Integers and pointers pass if they have the same bits, whatever the options. The deviation is
what the lanes are apart as whole numbers, in lanes without a sign, and words of 128 bits compute
it; the values can change places. -/
theorem exact_judged (s : Session) (ht : e.ty = a.ty) (hs : ∀ ty ∈ s.valueType, ty = e.ty)
    (hf : e.ty.isFloat = false) :
    ∃ step back distance,
      s.compare e a = .ok step ∧ s.compare a e = .ok back ∧
      step.verdict = ⟨decide (e = a), .exact distance⟩ ∧ back.verdict = step.verdict ∧
      WordDistance.exact e a = .ok step.verdict ∧
      distance.ty = e.ty.unsigned ∧ distance.ty.isSigned = false ∧
      distance.ty.laneCount = e.ty.laneCount ∧ distance.ty.size = e.ty.size ∧
      ∀ i < e.ty.laneCount,
        ((distance.laneAt i).toNat : ℤ) = |(e.laneAt i).toInt - (a.laneAt i).toInt| := by
  obtain ⟨step, hstep, hverdict⟩ := compare_exact ht hs hf
  obtain ⟨back, hback, hback'⟩ := compare_exact ht.symm (fun ty h => (hs ty h).trans ht) (ht ▸ hf)
  refine ⟨step, back, Verdict.distance e a, hstep, hback, hverdict, ?_, ?_, rfl,
    e.ty.isSigned_unsigned, e.ty.laneCount_unsigned, e.ty.size_unsigned, fun i hi => ?_⟩
  · rw [hverdict, hback', Verdict.distance_comm ht, decide_eq_decide.mpr eq_comm]
  · rw [WordDistance.exact_eq ht hf, hverdict, Verdict.exact_eq ht]
  · rw [Verdict.toNat_laneAt_distance ht hi, Int.natCast_natAbs]

/-- The ends of the longest signed lane are as far apart as an unsigned one can tell, and so are
those of the longest unsigned lane. -/
theorem exact_judged_extremes :
    let low : Value := .ofNat (.scalar .s64) (2 ^ 63)
    let high : Value := .ofNat (.scalar .s64) (2 ^ 63 - 1)
    let zero : Value := .ofNat (.scalar .u128) 0
    let last : Value := .ofNat (.scalar .u128) (2 ^ 128 - 1)
    (low.ty = high.ty ∧ zero.ty = last.ty) ∧ (start {}).valueType = none ∧
      (low.ty.isFloat = false ∧ zero.ty.isFloat = false) ∧
      (∃ step d, (start {}).compare low high = .ok step ∧ step.verdict = ⟨false, .exact d⟩ ∧
        d.ty = .scalar .u64 ∧ (d.laneAt 0).toNat = 2 ^ 64 - 1) ∧
      ∃ step d, (start {}).compare zero last = .ok step ∧ step.verdict = ⟨false, .exact d⟩ ∧
        d.ty = .scalar .u128 ∧ (d.laneAt 0).toNat = 2 ^ 128 - 1 := by
  intro low high zero last
  have hnone : ∀ v : Value, ∀ ty ∈ (start {}).valueType, ty = v.ty := by simp [start]
  refine ⟨⟨rfl, rfl⟩, rfl, ⟨rfl, rfl⟩, ?_, ?_⟩
  · obtain ⟨step, -, d, hstep, -, hverdict, -, -, hty, -, -, -, hlane⟩ :=
      exact_judged (start {}) (e := low) (a := high) rfl (hnone low) rfl
    have hne : low ≠ high := by decide
    have hends : (low.laneAt 0).toInt = -2 ^ 63 ∧ (high.laneAt 0).toInt = 2 ^ 63 - 1 := by decide
    have hdistance := hlane 0 (by decide)
    rw [hends.1, hends.2] at hdistance
    rw [decide_eq_false hne] at hverdict
    exact ⟨step, d, hstep, hverdict, hty, by norm_num at hdistance; omega⟩
  · obtain ⟨step, -, d, hstep, -, hverdict, -, -, hty, -, -, -, hlane⟩ :=
      exact_judged (start {}) (e := zero) (a := last) rfl (hnone zero) rfl
    have hne : zero ≠ last := by decide
    have hends : (zero.laneAt 0).toInt = 0 ∧ (last.laneAt 0).toInt = 2 ^ 128 - 1 := by decide
    have hdistance := hlane 0 (by decide)
    rw [hends.1, hends.2] at hdistance
    rw [decide_eq_false hne] at hverdict
    exact ⟨step, d, hstep, hverdict, hty, by norm_num at hdistance; omega⟩

end Session

end Comparison

end Conformance
