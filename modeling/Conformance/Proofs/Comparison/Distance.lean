import Mathlib
import Conformance.Proofs.Binary.Monotonicity
import Conformance.Proofs.Comparison.Lanes

namespace Conformance

@[simp]
theorem Scalar.size_unsigned (s : Scalar) : s.unsigned.size = s.size := by
  cases s <;> rfl

namespace Value

variable {v w : Value} {s : Scalar}

theorem natAbs_sub_lt (hv : v.ty = .scalar s) (hw : w.ty = .scalar s) :
    (v.toInt - w.toInt).natAbs < 256 ^ s.size := by
  have hp : (2 ^ (ValueType.scalar s).width : Nat) = 256 ^ s.size := by
    rw [ValueType.two_pow_width, ValueType.size_scalar]
  obtain ⟨tv, v⟩ := v
  obtain ⟨tw, w⟩ := w
  obtain rfl : tv = .scalar s := hv
  obtain rfl : tw = .scalar s := hw
  rw [← hp]
  simp only [toInt, toNat]
  split
  · have hvl := BitVec.le_two_mul_toInt (x := v)
    have hvu := BitVec.two_mul_toInt_lt (x := v)
    have hwl := BitVec.le_two_mul_toInt (x := w)
    have hwu := BitVec.two_mul_toInt_lt (x := w)
    zify
    rw [abs_lt]
    constructor <;> linarith
  · have hvu := v.isLt
    have hwu := w.isLt
    omega

end Value

namespace Comparison

open Binary

/-- The largest distance of lanes that stand in the same place. -/
def gap (expected actual : Value) : Nat :=
  (Finset.range expected.ty.laneCount).sup fun i =>
    ((expected.laneAt i).toInt - (actual.laneAt i).toInt).natAbs

variable {e a : Value}

theorem gap_lt (ht : e.ty = a.ty) : gap e a < 256 ^ e.ty.lane.size := by
  rw [gap, Finset.sup_lt_iff (Nat.pow_pos (by decide))]
  intro i _
  exact Value.natAbs_sub_lt rfl (by rw [ht]; rfl)

theorem gap_le (ht : e.ty = a.ty) : gap e a ≤ 2 ^ 128 := by
  have hs : e.ty.lane.size ≤ 16 := by cases e.ty.lane <;> decide
  calc gap e a ≤ 256 ^ e.ty.lane.size := (gap_lt ht).le
    _ ≤ 256 ^ 16 := Nat.pow_le_pow_right (by decide) hs
    _ = 2 ^ 128 := by norm_num

namespace Deviation

/-- The largest of several whole numbers, as rounding sees it. -/
theorem code_largest_ofNat (n : Nat) (d : Nat → Nat) :
    (largest ((List.range n).map fun i => ofNat .double (d i))).code =
      (ofNat .double ((Finset.range n).sup d)).code := by
  have hm : ∀ x ∈ (List.range n).map fun i => (ofNat .double (d i)), x.IsMagnitude := by
    intro x hx
    obtain ⟨i, -, rfl⟩ := List.mem_map.mp hx
    exact isMagnitude_ofNat _
  apply Nat.le_antisymm
  · obtain h0 | ⟨x, hx, hc⟩ := code_largest_cases hm
    · omega
    · obtain ⟨i, hi, rfl⟩ := List.mem_map.mp hx
      rw [← hc]
      exact code_ofNat_mono (Finset.le_sup (f := d) (Finset.mem_range.mpr (List.mem_range.mp hi)))
  · obtain rfl | hn := Nat.eq_zero_or_pos n
    · have h0 : (ofNat .double 0).code = 0 := code_ofNat_eq_zero_iff.mpr rfl
      simp [h0]
    · obtain ⟨i, hi, hsup⟩ := Finset.exists_mem_eq_sup (Finset.range n)
        (Finset.nonempty_range_iff.mpr hn.ne') d
      rw [hsup]
      exact code_le_largest hm
        (List.mem_map_of_mem (List.mem_range.mpr (Finset.mem_range.mp hi)))

end Deviation

namespace Verdict

theorem toNat_laneDistance {s : Scalar} (he : e.ty = .scalar s) (ha : a.ty = .scalar s) :
    (laneDistance e a).toNat = (e.toInt - a.toInt).natAbs := by
  have hlt := Value.natAbs_sub_lt he ha
  rw [laneDistance, Value.toNat_ofNat, he, ValueType.size_scalar, ValueType.lane_scalar,
    Scalar.size_unsigned, Nat.mod_eq_of_lt hlt]

theorem zip_lanes (ht : e.ty = a.ty) :
    e.lanes.zip a.lanes = (List.range e.ty.laneCount).map fun i => (e.laneAt i, a.laneAt i) := by
  rw [Value.lanes, Value.lanes, ← ht, List.zip_map']

theorem toNat_laneAt_distance (ht : e.ty = a.ty) {i : Nat} (hi : i < e.ty.laneCount) :
    ((distance e a).laneAt i).toNat = ((e.laneAt i).toInt - (a.laneAt i).toInt).natAbs := by
  have hlanes := lanes_distance ht
  rw [zip_lanes ht, List.map_map, Value.lanes] at hlanes
  have hcount : (distance e a).ty.laneCount = e.ty.laneCount := ValueType.laneCount_unsigned e.ty
  rw [hcount] at hlanes
  have hlane := List.map_inj_left.mp hlanes i (List.mem_range.mpr hi)
  rw [hlane]
  exact toNat_laneDistance rfl (by rw [ht]; rfl)

theorem exact_magnitude (ht : e.ty = a.ty) :
    (Verdict.exact e a).deviation.magnitude = ofNat .double (gap e a) := by
  have hsizes : (distance e a).lanes.map size = (List.range e.ty.laneCount).map fun i =>
      ofNat .double ((e.laneAt i).toInt - (a.laneAt i).toInt).natAbs := by
    rw [lanes_distance ht, zip_lanes ht, List.map_map, List.map_map]
    apply List.map_congr_left
    intro i _
    have hd := toNat_laneDistance (e := e.laneAt i) (a := a.laneAt i) rfl (by rw [ht]; rfl)
    rw [Function.comp_apply, Function.comp_apply, size, hd]
  apply (exact_isMagnitude e a).eq_of_code (isMagnitude_ofNat _)
  have hcode := exact_code e a
  rw [hsizes, Deviation.code_largest_ofNat] at hcode
  exact hcode

/-- Exact comparison accepts lanes without distance only. -/
theorem exact_failed_iff (ht : e.ty = a.ty) : (Verdict.exact e a).passed = false ↔ gap e a ≠ 0 := by
  have hcode : (Verdict.exact e a).code = (ofNat .double (gap e a)).code :=
    congrArg Binary.code (exact_magnitude ht)
  rw [← Bool.not_eq_true, exact_passed_iff, hcode, code_ofNat_eq_zero_iff]

end Verdict

end Comparison

end Conformance
