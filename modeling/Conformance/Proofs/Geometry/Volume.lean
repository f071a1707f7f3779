import Mathlib
import Conformance.Proofs.Geometry.Grid

namespace Conformance

theorem Count.times_eq_ok_iff {a b c : UInt64} :
    times a b = .ok c ↔ c.toNat = a.toNat * b.toNat := by
  refine ⟨toNat_of_times, fun h => ?_⟩
  obtain ⟨d, hd, hdn⟩ := times_returns (h ▸ c.toNat_lt)
  rw [hd, UInt64.toNat_inj.mp (hdn.trans h.symm)]

namespace Dim3

open Axes

/-- A count cannot hold the product of the first two extents, although the box has no points. -/
def OverflowsEmpty (p : Dim3) : Prop := p.z = 0 ∧ UInt64.size ≤ p.x.toNat * p.y.toNat

variable {p : Dim3}

theorem size_eq_ok_iff {n : UInt64} :
    p.size = .ok n ↔ n.toNat = volume p.axes ∧ ¬p.OverflowsEmpty := by
  constructor
  · intro h
    obtain ⟨xy, hxy, -⟩ := exists_of_bind h
    refine ⟨(volume_of_size h).symm, fun hover => absurd hover.2 (Nat.not_le.mpr ?_)⟩
    rw [← Count.toNat_of_times hxy]
    exact xy.toNat_lt
  · rintro ⟨hn, hover⟩
    have hlt : p.x.toNat * p.y.toNat < UInt64.size := by
      by_cases hz : p.z = 0
      · exact Nat.lt_of_not_le fun hle => hover ⟨hz, hle⟩
      · have hle : p.x.toNat * p.y.toNat ≤ volume p.axes :=
          Nat.le_mul_of_pos_right _ (Grid.toNat_pos_of_ne_zero hz)
        exact (hle.trans_eq hn.symm).trans_lt n.toNat_lt
    obtain ⟨xy, hxy, hxyn⟩ := Count.times_returns hlt
    rw [size, hxy]
    change Count.times xy p.z = .ok n
    rw [Count.times_eq_ok_iff, hn, hxyn]
    rfl

theorem size32_eq_ok_iff {n : UInt32} :
    p.size32 = .ok n ↔ n.toNat = volume p.axes ∧ ¬p.OverflowsEmpty := by
  have hwide (m : UInt64) (hm : m.toNat < UInt32.size) : m.toUInt32.toNat = m.toNat :=
    (UInt64.toNat_toUInt32 m).trans (Nat.mod_eq_of_lt hm)
  constructor
  · intro h
    rw [size32] at h
    split at h
    case h_1 m hm =>
      split_ifs at h with hlt
      obtain rfl := Except.ok.inj h
      rw [hwide m hlt]
      exact size_eq_ok_iff.mp hm
    case h_2 => cases h
  · intro h
    rw [← UInt32.toNat_toUInt64] at h
    have hlt : n.toUInt64.toNat < UInt32.size := by
      rw [UInt32.toNat_toUInt64]
      exact n.toNat_lt
    rw [size32, size_eq_ok_iff.mpr h]
    change (if n.toUInt64.toNat < UInt32.size then Except.ok n.toUInt64.toUInt32 else _) = _
    rw [if_pos hlt, Except.ok.injEq, ← UInt32.toNat_inj, hwide _ hlt, UInt32.toNat_toUInt64]

theorem eq_wide_of_size32 {fault : Fault} (h : p.size32 = .error fault) : fault = .wide p := by
  rw [size32] at h
  split at h
  · split_ifs at h
    exact (Except.error.inj h).symm
  · exact (Except.error.inj h).symm

/-- The number of points is told whenever 32 bits hold it, unless the first two extents overflow in
a box without points; in all other cases the box is said to be too large. -/
theorem size32_exact (p : Dim3) :
    (∀ n, p.size32 = .ok n ↔ n.toNat = volume p.axes ∧ ¬p.OverflowsEmpty) ∧
    ∀ fault, p.size32 = .error fault ↔
      fault = .wide p ∧ (UInt32.size ≤ volume p.axes ∨ p.OverflowsEmpty) := by
  refine ⟨fun n => size32_eq_ok_iff, fun fault => ⟨fun h => ⟨eq_wide_of_size32 h, ?_⟩, ?_⟩⟩
  · by_contra hfits
    rw [not_or, Nat.not_le] at hfits
    have hok : p.size32 = .ok (.ofNat (volume p.axes)) :=
      size32_eq_ok_iff.mpr ⟨UInt32.toNat_ofNat_of_lt' hfits.1, hfits.2⟩
    cases h.symm.trans hok
  · rintro ⟨rfl, hwide⟩
    cases h : p.size32 with
    | error fault => rw [eq_wide_of_size32 h]
    | ok n =>
      obtain ⟨hn, hover⟩ := size32_eq_ok_iff.mp h
      have hlt := n.toNat_lt
      rw [hn] at hlt
      exact absurd hwide (not_or.mpr ⟨Nat.not_le.mpr hlt, hover⟩)

/-- A box without points is said to be too large, and in another order of its extents it is not. -/
theorem size32_overflows_empty :
    let p : Dim3 := ⟨0x100000000, 0x100000000, 0⟩
    volume p.axes = 0 ∧ p.size32 = .error (.wide p) ∧
      size32 ⟨0, 0x100000000, 0x100000000⟩ = .ok 0 := by
  decide

end Dim3

end Conformance
