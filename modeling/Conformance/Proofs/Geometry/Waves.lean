import Mathlib
import Conformance.Proofs.Geometry.Grid

namespace Conformance

theorem lt_ceilDiv_iff {a b w : Nat} (hb : 0 < b) : w < a ⌈/⌉ b ↔ w * b < a := by
  rw [← not_le, ceilDiv_le_iff_le_mul hb, not_le, Nat.mul_comm]

theorem succ_div_le {b : Nat} (hb : 0 < b) (i : Nat) : (i + 1) / b ≤ i / b + 1 := by
  calc (i + 1) / b ≤ (i + b) / b := Nat.div_le_div_right (by omega)
    _ = i / b + 1 := Nat.add_div_right i hb

namespace Grid

open Axes

/-- The points that wave `w` runs. -/
def crew (g : Grid) (waveSize w : UInt64) : Set Dim3 :=
  {p | g.Contains p ∧ g.wave p waveSize = .ok w}

variable {g : Grid} {rank : UInt32} {extent workgroup p : Dim3} {size waveSize id w : UInt64}
  {ps : List Dim3}

theorem wave_returns (hw : 0 < waveSize.toNat) (h : g.absoluteFlatId p = .ok id) :
    Returns (g.wave p waveSize) (·.toNat = id.toNat / waveSize.toNat) := by
  rw [wave, h]
  exact Count.quotient_returns hw

namespace Valid

theorem waves_returns (hv : g.Valid) (hs : g.size = .ok size) (hw : 0 < waveSize.toNat)
    (hps : g.points = .ok ps) :
    Returns (ps.mapM (g.wave · waveSize)) fun ws =>
      ws.length = size.toNat ∧ ∀ i (h : i < ws.length), ws[i].toNat = i / waveSize.toNat := by
  have hwave (p : Dim3) : Returns (g.wave p waveSize)
      (·.toNat = flatten g.extent.axes (g.wrapped p) / waveSize.toNat) := by
    obtain ⟨id, hid, hflat⟩ := hv.absoluteFlatId_returns hs p
    rw [← hflat]
    exact wave_returns hw hid
  choose number hnumber hflat using hwave
  obtain ⟨hlength, hids⟩ := hv.points_numbered hs hps
  refine ⟨ps.map number, mapM_eq_ok fun p _ => hnumber p, by rw [List.length_map, hlength], ?_⟩
  intro i hi
  rw [List.length_map] at hi
  obtain ⟨id, hid, hidn⟩ := hids i hi
  obtain ⟨id', hid', hflat'⟩ := hv.absoluteFlatId_returns hs ps[i]
  obtain rfl : id' = id := Except.ok.inj (hid'.symm.trans hid)
  rw [List.getElem_map, hflat, ← hflat', hidn]

/-- Waves hold the points with consecutive numbers. -/
theorem image_crew (hv : g.Valid) (hs : g.size = .ok size) (hw : 0 < waveSize.toNat) (w : UInt64) :
    (fun p : Dim3 => flatten g.extent.axes p.axes) '' g.crew waveSize w =
      Finset.Ico (w.toNat * waveSize.toNat)
        (min (w.toNat * waveSize.toNat + waveSize.toNat) size.toNat) := by
  have hwave {p : Dim3} (hp : g.Contains p) : g.wave p waveSize = .ok w ↔
      flatten g.extent.axes p.axes / waveSize.toNat = w.toNat := by
    obtain ⟨id, hid, hflat⟩ := hv.absoluteFlatId_returns hs p
    obtain ⟨w', hw', hn⟩ := wave_returns hw hid
    rw [hw', Except.ok.injEq, ← UInt64.toNat_inj, hn, hflat, wrapped_of_contains hp]
  have hvolume := Dim3.volume_of_size hs
  ext n
  rw [Set.mem_image, Finset.coe_Ico, Set.mem_Ico, lt_min_iff]
  constructor
  · rintro ⟨p, ⟨hp, hpw⟩, rfl⟩
    rw [hwave hp, Nat.div_eq_iff hw] at hpw
    have hlt := flatten_lt (contains_iff.mp hp)
    omega
  · rintro ⟨hlo, hhi, hn⟩
    rw [← hvolume] at hn
    have hin := inside_unflatten hn
    obtain ⟨p, hp⟩ := Dim3.exists_axes fun d => (hin d).trans (g.extent.axes_lt d)
    have hflat : flatten g.extent.axes p.axes = n := by rw [hp, flatten_unflatten]
    have hpc : g.Contains p := by
      rw [contains_iff, hp]
      exact hin
    refine ⟨p, ⟨hpc, ?_⟩, hflat⟩
    rw [hwave hpc, hflat, Nat.div_eq_iff hw]
    omega

theorem ncard_crew (hv : g.Valid) (hs : g.size = .ok size) (hw : 0 < waveSize.toNat) (w : UInt64) :
    (g.crew waveSize w).ncard =
      min waveSize.toNat (size.toNat - w.toNat * waveSize.toNat) := by
  have hinj : Set.InjOn (fun p : Dim3 => flatten g.extent.axes p.axes) (g.crew waveSize w) :=
    fun p hp q hq h =>
      Dim3.ext_axes (flatten_injOn (contains_iff.mp hp.1) (contains_iff.mp hq.1) h)
  rw [← hinj.ncard_image, hv.image_crew hs hw, Set.ncard_coe_finset, Nat.card_Ico]
  omega

end Valid

/-- Waves partition a grid into runs of the points in order: the first point is in wave 0, the next
point is in the same wave or the next, and a wave is full unless the grid ends in it. -/
theorem waves_partition (hg : make rank extent workgroup = .ok g) (hs : g.size = .ok size)
    (hw : 0 < waveSize) :
    (∃ ps ws, g.points = .ok ps ∧ ps.mapM (g.wave · waveSize) = .ok ws ∧
      ws.head? = some 0 ∧ ws.Pairwise (· ≤ ·) ∧ ws.IsChain (fun v w => w.toNat ≤ v.toNat + 1) ∧
      ∀ w, w ∈ ws ↔ w.toNat < size.toNat ⌈/⌉ waveSize.toNat) ∧
    ∀ w : UInt64, w.toNat < size.toNat ⌈/⌉ waveSize.toNat →
      (g.crew waveSize w).ncard =
        min waveSize.toNat (size.toNat - w.toNat * waveSize.toNat) := by
  have hv := valid_of_make hg
  have hw' : 0 < waveSize.toNat := UInt64.lt_iff_toNat_lt.mp hw
  have hpos : 0 < size.toNat := by
    rw [← Dim3.volume_of_size hs]
    exact Nat.mul_pos (Nat.mul_pos (hv.extent_pos 0) (hv.extent_pos 1)) (hv.extent_pos 2)
  obtain ⟨place, hps, -⟩ := hv.points_returns hs
  obtain ⟨ws, hws, hlength, hnth⟩ := hv.waves_returns hs hw' hps
  refine ⟨⟨_, ws, hps, hws, ?_, ?_, ?_, fun w => ?_⟩, fun w _ => hv.ncard_crew hs hw' w⟩
  · have h0 : 0 < ws.length := by rwa [hlength]
    rw [List.head?_eq_getElem?, List.getElem?_eq_getElem h0, Option.some.injEq, ← UInt64.toNat_inj,
      hnth 0 h0, Nat.zero_div]
    rfl
  · rw [List.pairwise_iff_getElem]
    intro i j hi hj hij
    rw [UInt64.le_iff_toNat_le, hnth i hi, hnth j hj]
    exact Nat.div_le_div_right hij.le
  · rw [List.isChain_iff_getElem]
    intro i hi
    rw [hnth _ hi, hnth i (by omega)]
    exact succ_div_le hw' i
  · rw [lt_ceilDiv_iff hw', List.mem_iff_getElem]
    constructor
    · rintro ⟨i, hi, rfl⟩
      rw [hnth i hi]
      exact (Nat.div_mul_le_self i _).trans_lt (hi.trans_eq hlength)
    · intro hlt
      have hi : w.toNat * waveSize.toNat < ws.length := hlt.trans_eq hlength.symm
      exact ⟨_, hi, UInt64.toNat_inj.mp (by rw [hnth _ hi, Nat.mul_div_cancel _ hw'])⟩

theorem waves_partition_last :
    let extent : Dim3 := ⟨0xffffffff, 0x80000000, 2⟩
    let g : Grid := ⟨3, extent, ⟨256, 1, 1⟩⟩
    make 3 extent ⟨256, 1, 1⟩ = .ok g ∧ g.size = .ok 0xffffffff00000000 ∧ (0 : UInt64) < 1000 ∧
      (g.crew 1000 18446744069414583).ncard = 1000 ∧
        (g.crew 1000 18446744069414584).ncard = 320 := by
  intro extent g
  have hg : make 3 extent ⟨256, 1, 1⟩ = .ok g := by decide
  have hs : g.size = .ok 0xffffffff00000000 := by decide
  have hw : (0 : UInt64) < 1000 := by decide
  obtain ⟨-, hcrew⟩ := waves_partition hg hs hw
  refine ⟨hg, hs, hw, hcrew 18446744069414583 ?_, hcrew 18446744069414584 ?_⟩
  all_goals
    rw [lt_ceilDiv_iff (by decide)]
    decide

end Grid

end Conformance
