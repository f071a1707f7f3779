import Mathlib
import Conformance.Proofs.Geometry.Grid

namespace Conformance

theorem div_add_one_eq {a b : Nat} (ha : 0 < a) (hb : 0 < b) :
    (a - 1) / b + 1 = if a % b = 0 then a / b else a / b + 1 := by
  have hdiv := Nat.div_add_mod a b
  have hmod := Nat.mod_lt a hb
  rw [Nat.mul_comm] at hdiv
  split_ifs with h
  · obtain ⟨k, hk⟩ : ∃ k, a / b = k + 1 := by
      apply Nat.exists_eq_add_one.mpr
      by_contra hz
      rw [Nat.eq_zero_of_not_pos hz] at hdiv
      omega
    rw [hk, Nat.succ_mul] at hdiv
    rw [hk, Nat.div_eq_of_lt_le (k := k)]
    · omega
    · rw [Nat.succ_mul]
      omega
  · rw [Nat.div_eq_of_lt_le (k := a / b)]
    · omega
    · rw [Nat.succ_mul]
      omega

theorem Count.parts_returns {a b : UInt64} (ha : 0 < a.toNat) (hb : 0 < b.toNat) :
    Returns (parts a b) (·.toNat = (a.toNat - 1) / b.toNat + 1) := by
  rw [parts, if_neg (ne_zero_of_pos hb), div_add_one_eq ha hb]
  have hz : a % b = 0 ↔ a.toNat % b.toNat = 0 := by
    rw [← UInt64.toNat_inj, UInt64.toNat_mod]
    rfl
  refine .ok ?_
  split_ifs with h h' h'
  · exact UInt64.toNat_div a b
  · exact absurd (hz.mp h) h'
  · exact absurd (hz.mpr h') h
  · -- there is a remainder, so that `b` is not 1
    have hlt : a.toNat / b.toNat < a.toNat := by
      apply Nat.div_lt_self ha
      by_contra h1
      have hone : b.toNat = 1 := by omega
      exact h' (by rw [hone, Nat.mod_one])
    have ha' := a.toNat_lt
    have hone : (1 : UInt64).toNat = 1 := rfl
    rw [UInt64.toNat_add, UInt64.toNat_div, hone, Nat.mod_eq_of_lt (by omega)]

namespace Grid

open Axes

def counts (g : Grid) : Axes := fun d => (g.extent.axes d - 1) / g.workgroup.axes d + 1

def groupOf (g : Grid) (p : Axes) : Axes := fun d => p d / g.workgroup.axes d

def itemOf (g : Grid) (p : Axes) : Axes := fun d => p d % g.workgroup.axes d

/-- The extent of a workgroup, as far as it lies in the grid. -/
def extentOf (g : Grid) (k : Axes) : Axes :=
  fun d => min (g.workgroup.axes d) (g.extent.axes d - k d * g.workgroup.axes d)

/-- The places from where workgroup `k` starts, as far as it extends. -/
def box (g : Grid) (k : Axes) : Finset Axes :=
  Fintype.piFinset fun d =>
    Finset.Ico (k d * g.workgroup.axes d) (k d * g.workgroup.axes d + g.extentOf k d)

def members (g : Grid) (id : UInt64) : Set Dim3 := {p | g.Contains p ∧ g.workgroupFlatId p = .ok id}

variable {g : Grid} {rank : UInt32} {extent workgroup p q : Dim3}
  {size full id : UInt64} {d : Fin 3}
  {k : Axes}

theorem groupOf_mul_add_itemOf (g : Grid) (p : Axes) (d : Fin 3) :
    g.groupOf p d * g.workgroup.axes d + g.itemOf p d = p d := Nat.div_add_mod' _ _

namespace Valid

theorem inside_itemOf (hv : g.Valid) (p : Axes) : Inside (g.itemOf p) g.workgroup.axes :=
  fun d => Nat.mod_lt _ (hv.workgroup_pos d)

theorem lt_counts_iff (hv : g.Valid) {n : Nat} :
    n < g.counts d ↔ n * g.workgroup.axes d < g.extent.axes d := by
  have he := hv.extent_pos d
  rw [counts, Nat.lt_succ_iff, Nat.le_div_iff_mul_le (hv.workgroup_pos d)]
  omega

theorem inside_groupOf (hv : g.Valid) (hp : g.Contains p) : Inside (g.groupOf p.axes) g.counts := by
  intro d
  rw [hv.lt_counts_iff]
  exact (Nat.div_mul_le_self _ _).trans_lt (contains_iff.mp hp d)

theorem extentOf_pos (hv : g.Valid) (hk : Inside k g.counts) (d : Fin 3) : 0 < g.extentOf k d := by
  have hlt := hv.lt_counts_iff.mp (hk d)
  have hw := hv.workgroup_pos d
  rw [extentOf]
  omega

/-- What is left of the grid is less than a full workgroup in the last one only. -/
theorem itemOf_lt_extentOf (hv : g.Valid) (hp : g.Contains p) (d : Fin 3) :
    g.itemOf p.axes d < g.extentOf (g.groupOf p.axes) d := by
  have hd := g.groupOf_mul_add_itemOf p.axes d
  have hlt := contains_iff.mp hp d
  have hi := hv.inside_itemOf p.axes d
  rw [extentOf]
  omega

theorem extentOf_eq (hv : g.Valid) (hk : Inside k g.counts) (d : Fin 3) :
    g.extentOf k d =
      if g.extent.axes d % g.workgroup.axes d = 0 then g.workgroup.axes d
      else if k d = g.counts d - 1 then g.extent.axes d % g.workgroup.axes d
      else g.workgroup.axes d := by
  have hdiv := Nat.div_add_mod' (g.extent.axes d) (g.workgroup.axes d)
  have hmod := Nat.mod_lt (g.extent.axes d) (hv.workgroup_pos d)
  have hc := div_add_one_eq (hv.extent_pos d) (hv.workgroup_pos d)
  have hkd := hk d
  rw [extentOf]
  rw [counts, hc] at hkd ⊢
  have hfull (h : k d < g.extent.axes d / g.workgroup.axes d) :
      k d * g.workgroup.axes d + g.workgroup.axes d ≤ g.extent.axes d :=
    step_le h (by rw [Nat.mul_comm]; omega)
  split_ifs at hkd ⊢ with hz hlast
  · have h := hfull hkd
    omega
  · rw [Nat.add_sub_cancel] at hlast
    rw [hlast]
    omega
  · have h := hfull (by omega)
    omega

theorem groups_returns (hv : g.Valid) (d : Fin 3) : Returns (g.groups d) (·.toNat = g.counts d) :=
  Count.parts_returns (hv.extent_pos d) (hv.workgroup_pos d)

theorem workgroupId_returns (hv : g.Valid) (p : Dim3) (d : Fin 3) :
    Returns (g.workgroupId p d) (·.toNat = g.groupOf p.axes d) :=
  Count.quotient_returns (hv.workgroup_pos d)

theorem workitemId_returns (hv : g.Valid) (p : Dim3) (d : Fin 3) :
    Returns (g.workitemId p d) (·.toNat = g.itemOf p.axes d) := by
  rw [workitemId]
  split_ifs with hd
  · exact Count.remainder_returns (hv.workgroup_pos d)
  · refine .ok ?_
    rw [itemOf, (hv.unused d (Nat.le_of_not_lt hd)).2, Nat.mod_one]
    rfl

theorem currentWorkgroupSize_returns (hv : g.Valid) (hp : g.Contains p) (d : Fin 3) :
    Returns (g.currentWorkgroupSize p d) (·.toNat = g.extentOf (g.groupOf p.axes) d) := by
  obtain ⟨left, hl, hln⟩ := Count.remainder_returns (a := g.extent.get d) (hv.workgroup_pos d)
  obtain ⟨count, hc, hcn⟩ := hv.groups_returns d
  obtain ⟨group, hg, hgn⟩ := hv.workgroupId_returns p d
  have hz : left = 0 ↔ g.extent.axes d % g.workgroup.axes d = 0 := by
    rw [← UInt64.toNat_inj, hln]
    rfl
  have hone : (1 : UInt64) ≤ count := by
    rw [UInt64.le_iff_toNat_le, hcn]
    exact Nat.succ_pos _
  have hlast : group = count - 1 ↔ g.groupOf p.axes d = g.counts d - 1 := by
    rw [← UInt64.toNat_inj, UInt64.toNat_sub_of_le _ _ hone, hgn, hcn]
    rfl
  rw [currentWorkgroupSize, hl, hc, hg, hv.extentOf_eq (hv.inside_groupOf hp)]
  simp only [← hz, ← hlast]
  change Returns (if left = 0 then pure _ else pure (if group = count - 1 then left else _)) _
  split_ifs
  · exact .ok rfl
  · exact .ok hln
  · exact .ok rfl

theorem counts_le (hv : g.Valid) (d : Fin 3) : g.counts d ≤ g.extent.axes d := by
  have he := hv.extent_pos d
  have hle := Nat.div_le_self (g.extent.axes d - 1) (g.workgroup.axes d)
  rw [counts]
  omega

theorem volume_counts_lt (hv : g.Valid) (hs : g.size = .ok size) :
    volume g.counts < UInt64.size := by
  have hle : volume g.counts ≤ volume g.extent.axes :=
    Nat.mul_le_mul (Nat.mul_le_mul (hv.counts_le 0) (hv.counts_le 1)) (hv.counts_le 2)
  rw [Dim3.volume_of_size hs] at hle
  exact hle.trans_lt size.toNat_lt

theorem workgroupCount_returns (hv : g.Valid) (hs : g.size = .ok size) :
    Returns g.workgroupCount (·.toNat = volume g.counts) := by
  have hlt := hv.volume_counts_lt hs
  obtain ⟨x, hx, hxn⟩ := hv.groups_returns 0
  obtain ⟨y, hy, hyn⟩ := hv.groups_returns 1
  obtain ⟨z, hz, hzn⟩ := hv.groups_returns 2
  have hone : (1 : UInt64).toNat = 1 := rfl
  have hzpos : 0 < z.toNat := by
    rw [hzn]
    exact Nat.succ_pos _
  rw [volume, ← hxn, ← hyn, ← hzn] at hlt ⊢
  have hxy := (Nat.le_mul_of_pos_right (x.toNat * y.toNat) hzpos).trans_lt hlt
  rw [workgroupCount, hx, hy, hz]
  refine (Count.times_returns (by rw [hone, Nat.one_mul]; exact x.toNat_lt)).bind fun x' hx' => ?_
  rw [hone, Nat.one_mul] at hx'
  rw [← hx'] at hlt hxy ⊢
  refine (Count.times_returns hxy).bind fun xy hxy => ?_
  rw [← hxy] at hlt ⊢
  exact Count.times_returns hlt

theorem workitemFlatId_returns (hv : g.Valid) (hw : g.workgroupSize = .ok full) (p : Dim3) :
    Returns (g.workitemFlatId p) (·.toNat = flatten g.workgroup.axes (g.itemOf p.axes)) := by
  obtain ⟨x, hx, hxn⟩ := hv.workitemId_returns p 0
  obtain ⟨y, hy, hyn⟩ := hv.workitemId_returns p 1
  obtain ⟨z, hz, hzn⟩ := hv.workitemId_returns p 2
  have hlt := (flatten_lt (hv.inside_itemOf p.axes)).trans_eq (Dim3.volume_of_size hw)
  rw [workitemFlatId, hx, hy, hz]
  rw [flatten, ← hxn, ← hyn, ← hzn] at hlt ⊢
  exact Count.flatten_returns (hv.workgroup_pos 1) (hlt.trans full.toNat_lt)

theorem workgroupFlatId_returns (hv : g.Valid) (hs : g.size = .ok size) (hp : g.Contains p) :
    Returns (g.workgroupFlatId p) (·.toNat = flatten g.counts (g.groupOf p.axes)) := by
  obtain ⟨x, hx, hxn⟩ := hv.workgroupId_returns p 0
  obtain ⟨y, hy, hyn⟩ := hv.workgroupId_returns p 1
  obtain ⟨z, hz, hzn⟩ := hv.workgroupId_returns p 2
  obtain ⟨w, hw, hwn⟩ := hv.groups_returns 0
  obtain ⟨h, hh, hhn⟩ := hv.groups_returns 1
  have hlt := (flatten_lt (hv.inside_groupOf hp)).trans (hv.volume_counts_lt hs)
  have hpos : 0 < h.toNat := by
    rw [hhn]
    exact Nat.succ_pos _
  rw [workgroupFlatId, hx, hy, hz, hw, hh]
  rw [flatten, ← hxn, ← hyn, ← hzn, ← hwn, ← hhn] at hlt ⊢
  exact Count.flatten_returns hpos hlt

/-- Where a point lies and where its workgroup lies determine the point. -/
theorem eq_of_flatIds (hv : g.Valid) (hs : g.size = .ok size) (hw : g.workgroupSize = .ok full)
    (hp : g.Contains p) (hq : g.Contains q) (hgroup : g.workgroupFlatId p = g.workgroupFlatId q)
    (hitem : g.workitemFlatId p = g.workitemFlatId q) : p = q := by
  obtain ⟨group, hpg, hpgn⟩ := hv.workgroupFlatId_returns hs hp
  obtain ⟨group', hqg, hqgn⟩ := hv.workgroupFlatId_returns hs hq
  rw [hpg, hqg, Except.ok.injEq] at hgroup
  rw [hgroup, hqgn] at hpgn
  have hgroup' := flatten_injOn (hv.inside_groupOf hq) (hv.inside_groupOf hp) hpgn
  obtain ⟨item, hpi, hpin⟩ := hv.workitemFlatId_returns hw p
  obtain ⟨item', hqi, hqin⟩ := hv.workitemFlatId_returns hw q
  rw [hpi, hqi, Except.ok.injEq] at hitem
  rw [hitem, hqin] at hpin
  have hitem' := flatten_injOn (hv.inside_itemOf q.axes) (hv.inside_itemOf p.axes) hpin
  apply Dim3.ext_axes
  funext d
  rw [← g.groupOf_mul_add_itemOf p.axes d, ← hgroup', ← hitem', g.groupOf_mul_add_itemOf]

theorem mem_members_iff (hv : g.Valid) (hs : g.size = .ok size) :
    p ∈ g.members id ↔ g.Contains p ∧ g.groupOf p.axes = unflatten g.counts id.toNat := by
  refine and_congr_right fun hp => ?_
  obtain ⟨id', hid, hflat⟩ := hv.workgroupFlatId_returns hs hp
  rw [hid, Except.ok.injEq, ← UInt64.toNat_inj, hflat]
  constructor
  · intro h
    rw [← h, unflatten_flatten (hv.inside_groupOf hp)]
  · intro h
    rw [h, flatten_unflatten]

theorem mem_box_iff (hv : g.Valid) (hk : Inside k g.counts) (a : Axes) :
    a ∈ g.box k ↔ Inside a g.extent.axes ∧ g.groupOf a = k := by
  have hd (d : Fin 3) : a d ∈ Finset.Ico (k d * g.workgroup.axes d)
      (k d * g.workgroup.axes d + g.extentOf k d) ↔
        a d < g.extent.axes d ∧ g.groupOf a d = k d := by
    have hw := hv.workgroup_pos d
    have hlt := hv.lt_counts_iff.mp (hk d)
    rw [Finset.mem_Ico, groupOf, extentOf, Nat.div_eq_iff hw]
    omega
  rw [box, Fintype.mem_piFinset, Inside, funext_iff, ← forall_and]
  exact forall_congr' hd

theorem image_members (hv : g.Valid) (hs : g.size = .ok size) (hid : id.toNat < volume g.counts) :
    Dim3.axes '' g.members id = g.box (unflatten g.counts id.toNat) := by
  have hk := inside_unflatten hid
  ext a
  rw [Set.mem_image, Finset.mem_coe, hv.mem_box_iff hk]
  constructor
  · rintro ⟨p, hp, rfl⟩
    rw [hv.mem_members_iff hs, contains_iff] at hp
    exact hp
  · rintro ⟨hin, hgroup⟩
    obtain ⟨p, rfl⟩ := Dim3.exists_axes fun d => (hin d).trans (g.extent.axes_lt d)
    exact ⟨p, (hv.mem_members_iff hs).mpr ⟨contains_iff.mpr hin, hgroup⟩, rfl⟩

theorem ncard_members (hv : g.Valid) (hs : g.size = .ok size) (hid : id.toNat < volume g.counts) :
    (g.members id).ncard = volume (g.extentOf (unflatten g.counts id.toNat)) := by
  have hinj : Function.Injective Dim3.axes := fun _ _ => Dim3.ext_axes
  rw [← Set.ncard_image_of_injective _ hinj, hv.image_members hs hid, Set.ncard_coe_finset, box,
    Fintype.card_piFinset, Fin.prod_univ_three]
  simp only [Nat.card_Ico, Nat.add_sub_cancel_left]
  rfl

theorem ncard_members_pos (hv : g.Valid) (hs : g.size = .ok size)
    (hid : id.toNat < volume g.counts) : 0 < (g.members id).ncard := by
  have hpos := hv.extentOf_pos (inside_unflatten hid)
  rw [hv.ncard_members hs hid]
  exact Nat.mul_pos (Nat.mul_pos (hpos 0) (hpos 1)) (hpos 2)

theorem ncard_eq_current (hv : g.Valid) (hs : g.size = .ok size) (hid : id.toNat < volume g.counts)
    (hq : q ∈ g.members id) :
    ∃ x y z, g.currentWorkgroupSize q 0 = .ok x ∧ g.currentWorkgroupSize q 1 = .ok y ∧
      g.currentWorkgroupSize q 2 = .ok z ∧
      (g.members id).ncard = x.toNat * y.toNat * z.toNat := by
  obtain ⟨hin, hgroup⟩ := (hv.mem_members_iff hs).mp hq
  obtain ⟨x, hx, hxn⟩ := hv.currentWorkgroupSize_returns hin 0
  obtain ⟨y, hy, hyn⟩ := hv.currentWorkgroupSize_returns hin 1
  obtain ⟨z, hz, hzn⟩ := hv.currentWorkgroupSize_returns hin 2
  refine ⟨x, y, z, hx, hy, hz, ?_⟩
  rw [hv.ncard_members hs hid, hxn, hyn, hzn, hgroup]
  rfl

end Valid

/-- Workgroups tile a grid: every point has a place in just one of them, and a workgroup holds as
many points as its current extent tells. -/
theorem workgroups_tile (hg : make rank extent workgroup = .ok g) (hs : g.size = .ok size)
    (hw : g.workgroupSize = .ok full) :
    ∃ count, g.workgroupCount = .ok count ∧
    (∀ p, g.Contains p → ∀ d, ∃ group item groups current,
      g.workgroupId p d = .ok group ∧ g.workitemId p d = .ok item ∧
      g.groups d = .ok groups ∧ g.currentWorkgroupSize p d = .ok current ∧
      g.absoluteId p d = .ok (p.get d) ∧
      (p.get d).toNat = group.toNat * (g.workgroup.get d).toNat + item.toNat ∧
      group < groups ∧ item < current ∧ current ≤ g.workgroup.get d) ∧
    (∀ p, g.Contains p → ∃ id group item, g.absoluteFlatId p = .ok id ∧
      g.workgroupFlatId p = .ok group ∧ group < count ∧
      g.workitemFlatId p = .ok item ∧ item < full) ∧
    (∀ p q, g.Contains p → g.Contains q → g.workgroupFlatId p = g.workgroupFlatId q →
      g.workitemFlatId p = g.workitemFlatId q → p = q) ∧
    ∀ id < count, 0 < (g.members id).ncard ∧ ∀ q ∈ g.members id, ∃ x y z,
      g.currentWorkgroupSize q 0 = .ok x ∧ g.currentWorkgroupSize q 1 = .ok y ∧
      g.currentWorkgroupSize q 2 = .ok z ∧
      (g.members id).ncard = x.toNat * y.toNat * z.toNat := by
  have hv := valid_of_make hg
  obtain ⟨count, hcount, hvolume⟩ := hv.workgroupCount_returns hs
  refine ⟨count, hcount, ?_, ?_, ?_, ?_⟩
  · intro p hp d
    obtain ⟨group, hgroup, hgn⟩ := hv.workgroupId_returns p d
    obtain ⟨item, hitem, hin⟩ := hv.workitemId_returns p d
    obtain ⟨groups, hgroups, hcn⟩ := hv.groups_returns d
    obtain ⟨current, hcurrent, hen⟩ := hv.currentWorkgroupSize_returns hp d
    obtain ⟨id, hid, hidn⟩ := hv.absoluteId_returns p d
    rw [wrapped_of_contains hp] at hidn
    refine ⟨group, item, groups, current, hgroup, hitem, hgroups, hcurrent, ?_, ?_, ?_, ?_, ?_⟩
    · rw [hid, UInt64.toNat_inj.mp hidn]
    · rw [hgn, hin]
      exact (g.groupOf_mul_add_itemOf p.axes d).symm
    · rw [UInt64.lt_iff_toNat_lt, hgn, hcn]
      exact hv.inside_groupOf hp d
    · rw [UInt64.lt_iff_toNat_lt, hin, hen]
      exact hv.itemOf_lt_extentOf hp d
    · rw [UInt64.le_iff_toNat_le, hen]
      exact min_le_left _ _
  · intro p hp
    obtain ⟨id, hid, -⟩ := hv.absoluteFlatId_returns hs p
    obtain ⟨group, hgroup, hgn⟩ := hv.workgroupFlatId_returns hs hp
    obtain ⟨item, hitem, hin⟩ := hv.workitemFlatId_returns hw p
    refine ⟨id, group, item, hid, hgroup, ?_, hitem, ?_⟩
    · rw [UInt64.lt_iff_toNat_lt, hgn, hvolume]
      exact flatten_lt (hv.inside_groupOf hp)
    · rw [UInt64.lt_iff_toNat_lt, hin, ← Dim3.volume_of_size hw]
      exact flatten_lt (hv.inside_itemOf p.axes)
  · intro p q hp hq hgroup hitem
    exact hv.eq_of_flatIds hs hw hp hq hgroup hitem
  · intro id hlt
    rw [UInt64.lt_iff_toNat_lt, hvolume] at hlt
    exact ⟨hv.ncard_members_pos hs hlt, fun q hq => hv.ncard_eq_current hs hlt hq⟩

theorem workgroups_tile_corner :
    let extent : Dim3 := ⟨10, 7, 3⟩
    let g : Grid := ⟨3, extent, ⟨4, 3, 2⟩⟩
    make 3 extent ⟨4, 3, 2⟩ = .ok g ∧ g.size = .ok 210 ∧ g.workgroupSize = .ok 24 ∧
      g.workgroupCount = .ok 18 ∧ ⟨9, 6, 2⟩ ∈ g.members 17 ∧ (g.members 17).ncard = 2 := by
  intro extent g
  have hg : make 3 extent ⟨4, 3, 2⟩ = .ok g := by decide
  have hs : g.size = .ok 210 := by decide
  have hw : g.workgroupSize = .ok 24 := by decide
  have hcount : g.workgroupCount = .ok 18 := by decide
  have hmem : ⟨9, 6, 2⟩ ∈ g.members 17 := ⟨by decide, by decide⟩
  obtain ⟨count, hc, -, -, -, htile⟩ := workgroups_tile hg hs hw
  obtain rfl := Except.ok.inj (hcount.symm.trans hc)
  obtain ⟨x, y, z, hx, hy, hz, hcard⟩ := (htile 17 (by decide)).2 _ hmem
  have hx2 : g.currentWorkgroupSize ⟨9, 6, 2⟩ 0 = .ok 2 := by decide
  have hy1 : g.currentWorkgroupSize ⟨9, 6, 2⟩ 1 = .ok 1 := by decide
  have hz1 : g.currentWorkgroupSize ⟨9, 6, 2⟩ 2 = .ok 1 := by decide
  obtain rfl := Except.ok.inj (hx2.symm.trans hx)
  obtain rfl := Except.ok.inj (hy1.symm.trans hy)
  obtain rfl := Except.ok.inj (hz1.symm.trans hz)
  exact ⟨hg, hs, hw, hcount, hmem, hcard⟩

end Grid

end Conformance
