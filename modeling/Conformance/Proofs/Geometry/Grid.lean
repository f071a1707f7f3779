import Mathlib
import Conformance.Geometry.Grid
import Conformance.Proofs.Returns
import Conformance.Proofs.Geometry.Box

namespace Conformance

namespace Count

variable {a b c : UInt64}

theorem times_returns (h : a.toNat * b.toNat < UInt64.size) :
    Returns (times a b) (·.toNat = a.toNat * b.toNat) := by
  rw [times, if_pos h]
  exact .ok (by rw [UInt64.toNat_mul, Nat.mod_eq_of_lt h])

theorem plus_returns (h : a.toNat + b.toNat < UInt64.size) :
    Returns (plus a b) (·.toNat = a.toNat + b.toNat) := by
  rw [plus, if_pos h]
  exact .ok (by rw [UInt64.toNat_add, Nat.mod_eq_of_lt h])

theorem ne_zero_of_pos (h : 0 < b.toNat) : b ≠ 0 := by
  rintro rfl
  exact absurd h (by decide)

theorem quotient_returns (h : 0 < b.toNat) :
    Returns (quotient a b) (·.toNat = a.toNat / b.toNat) := by
  rw [quotient, if_neg (ne_zero_of_pos h)]
  exact .ok (UInt64.toNat_div a b)

theorem remainder_returns (h : 0 < b.toNat) :
    Returns (remainder a b) (·.toNat = a.toNat % b.toNat) := by
  rw [remainder, if_neg (ne_zero_of_pos h)]
  exact .ok (UInt64.toNat_mod a b)

theorem toNat_of_times (h : times a b = .ok c) : c.toNat = a.toNat * b.toNat := by
  rw [times] at h
  split_ifs at h with hlt
  obtain rfl := Except.ok.inj h
  rw [UInt64.toNat_mul, Nat.mod_eq_of_lt hlt]

theorem flatten_returns {x y z w h : UInt64} (h0 : 0 < h.toNat)
    (hlt : x.toNat + y.toNat * w.toNat + z.toNat * w.toNat * h.toNat < UInt64.size) :
    Returns (do let xy ← plus x (← times y w); let zw ← times (← times z w) h; plus xy zw)
      (·.toNat = x.toNat + y.toNat * w.toNat + z.toNat * w.toNat * h.toNat) := by
  have hzw : z.toNat * w.toNat ≤ z.toNat * w.toNat * h.toNat := Nat.le_mul_of_pos_right _ h0
  refine (times_returns (by omega)).bind fun yw hyw => ?_
  refine (plus_returns (by omega)).bind fun xy hxy => ?_
  refine (times_returns (by omega)).bind fun zw hzw => ?_
  rw [← hzw] at hlt ⊢
  refine (times_returns (by omega)).bind fun zwh hzwh => ?_
  rw [← hyw, ← hxy, ← hzwh]
  exact plus_returns (by omega)

end Count

namespace Dim3

variable {p q : Dim3}

def axes (p : Dim3) : Axes := fun d => (p.get d).toNat

theorem axes_lt (p : Dim3) (d : Fin 3) : p.axes d < UInt64.size := (p.get d).toNat_lt

theorem ext_axes (h : p.axes = q.axes) : p = q := by
  have hd (d : Fin 3) : p.get d = q.get d := UInt64.toNat_inj.mp (congrFun h d)
  cases p
  cases q
  congr
  · exact hd 0
  · exact hd 1
  · exact hd 2

theorem exists_axes {a : Axes} (h : ∀ d, a d < UInt64.size) : ∃ p : Dim3, p.axes = a := by
  refine ⟨⟨.ofNat (a 0), .ofNat (a 1), .ofNat (a 2)⟩, ?_⟩
  funext d
  fin_cases d
  · exact UInt64.toNat_ofNat_of_lt' (h 0)
  · exact UInt64.toNat_ofNat_of_lt' (h 1)
  · exact UInt64.toNat_ofNat_of_lt' (h 2)

theorem volume_of_size {n : UInt64} (h : p.size = .ok n) : Axes.volume p.axes = n.toNat := by
  obtain ⟨xy, hxy, h⟩ := exists_of_bind h
  rw [Count.toNat_of_times h, Count.toNat_of_times hxy]
  rfl

end Dim3

namespace Grid

open Axes

/-- What grids that are made have in common. -/
structure Valid (g : Grid) : Prop where
  extent_pos : ∀ d, 0 < g.extent.axes d
  workgroup_pos : ∀ d, 0 < g.workgroup.axes d
  unused : ∀ d : Fin 3, g.rank.toNat ≤ d → g.extent.axes d = 1 ∧ g.workgroup.axes d = 1

def Contains (g : Grid) (p : Dim3) : Prop := ∀ d, p.get d < g.extent.get d

instance (g : Grid) (p : Dim3) : Decidable (g.Contains p) :=
  inferInstanceAs (Decidable (∀ d, p.get d < g.extent.get d))

variable {g : Grid} {rank : UInt32} {extent workgroup p : Dim3} {size id : UInt64} {d : Fin 3}
  {ps : List Dim3}

theorem contains_iff : g.Contains p ↔ Inside p.axes g.extent.axes := by
  simp only [Contains, Inside, Dim3.axes, UInt64.lt_iff_toNat_lt]

theorem toNat_pos_of_ne_zero {n : UInt64} (h : n ≠ 0) : 0 < n.toNat :=
  Nat.pos_of_ne_zero fun h0 => h (UInt64.toNat_inj.mp h0)

theorem of_checkAxis {u : Unit} (h : checkAxis rank extent workgroup d = .ok u) :
    0 < extent.axes d ∧ 0 < workgroup.axes d ∧
      (rank.toNat ≤ d → extent.axes d = 1 ∧ workgroup.axes d = 1) := by
  rw [checkAxis] at h
  split_ifs at h with hz hu
  rw [not_or] at hz
  rw [not_and_not_right] at hu
  refine ⟨toNat_pos_of_ne_zero hz.1, toNat_pos_of_ne_zero hz.2, fun hr => ?_⟩
  obtain ⟨he, hw⟩ := hu hr
  rw [Dim3.axes, Dim3.axes, he, hw]
  exact ⟨rfl, rfl⟩

theorem valid_of_make (h : make rank extent workgroup = .ok g) : g.Valid := by
  rw [make] at h
  split_ifs at h
  obtain ⟨u0, h0, h⟩ := exists_of_bind h
  obtain ⟨u1, h1, h⟩ := exists_of_bind h
  obtain ⟨u2, h2, h⟩ := exists_of_bind h
  obtain rfl := Except.ok.inj h
  have hall : ∀ d, 0 < extent.axes d ∧ 0 < workgroup.axes d ∧
      (rank.toNat ≤ (d : Fin 3) → extent.axes d = 1 ∧ workgroup.axes d = 1) := by
    intro d
    fin_cases d
    · exact of_checkAxis h0
    · exact of_checkAxis h1
    · exact of_checkAxis h2
  exact ⟨fun d => (hall d).1, fun d => (hall d).2.1, fun d => (hall d).2.2⟩

/-- The place of a point in the grid, wrapped around outside of it. -/
def wrapped (g : Grid) (p : Dim3) : Axes := fun d => p.axes d % g.extent.axes d

theorem eq_of_axes_wrapped {q : Dim3} (h : q.axes = g.wrapped p) :
    q = ⟨p.x % g.extent.x, p.y % g.extent.y, p.z % g.extent.z⟩ := by
  apply Dim3.ext_axes
  rw [h]
  funext d
  fin_cases d
  · exact (UInt64.toNat_mod p.x g.extent.x).symm
  · exact (UInt64.toNat_mod p.y g.extent.y).symm
  · exact (UInt64.toNat_mod p.z g.extent.z).symm

theorem wrapped_of_contains (h : g.Contains p) : g.wrapped p = p.axes := by
  funext d
  exact Nat.mod_eq_of_lt (contains_iff.mp h d)

namespace Valid

theorem inside_wrapped (hv : g.Valid) (p : Dim3) : Inside (g.wrapped p) g.extent.axes :=
  fun d => Nat.mod_lt _ (hv.extent_pos d)

theorem absoluteId_returns (hv : g.Valid) (p : Dim3) (d : Fin 3) :
    Returns (g.absoluteId p d) (·.toNat = g.wrapped p d) :=
  Count.remainder_returns (hv.extent_pos d)

theorem absoluteFlatId_returns (hv : g.Valid) (hs : g.size = .ok size) (p : Dim3) :
    Returns (g.absoluteFlatId p) (·.toNat = flatten g.extent.axes (g.wrapped p)) := by
  obtain ⟨x, hx, hxn⟩ := hv.absoluteId_returns p 0
  obtain ⟨y, hy, hyn⟩ := hv.absoluteId_returns p 1
  obtain ⟨z, hz, hzn⟩ := hv.absoluteId_returns p 2
  have hlt := (flatten_lt (hv.inside_wrapped p)).trans_eq (Dim3.volume_of_size hs)
  rw [absoluteFlatId, hx, hy, hz]
  rw [flatten, ← hxn, ← hyn, ← hzn] at hlt ⊢
  exact Count.flatten_returns (hv.extent_pos 1) (hlt.trans size.toNat_lt)

theorem point_returns (hv : g.Valid) (hs : g.size = .ok size) (id : UInt64) :
    Returns (g.point id) (·.axes = unflatten g.extent.axes id.toNat) := by
  have hplane : g.extent.x.toNat * g.extent.y.toNat < UInt64.size := by
    have hle : g.extent.x.toNat * g.extent.y.toNat ≤ volume g.extent.axes :=
      Nat.le_mul_of_pos_right _ (hv.extent_pos 2)
    exact (hle.trans_eq (Dim3.volume_of_size hs)).trans_lt size.toNat_lt
  have hpos : 0 < g.extent.x.toNat * g.extent.y.toNat :=
    Nat.mul_pos (hv.extent_pos 0) (hv.extent_pos 1)
  refine (Count.times_returns hplane).bind fun plane hp => ?_
  rw [← hp] at hpos
  refine (Count.quotient_returns hpos).bind fun z hz => ?_
  refine (Count.remainder_returns hpos).bind fun rest hrest => ?_
  refine (Count.remainder_returns (hv.extent_pos 0)).bind fun x hx => ?_
  refine (Count.quotient_returns (hv.extent_pos 0)).bind fun y hy => ?_
  refine .ok ?_
  rw [hrest, hp] at hx hy
  rw [hp] at hz
  funext d
  fin_cases d
  · exact hx
  · exact hy
  · exact hz

theorem point_of_absoluteFlatId (hv : g.Valid) (hs : g.size = .ok size)
    (h : g.absoluteFlatId p = .ok id) :
    id < size ∧ Returns (g.point id) (·.axes = g.wrapped p) := by
  obtain ⟨id', hid, hflat⟩ := hv.absoluteFlatId_returns hs p
  obtain rfl : id' = id := Except.ok.inj (hid.symm.trans h)
  have hin := hv.inside_wrapped p
  constructor
  · rw [UInt64.lt_iff_toNat_lt, hflat, ← Dim3.volume_of_size hs]
    exact flatten_lt hin
  · have hpoint := hv.point_returns hs id'
    rwa [hflat, unflatten_flatten hin] at hpoint

theorem absoluteFlatId_of_point (hv : g.Valid) (hs : g.size = .ok size) (hid : id < size)
    (h : g.point id = .ok p) : g.Contains p ∧ g.absoluteFlatId p = .ok id := by
  obtain ⟨p', hp, haxes⟩ := hv.point_returns hs id
  obtain rfl : p' = p := Except.ok.inj (hp.symm.trans h)
  have hlt : id.toNat < volume g.extent.axes := by
    rw [Dim3.volume_of_size hs]
    exact UInt64.lt_iff_toNat_lt.mp hid
  have hin : g.Contains p' := by
    rw [contains_iff, haxes]
    exact inside_unflatten hlt
  obtain ⟨id', hid', hflat⟩ := hv.absoluteFlatId_returns hs p'
  rw [wrapped_of_contains hin, haxes, flatten_unflatten] at hflat
  exact ⟨hin, by rw [hid', UInt64.toNat_inj.mp hflat]⟩

theorem points_returns (hv : g.Valid) (hs : g.size = .ok size) :
    ∃ place : Nat → Dim3, g.points = .ok ((List.range size.toNat).map place) ∧
      ∀ n < size.toNat, ∃ id < size, id.toNat = n ∧ g.point id = .ok (place n) ∧
        (place n).axes = unflatten g.extent.axes n := by
  choose place hplace haxes using hv.point_returns hs
  refine ⟨fun n => place (.ofNat n), ?_, fun n hn => ?_⟩
  · rw [points, hs]
    change g.pointsFrom 0 size.toNat = _
    rw [pointsFrom, hs]
    change (List.range' 0 (min size.toNat (size.toNat - 0))).mapM _ = _
    rw [Nat.sub_zero, Nat.min_self, ← List.range_eq_range']
    exact mapM_eq_ok fun n _ => hplace _
  · have hid : (UInt64.ofNat n).toNat = n := UInt64.toNat_ofNat_of_lt' (hn.trans size.toNat_lt)
    refine ⟨.ofNat n, ?_, hid, hplace _, ?_⟩
    · rw [UInt64.lt_iff_toNat_lt, hid]
      exact hn
    · rw [haxes, hid]

theorem points_before (hv : g.Valid) (hs : g.size = .ok size) (hps : g.points = .ok ps) :
    ps.Pairwise fun p q => Before p.axes q.axes := by
  obtain ⟨place, hpoints, hplace⟩ := hv.points_returns hs
  obtain rfl := Except.ok.inj (hps.symm.trans hpoints)
  rw [List.pairwise_map]
  refine List.pairwise_lt_range.imp_of_mem fun {m n} hm hn hlt => ?_
  obtain ⟨-, -, -, -, hma⟩ := hplace m (List.mem_range.mp hm)
  obtain ⟨-, -, -, -, hna⟩ := hplace n (List.mem_range.mp hn)
  rw [hma, hna]
  exact unflatten_before hlt

theorem mem_points (hv : g.Valid) (hs : g.size = .ok size) (hps : g.points = .ok ps) :
    p ∈ ps ↔ g.Contains p := by
  obtain ⟨place, hpoints, hplace⟩ := hv.points_returns hs
  obtain rfl := Except.ok.inj (hps.symm.trans hpoints)
  rw [List.mem_map]
  constructor
  · rintro ⟨n, hn, rfl⟩
    obtain ⟨id, hlt, -, hp, -⟩ := hplace n (List.mem_range.mp hn)
    exact (hv.absoluteFlatId_of_point hs hlt hp).1
  · intro hp
    obtain ⟨id, hid, -⟩ := hv.absoluteFlatId_returns hs p
    obtain ⟨hlt, q, hq, hqa⟩ := hv.point_of_absoluteFlatId hs hid
    rw [wrapped_of_contains hp] at hqa
    have hn : id.toNat < size.toNat := UInt64.lt_iff_toNat_lt.mp hlt
    obtain ⟨id', -, hid', hp', -⟩ := hplace id.toNat hn
    obtain rfl : id' = id := UInt64.toNat_inj.mp hid'
    refine ⟨id'.toNat, List.mem_range.mpr hn, ?_⟩
    rw [← Except.ok.inj (hq.symm.trans hp'), Dim3.ext_axes hqa]

theorem points_numbered (hv : g.Valid) (hs : g.size = .ok size) (hps : g.points = .ok ps) :
    ps.length = size.toNat ∧
      ∀ i (h : i < ps.length), ∃ id, g.absoluteFlatId ps[i] = .ok id ∧ id.toNat = i := by
  obtain ⟨place, hpoints, hplace⟩ := hv.points_returns hs
  obtain rfl := Except.ok.inj (hps.symm.trans hpoints)
  refine ⟨by simp, fun i hi => ?_⟩
  obtain ⟨id, hlt, hid, hp, -⟩ := hplace i (by simpa using hi)
  rw [List.getElem_map, List.getElem_range]
  exact ⟨id, (hv.absoluteFlatId_of_point hs hlt hp).2, hid⟩

end Valid

/-- Points of a grid and numbers below its size determine each other. Any point has the number of
the point that it wraps around to, and the points in the order of their numbers let x vary
fastest. -/
theorem flat_numbers_enumerate (hg : make rank extent workgroup = .ok g) (hs : g.size = .ok size) :
    (∀ id < size, ∃ p, g.point id = .ok p ∧ g.Contains p ∧ g.absoluteFlatId p = .ok id) ∧
    (∀ p, ∃ id, g.absoluteFlatId p = .ok id ∧ id < size ∧
      g.point id = .ok ⟨p.x % g.extent.x, p.y % g.extent.y, p.z % g.extent.z⟩ ∧
      (g.Contains p → g.point id = .ok p)) ∧
    ∃ ps, g.points = .ok ps ∧ ps.Nodup ∧ (∀ p, p ∈ ps ↔ g.Contains p) ∧
      ps.Pairwise (fun p q => Before p.axes q.axes) ∧ ps.length = size.toNat ∧
      ∀ i (h : i < ps.length), ∃ id, g.absoluteFlatId ps[i] = .ok id ∧ id.toNat = i := by
  have hv := valid_of_make hg
  refine ⟨?_, ?_, ?_⟩
  · intro id hid
    obtain ⟨p, hp, -⟩ := hv.point_returns hs id
    exact ⟨p, hp, hv.absoluteFlatId_of_point hs hid hp⟩
  · intro p
    obtain ⟨id, hid, -⟩ := hv.absoluteFlatId_returns hs p
    obtain ⟨hlt, q, hq, haxes⟩ := hv.point_of_absoluteFlatId hs hid
    refine ⟨id, hid, hlt, by rw [hq, eq_of_axes_wrapped haxes], fun hp => ?_⟩
    rw [wrapped_of_contains hp] at haxes
    rw [hq, Dim3.ext_axes haxes]
  · obtain ⟨place, hps, -⟩ := hv.points_returns hs
    have hbefore := hv.points_before hs hps
    refine ⟨_, hps, hbefore.imp ?_, fun p => hv.mem_points hs hps, hbefore,
      hv.points_numbered hs hps⟩
    rintro p q h rfl
    exact before_irrefl p.axes h

theorem flat_numbers_enumerate_largest :
    let extent : Dim3 := ⟨0xffffffff, 0x80000000, 2⟩
    let g : Grid := ⟨3, extent, ⟨256, 1, 1⟩⟩
    make 3 extent ⟨256, 1, 1⟩ = .ok g ∧ g.size = .ok 0xffffffff00000000 ∧
      ∃ p, g.point 0xfffffffeffffffff = .ok p ∧ g.absoluteFlatId p = .ok 0xfffffffeffffffff := by
  intro extent g
  have hg : make 3 extent ⟨256, 1, 1⟩ = .ok g := by decide
  have hs : g.size = .ok 0xffffffff00000000 := by decide
  obtain ⟨p, hp, -, hid⟩ := (flat_numbers_enumerate hg hs).1 0xfffffffeffffffff (by decide)
  exact ⟨hg, hs, p, hp, hid⟩

end Grid

end Conformance
