import Mathlib
import Conformance.Proofs.Geometry.Grid
import Conformance.Proofs.Image.Accesses

namespace Conformance

namespace ImageSize

variable {s : ImageSize}

theorem count_returns (hpos : ∀ a, 0 < (s.along a).toNat)
    (hlt : s.width.toNat * s.height.toNat * s.depth.toNat * s.layers.toNat < UInt64.size) :
    Returns s.count
      (·.toNat = s.width.toNat * s.height.toNat * s.depth.toNat * s.layers.toNat) := by
  have hdepth : 0 < s.depth.toNat := hpos .depth
  have hlayers : 0 < s.layers.toNat := hpos .layer
  have hvolume := (Nat.le_mul_of_pos_right _ hlayers).trans_lt hlt
  have hplane := (Nat.le_mul_of_pos_right _ hdepth).trans_lt hvolume
  simp only [← UInt32.toNat_toUInt64] at hlt hvolume hplane ⊢
  refine (Count.times_returns hplane).bind fun plane hp => ?_
  rw [← hp] at hvolume hlt ⊢
  refine (Count.times_returns hvolume).bind fun volume hv => ?_
  rw [← hv] at hlt ⊢
  exact Count.times_returns hlt

end ImageSize

namespace ImageShape

variable {kind : ImageKind} {size : ImageSize} {shape : ImageShape} {a : ImageAxis}

def texels (s : ImageShape) : Nat :=
  (s.extentAt 0).toNat * (s.extentAt 1).toNat * (s.extentAt 2).toNat

theorem size_eq (h : make kind size = .ok shape) : shape.size = size := by
  rw [make] at h
  split_ifs at h
  rw [← Except.ok.inj h]

theorem along_of_unused (h : make kind size = .ok shape) (ha : a ≠ .width) (hk : a ∉ kind.axes) :
    size.along a = 1 := by
  rw [make] at h
  split_ifs at h with hz hall
  have hmem : a ∈ [ImageAxis.height, .depth, .layer] := by
    cases a <;> simp_all
  have hused := of_decide_eq_true (List.all_eq_true.mp hall a hmem)
  exact hused.resolve_left hk

/-- Kinds differ in what their coordinates count, but all of them reach every texel. -/
theorem texels_eq (h : make kind size = .ok shape) :
    shape.texels =
      size.width.toNat * size.height.toNat * size.depth.toNat * size.layers.toNat := by
  have hheight (hk : ImageAxis.height ∉ kind.axes) : size.height = 1 :=
    along_of_unused h (by decide) hk
  have hdepth (hk : ImageAxis.depth ∉ kind.axes) : size.depth = 1 :=
    along_of_unused h (by decide) hk
  have hlayers (hk : ImageAxis.layer ∉ kind.axes) : size.layers = 1 :=
    along_of_unused h (by decide) hk
  simp only [texels, extentAt, kind_eq h, size_eq h]
  cases kind <;> simp_all [ImageKind.axes, ImageSize.along]

end ImageShape

namespace Raster

variable {im : Raster} {shape : ImageShape} {order : ChannelOrder} {type : ChannelType}
  {p : Position} {start count i : Nat}

theorem length_bytes (im : Raster) : im.bytes.length = im.length := length_bytesFrom 0 im.length

theorem getElem?_bytes (hi : i < im.length) : im.bytes[i]? = some (im.byte i) := by
  rw [bytes, getElem?_bytesFrom hi, Nat.zero_add]

theorem bytesFrom_eq_slice (h : start + count ≤ im.length) :
    im.bytesFrom start count = (im.bytes.drop start).take count := by
  apply bytesFrom_eq
  · rw [List.length_take, List.length_drop, length_bytes]
    omega
  · intro k hk
    rw [List.getElem?_take_of_lt hk, List.getElem?_drop, getElem?_bytes (by omega)]

theorem bytes_overwrite {patch : List UInt8} (h : start + patch.length ≤ im.length) :
    (im.overwrite start patch.toArray).bytes =
      im.bytes.take start ++ patch ++ im.bytes.drop (start + patch.length) := by
  have hbefore : (im.bytes.take start).length = start := by
    rw [List.length_take, length_bytes]
    omega
  apply bytesFrom_eq
  · simp only [List.length_append, List.length_drop, hbefore, length_bytes]
    change _ = im.length
    omega
  · intro k hk
    have hk : k < im.length := hk
    rw [Nat.zero_add, byte_overwrite, List.append_assoc]
    split_ifs with hlt
    · rw [List.getElem?_append_left (by omega), List.getElem?_take_of_lt hlt, getElem?_bytes hk]
    · rw [List.getElem?_append_right (by omega), hbefore]
      by_cases hin : k - start < patch.length
      · rw [List.getElem?_append_left hin, List.getElem?_eq_getElem hin, Option.getD_some]
      · have hk' : start + patch.length + (k - start - patch.length) = k := by omega
        have hout : patch[k - start]? = none := List.getElem?_eq_none (by omega)
        rw [List.getElem?_append_right (by omega), List.getElem?_drop, hk', hout, Option.getD_none,
          getElem?_bytes hk]

/-- No bytes stand between rows or slices. -/
structure IsTight (im : Raster) : Prop where
  row : im.rowPitch = im.texelSize * im.width
  slice : im.slicePitch = im.rowPitch * im.height

theorem isTight_of_tight (h : tight shape order type = .ok im) : im.IsTight := by
  obtain ⟨slice, hslice, h⟩ := exists_of_bind h
  obtain rfl := eq_of_extend hslice
  simp only [withPitch] at h
  split_ifs at h
  obtain ⟨needed, -, h⟩ := exists_of_bind h
  split_ifs at h
  obtain ⟨length, -, h⟩ := exists_of_bind h
  obtain ⟨reserved, -, h⟩ := exists_of_bind h
  obtain rfl := Except.ok.inj h
  exact ⟨rfl, rfl⟩

namespace IsTight

theorem start_eq (h : im.IsTight) (p : Position) :
    im.start p =
      im.texelSize * (p.x.toNat + im.width * (p.y.toNat + im.height * p.z.toNat)) := by
  rw [start, h.slice, h.row]
  ring

theorem length_eq (h : im.IsTight) : im.length = im.texelSize * im.shape.texels := by
  rw [length, h.slice, h.row, ImageShape.texels, width, height]
  ring

/-- Every byte belongs to a texel. -/
theorem exists_covers (h : im.IsTight) (hf : im.Fits) (hi : i < im.length) :
    ∃ p, im.Covers p i := by
  have hslice : 0 < im.slicePitch := Nat.pos_of_mul_pos_right (Nat.zero_lt_of_lt hi)
  have hrow : 0 < im.rowPitch := by
    rw [h.slice] at hslice
    exact Nat.pos_of_mul_pos_right hslice
  have hy : i % im.slicePitch / im.rowPitch < im.height :=
    Nat.div_lt_of_lt_mul ((Nat.mod_lt i hslice).trans_eq h.slice)
  have hx : i % im.slicePitch % im.rowPitch < im.texelSize * im.width :=
    (Nat.mod_lt _ hrow).trans_eq h.row
  obtain ⟨p, hp, -⟩ := hf.covers_of_place? hi (if_pos ⟨hy, hx⟩)
  exact ⟨p, hp⟩

end IsTight

theorem extend_eq_ok {a b : Nat} (h : a * b < UInt64.size) : extend a b = .ok (a * b) := if_pos h

theorem half_lt_size : UInt64.size / 2 < UInt64.size := by decide

theorem tight_returns_iff (hpos : 0 < (shape.extentAt 2).toNat) :
    (∃ im, tight shape order type = .ok im) ↔
      Conformance.texelSize order type * shape.texels < UInt64.size / 2 := by
  constructor
  · rintro ⟨im, h⟩
    have hnew := isNew_tight h
    have hmemory := hnew.fits.memory
    rwa [(isTight_of_tight h).length_eq, hnew.texelSize_eq, hnew.shape_eq] at hmemory
  · intro h
    rw [ImageShape.texels, ← Nat.mul_assoc, ← Nat.mul_assoc] at h
    have hslice := (Nat.le_mul_of_pos_right _ hpos).trans_lt (h.trans half_lt_size)
    have htotal := extend_eq_ok (h.trans half_lt_size)
    rw [tight, extend_eq_ok hslice]
    simp only [bind, Except.bind, withPitch, extend_eq_ok hslice, htotal, lt_irrefl, if_false,
      reserve, if_pos h]
    exact ⟨_, rfl⟩

theorem IsTight.bytes_returns {kind : ImageKind} {size : ImageSize} (h : im.IsTight) (hf : im.Fits)
    (hs : ImageShape.make kind size = .ok im.shape) :
    Returns size.count fun count => im.bytes.length = im.texelSize * count.toNat := by
  have hlength := h.length_eq
  have hle : im.shape.texels ≤ im.length := by
    rw [hlength]
    exact Nat.le_mul_of_pos_left _ hf.texel
  rw [ImageShape.texels_eq hs] at hle hlength
  obtain ⟨count, hcount, hn⟩ := ImageSize.count_returns
    (ImageShape.size_eq hs ▸ ImageShape.along_pos hs)
    ((hle.trans_lt hf.memory).trans half_lt_size)
  refine ⟨count, hcount, ?_⟩
  rw [← hn] at hlength
  exact (length_bytes im).trans hlength

theorem texelBytes_eq_slice (hf : im.Fits) (hp : im.contains p) :
    im.texelBytes p = .ok ((im.bytes.drop (im.start p)).take im.texelSize) := by
  rw [texelBytes_eq, if_pos hp, bytesFrom_eq_slice (hf.texel_end hp)]

theorem store_returns {v : Value} (hf : im.Fits) (hp : im.contains p) (hv : im.texelSize ≤ v.size) :
    Returns (im.store p v) fun next =>
      next.bytes = im.bytes.take (im.start p) ++ v.toBytes.take im.texelSize ++
        im.bytes.drop (im.start p + im.texelSize) := by
  have hlow := length_lowBytes im v
  have hend : im.start p + (im.lowBytes v).length ≤ im.length := hlow.symm ▸ hf.texel_end hp
  rw [store_eq, if_neg (Nat.not_lt.mpr hv), if_pos hp, take_toBytes hv]
  refine .ok ?_
  rw [bytes_overwrite hend, hlow]

/-- Without gaps the texels fill the memory of an image, whatever its kind. It is made if half of
the address space holds all texels and has as many bytes as they need. Whatever the bytes, a texel
is read from and stored to those that its coordinates tell, and none is left over or shared. -/
theorem tight_layout {kind : ImageKind} {size : ImageSize} {e0 e1 e2 : UInt32}
    (hs : ImageShape.make kind size = .ok shape) (he : shape.extents = [e0, e1, e2])
    (order : ChannelOrder) (type : ChannelType) :
    let texel := Conformance.texelSize order type
    let first (p : Position) := texel * (p.x.toNat + e0.toNat * (p.y.toNat + e1.toNat * p.z.toNat))
    ((∃ im, tight shape order type = .ok im) ↔
      texel * (e0.toNat * e1.toNat * e2.toNat) < UInt64.size / 2) ∧
    ∀ im, tight shape order type = .ok im →
      (∃ count, size.count = .ok count ∧ im.bytes.length = texel * count.toNat) ∧
      (∀ p : Position, p.x < e0 ∧ p.y < e1 ∧ p.z < e2 → ∀ byte : Nat → UInt8,
        let now : Raster := { im with byte }
        now.texelBytes p = .ok ((now.bytes.drop (first p)).take texel) ∧
        ∀ v, texel ≤ v.size → ∃ next, now.store p v = .ok next ∧
          next.bytes = now.bytes.take (first p) ++ v.toBytes.take texel ++
            now.bytes.drop (first p + texel)) ∧
      ∀ i < im.bytes.length, ∃! p : Position, (p.x < e0 ∧ p.y < e1 ∧ p.z < e2) ∧
        first p ≤ i ∧ i < first p + texel := by
  intro texel first
  obtain ⟨rfl, rfl, rfl⟩ : shape.extentAt 0 = e0 ∧ shape.extentAt 1 = e1 ∧
      shape.extentAt 2 = e2 := by
    simpa [ImageShape.extents] using he
  refine ⟨tight_returns_iff (ImageShape.extentAt_pos hs 2), fun im hi => ?_⟩
  have hnew := isNew_tight hi
  have htight := isTight_of_tight hi
  obtain rfl := hnew.shape_eq
  have hfits := hnew.fits
  have htexel : im.texelSize = texel := hnew.texelSize_eq
  have hfirst (p : Position) : im.start p = first p := by
    rw [htight.start_eq, htexel]
    rfl
  have hin (p : Position) : im.contains p ↔
      p.x < im.shape.extentAt 0 ∧ p.y < im.shape.extentAt 1 ∧ p.z < im.shape.extentAt 2 :=
    decide_eq_true_iff
  refine ⟨?_, ?_, ?_⟩
  · rw [← htexel]
    exact htight.bytes_returns hfits hs
  · intro p hp byte now
    have hnow : now.Fits := hfits.of_layout byte
    have hp : now.contains p := (hin p).mpr hp
    rw [← hfirst, ← htexel]
    exact ⟨texelBytes_eq_slice hnow hp, fun v => store_returns hnow hp⟩
  · intro i hib
    rw [length_bytes] at hib
    obtain ⟨p, hp⟩ := htight.exists_covers hfits hib
    have hcovers (q : Position) : im.Covers q i ↔ ((q.x < im.shape.extentAt 0 ∧
        q.y < im.shape.extentAt 1 ∧ q.z < im.shape.extentAt 2) ∧
        first q ≤ i ∧ i < first q + texel) := by
      rw [Covers, hin, hfirst, htexel]
    exact ⟨p, (hcovers p).mp hp, fun q hq => hfits.covers_unique ((hcovers q).mpr hq) hp⟩

theorem tight_layout_layers :
    let shape : ImageShape := ⟨.planeArray, ⟨3, 2, 1, 2⟩⟩
    let im : Raster := ⟨shape, 2, 6, 12, fun _ => 0⟩
    ImageShape.make .planeArray ⟨3, 2, 1, 2⟩ = .ok shape ∧ shape.extents = [3, 2, 2] ∧
      tight shape .rg .unormInt8 = .ok im ∧ im.bytes.length = 24 ∧
      ∃! p : Position, (p.x < 3 ∧ p.y < 2 ∧ p.z < 2) ∧
        2 * (p.x.toNat + 3 * (p.y.toNat + 2 * p.z.toNat)) ≤ 17 ∧
        17 < 2 * (p.x.toNat + 3 * (p.y.toNat + 2 * p.z.toNat)) + 2 := by
  intro shape im
  have hs : ImageShape.make .planeArray ⟨3, 2, 1, 2⟩ = .ok shape := rfl
  have he : shape.extents = [3, 2, 2] := rfl
  have hi : tight shape .rg .unormInt8 = .ok im := rfl
  have htwelve : ImageSize.count ⟨3, 2, 1, 2⟩ = .ok 12 := by decide
  obtain ⟨-, hall⟩ := tight_layout hs he .rg .unormInt8
  obtain ⟨⟨count, hcount, hlength⟩, -, hunique⟩ := hall im hi
  obtain rfl := Except.ok.inj (htwelve.symm.trans hcount)
  exact ⟨hs, he, hi, hlength, hunique 17 (hlength ▸ by decide)⟩

end Raster

end Conformance
