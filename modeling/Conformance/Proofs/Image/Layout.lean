import Mathlib
import Conformance.Image.Raster
import Conformance.Proofs.Returns
import Conformance.Proofs.Geometry.Box
import Conformance.Proofs.Image.TexelRoundTrip

namespace Conformance

namespace ImageShape

variable {kind : ImageKind} {size : ImageSize} {shape : ImageShape}

theorem kind_eq (h : make kind size = .ok shape) : shape.kind = kind := by
  rw [make] at h
  split_ifs at h
  rw [← Except.ok.inj h]

theorem along_pos (h : make kind size = .ok shape) (a : ImageAxis) :
    0 < (shape.size.along a).toNat := by
  rw [make] at h
  split_ifs at h with hz
  obtain rfl := Except.ok.inj h
  have hne : size.along a ≠ 0 := by
    cases a <;> simp_all [ImageSize.along]
  exact Nat.pos_of_ne_zero fun h0 => hne (UInt32.toNat_inj.mp h0)

theorem extentAt_pos (h : make kind size = .ok shape) (n : Nat) : 0 < (shape.extentAt n).toNat := by
  rw [extentAt]
  split
  · exact along_pos h _
  · decide

end ImageShape

namespace Raster

variable (im : Raster)

def width : Nat := (im.shape.extentAt 0).toNat

def height : Nat := (im.shape.extentAt 1).toNat

def depth : Nat := (im.shape.extentAt 2).toNat

/-- Rows fit in the row pitch, slices in the slice pitch and all of them in memory. -/
structure Fits : Prop where
  texel : 0 < im.texelSize
  row : im.texelSize * im.width ≤ im.rowPitch
  slice : im.rowPitch * im.height ≤ im.slicePitch
  memory : im.length < UInt64.size / 2

/-- Place `i` holds a byte of the texel at `p`. -/
def Covers (p : Position) (i : Nat) : Prop :=
  im.contains p ∧ im.start p ≤ i ∧ i < im.start p + im.texelSize

theorem contains_iff (p : Position) :
    im.contains p ↔ p.x.toNat < im.width ∧ p.y.toNat < im.height ∧ p.z.toNat < im.depth := by
  simp [contains, width, height, depth, UInt32.lt_iff_toNat_lt]

variable {im}

theorem toNat_ofNat_of_lt {n : Nat} {bound : UInt32} (h : n < bound.toNat) :
    (UInt32.ofNat n).toNat = n :=
  UInt32.toNat_ofNat_of_lt' (h.trans bound.toNat_lt)

namespace Fits

variable {p q : Position} {i k : Nat}

theorem of_layout (h : im.Fits) (byte : Nat → UInt8) : Fits { im with byte } :=
  ⟨h.texel, h.row, h.slice, h.memory⟩

theorem row_end (h : im.Fits) (hp : im.contains p) :
    p.x.toNat * im.texelSize + im.texelSize ≤ im.rowPitch :=
  step_le ((im.contains_iff p).mp hp).1 h.row

theorem slice_end (h : im.Fits) (hp : im.contains p) :
    p.y.toNat * im.rowPitch + im.rowPitch ≤ im.slicePitch :=
  step_le ((im.contains_iff p).mp hp).2.1 h.slice

theorem texel_end (h : im.Fits) (hp : im.contains p) : im.start p + im.texelSize ≤ im.length := by
  have hrow := h.row_end hp
  have hslice := h.slice_end hp
  have hlast : p.z.toNat * im.slicePitch + im.slicePitch ≤ im.length :=
    step_le ((im.contains_iff p).mp hp).2.2 (le_refl _)
  rw [start]
  omega

/-- A place within a texel, as slice, row and place in the row. -/
theorem coordinates (h : im.Fits) (hp : im.contains p) (hk : k < im.texelSize) :
    (im.start p + k) / im.slicePitch = p.z.toNat ∧
      (im.start p + k) % im.slicePitch / im.rowPitch = p.y.toNat ∧
      (im.start p + k) % im.slicePitch % im.rowPitch = p.x.toNat * im.texelSize + k := by
  have hrow := h.row_end hp
  have hslice := h.slice_end hp
  have hs : im.start p + k = p.z.toNat * im.slicePitch +
      (p.y.toNat * im.rowPitch + (p.x.toNat * im.texelSize + k)) := by
    rw [start]
    omega
  obtain ⟨hz, hr⟩ := digits (a := p.z.toNat) (n := im.slicePitch)
    (r := p.y.toNat * im.rowPitch + (p.x.toNat * im.texelSize + k)) (by omega)
  obtain ⟨hy, hx⟩ := digits (a := p.y.toNat) (n := im.rowPitch)
    (r := p.x.toNat * im.texelSize + k) (by omega)
  rw [hs, hz, hr, hy, hx]
  exact ⟨rfl, rfl, rfl⟩

theorem exists_of_covers (hc : im.Covers p i) : ∃ k < im.texelSize, i = im.start p + k :=
  ⟨i - im.start p, by have := hc.2; omega, by have := hc.2; omega⟩

/-- No place belongs to two texels. -/
theorem covers_unique (h : im.Fits) (hp : im.Covers p i) (hq : im.Covers q i) : p = q := by
  obtain ⟨j, hj, rfl⟩ := exists_of_covers hp
  obtain ⟨k, hk, he⟩ := exists_of_covers hq
  obtain ⟨pz, py, px⟩ := h.coordinates hp.1 hj
  obtain ⟨qz, qy, qx⟩ := h.coordinates hq.1 hk
  rw [← he] at qz qy qx
  have hx : p.x = q.x := by
    have hpx := (digits (a := p.x.toNat) hj).1
    have hqx := (digits (a := q.x.toNat) hk).1
    rw [← px] at hpx
    rw [← qx] at hqx
    exact UInt32.toNat_inj.mp (hpx.symm.trans hqx)
  have hy : p.y = q.y := UInt32.toNat_inj.mp (py.symm.trans qy)
  have hz : p.z = q.z := UInt32.toNat_inj.mp (pz.symm.trans qz)
  calc p = ⟨p.x, p.y, p.z⟩ := rfl
    _ = q := by rw [hx, hy, hz]

theorem place?_start (h : im.Fits) (hp : im.contains p) (hk : k < im.texelSize) :
    im.place? (im.start p + k) = some k := by
  obtain ⟨-, hy, hx⟩ := h.coordinates hp hk
  obtain ⟨hw, hh, -⟩ := (im.contains_iff p).mp hp
  have hend := step_le hw (le_refl (im.texelSize * im.width))
  have hin : p.y.toNat < (im.shape.extentAt 1).toNat ∧
      p.x.toNat * im.texelSize + k < im.texelSize * (im.shape.extentAt 0).toNat :=
    ⟨hh, by unfold width at hend; omega⟩
  simp only [place?, hy, hx, if_pos hin, (digits hk).2]

theorem covers_of_place? (h : im.Fits) (hi : i < im.length) (hp : im.place? i = some k) :
    ∃ p, im.Covers p i ∧ i = im.start p + k := by
  simp only [place?] at hp
  split_ifs at hp with hin
  obtain ⟨hy, hx⟩ := hin
  obtain rfl := Option.some.inj hp
  set r := i % im.slicePitch with hr
  set c := r % im.rowPitch with hc
  have hxw : c / im.texelSize < im.width := Nat.div_lt_of_lt_mul hx
  have hzd : i / im.slicePitch < im.depth := Nat.div_lt_of_lt_mul hi
  have hxn := toNat_ofNat_of_lt hxw
  have hyn := toNat_ofNat_of_lt hy
  have hzn := toNat_ofNat_of_lt hzd
  let p : Position := ⟨.ofNat (c / im.texelSize), .ofNat (r / im.rowPitch),
    .ofNat (i / im.slicePitch)⟩
  have hp : im.contains p := by
    rw [contains_iff]
    simp only [p, hxn, hyn, hzn]
    exact ⟨hxw, hy, hzd⟩
  have hstart : i = im.start p + c % im.texelSize := by
    have h1 := Nat.div_add_mod' i im.slicePitch
    have h2 := Nat.div_add_mod' r im.rowPitch
    have h3 := Nat.div_add_mod' c im.texelSize
    simp only [start, p, hxn, hyn, hzn]
    omega
  have hk := Nat.mod_lt c h.texel
  exact ⟨p, ⟨hp, by omega, by omega⟩, hstart⟩

end Fits

theorem eq_of_extend {a b n : Nat} (h : extend a b = .ok n) : n = a * b := by
  rw [extend] at h
  split_ifs at h
  exact (Except.ok.inj h).symm

theorem lt_of_reserve {n m : Nat} (h : reserve n = .ok m) : n < UInt64.size / 2 := by
  rw [reserve] at h
  split_ifs at h
  assumption

structure IsNew (im : Raster) (shape : ImageShape) (order : ChannelOrder) (type : ChannelType) :
    Prop where
  shape_eq : im.shape = shape
  texelSize_eq : im.texelSize = Conformance.texelSize order type
  byte_eq : im.byte = fun _ => 0
  fits : im.Fits

variable {shape : ImageShape} {order : ChannelOrder} {type : ChannelType}
  {rowPitch slicePitch : Nat}

theorem isNew_withPitch (h : withPitch shape order type rowPitch slicePitch = .ok im) :
    im.IsNew shape order type := by
  simp only [withPitch] at h
  split_ifs at h with hrow
  obtain ⟨slice, hslice, h⟩ := exists_of_bind h
  obtain rfl := eq_of_extend hslice
  split_ifs at h with hpitch
  obtain ⟨length, hlength, h⟩ := exists_of_bind h
  obtain rfl := eq_of_extend hlength
  obtain ⟨reserved, hreserved, h⟩ := exists_of_bind h
  obtain rfl := Except.ok.inj h
  exact ⟨rfl, rfl, rfl, (Texel.texelSize_bounds order type).1, Nat.le_of_not_lt hrow,
    Nat.le_of_not_lt hpitch, lt_of_reserve hreserved⟩

theorem isNew_tight (h : tight shape order type = .ok im) : im.IsNew shape order type := by
  obtain ⟨slice, -, h⟩ := exists_of_bind h
  exact isNew_withPitch h

theorem isNew_of_made (h : tight shape order type = .ok im ∨
    ∃ rowPitch slicePitch, withPitch shape order type rowPitch slicePitch = .ok im) :
    im.IsNew shape order type := by
  obtain h | ⟨rowPitch, slicePitch, h⟩ := h
  · exact isNew_tight h
  · exact isNew_withPitch h

end Raster

end Conformance
