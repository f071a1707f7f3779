import Mathlib
import Conformance.Image.Sampling
import Conformance.Proofs.Binary.Magnitude
import Conformance.Proofs.Image.Accesses
import Conformance.Proofs.Image.TexelColor

namespace Conformance

section Legal

variable {kind : ImageKind} {order : ChannelOrder} {type : ChannelType} {s : Sampler}

theorem isFilterable_of_checkFilter (h : checkFilter .linear type = .ok ()) :
    type.kind = .float := by
  rw [checkFilter] at h
  split_ifs at h with hf
  simpa [ChannelType.isFilterable] using hf

theorem of_checkImage (h : checkImage kind order type s = .ok ()) :
    order.allows type ∧ (s.filter = .linear → type.kind = .float) := by
  obtain ⟨⟨⟩, hformat, h⟩ := exists_of_bind h
  obtain ⟨⟨⟩, -, hfilter⟩ := exists_of_bind h
  exact ⟨Texel.allows_of_checkFormat hformat, fun hl => isFilterable_of_checkFilter (hl ▸ hfilter)⟩

end Legal

theorem ImageShape.extentAt_getElem (shape : ImageShape) {n : Nat}
    (h : n < shape.kind.axes.length) :
    shape.extentAt n = shape.size.along shape.kind.axes[n] := by
  rw [extentAt, List.getElem?_eq_getElem h]

/-- Whole coordinates inside an image. -/
structure ImageShape.Contains (shape : ImageShape) (coords : List UInt32) : Prop where
  count : coords.length = shape.kind.coordinateCount
  lt : ∀ (n : Nat) (h : n < coords.length), coords[n] < shape.extentAt n

theorem ImageShape.Contains.getD_lt {shape : ImageShape} {coords : List UInt32}
    (h : shape.Contains coords) (n : Nat) : coords.getD n 0 < shape.extentAt n := by
  by_cases hn : n < coords.length
  · rw [List.getD_eq_getElem _ _ hn]
    exact h.lt n hn
  · have hle : shape.kind.axes.length ≤ n := h.count.ge.trans (Nat.not_lt.mp hn)
    rw [List.getD_eq_default _ _ (Nat.not_lt.mp hn), extentAt, List.getElem?_eq_none hle]
    exact Nat.one_pos

theorem AddressingMode.address_eq {size : UInt32} (h : 0 < size.toNat) (mode : AddressingMode)
    (c : Single) : mode.address c size = .ok (mode.texel c size) := by
  rw [address, if_neg]
  rintro rfl
  exact absurd h (by decide)

theorem Sampler.taps_returns (s : Sampler) (axis : ImageAxis) {size : UInt32} (h : 0 < size.toNat)
    (c : Single) : Returns (s.taps axis size c) fun _ => True := by
  rw [Sampler.taps]
  split_ifs
  · exact .ok trivial
  all_goals
    cases s.filter <;> simp only [AddressingMode.address_eq h] <;> exact .ok trivial

namespace SampledImage

/-- An image behind a legal configuration, and the memory that its texels come from. -/
structure Reads (im : SampledImage) (mem : Raster) : Prop where
  shape : mem.shape = im.shape
  texelSize : mem.texelSize = texelSize im.order im.type
  texels : im.texels = mem.texelBytes
  extent : ∀ a, 0 < (im.shape.size.along a).toNat
  allows : im.order.allows im.type
  filter : im.sampler.filter = .linear → im.type.kind = .float

theorem kind_borderColor (im : SampledImage) : im.borderColor.kind = im.type.kind := by
  rw [borderColor]
  cases im.type.kind <;> rfl

theorem checkRange_eq_ok {im : SampledImage} {coords : List UInt32} {axis : Nat}
    (h : ∀ (n : Nat) (hn : n < coords.length), coords[n] < im.shape.extentAt (axis + n)) :
    im.checkRange axis coords = .ok () := by
  induction coords generalizing axis with
  | nil => rfl
  | cons c rest ih =>
    have hc : c < im.shape.extentAt axis := h 0 (by simp)
    rw [checkRange, if_pos hc]
    apply ih
    intro n hn
    have ha : axis + 1 + n = axis + (n + 1) := by omega
    rw [ha]
    exact h (n + 1) (by simpa using hn)

theorem position_eq {im : SampledImage} {coords : List UInt32} (h : im.shape.Contains coords) :
    im.position coords = .ok (.ofList coords) := by
  have hr : im.checkRange 0 coords = .ok () :=
    checkRange_eq_ok fun n hn => by simpa using h.lt n hn
  rw [position, checkCount, if_pos h.count, hr]
  rfl

theorem fetch_of_contains {im : SampledImage} {coords : List UInt32}
    (h : im.shape.Contains coords) :
    im.fetch (.ofList coords) = im.texels (.ofList coords) >>= Texel.read im.order im.type := by
  have hinside : ¬(im.shape.extentAt 0 ≤ (Position.ofList coords).x ∨
      im.shape.extentAt 1 ≤ (Position.ofList coords).y ∨
      im.shape.extentAt 2 ≤ (Position.ofList coords).z) := by
    simp only [not_or, UInt32.not_le]
    exact ⟨h.getD_lt 0, h.getD_lt 1, h.getD_lt 2⟩
  rw [fetch, if_neg hinside]

theorem load_eq_fetch {im : SampledImage} {coords : List UInt32} (h : im.shape.Contains coords) :
    im.load coords = im.fetch (.ofList coords) := by
  rw [load, position_eq h]
  rfl

theorem load_eq {im : SampledImage} {coords : List UInt32} (h : im.shape.Contains coords) :
    im.load coords = im.texels (.ofList coords) >>= Texel.read im.order im.type :=
  (load_eq_fetch h).trans (fetch_of_contains h)

theorem read_of_nearest {im : SampledImage} {coords : List Single} {taps : List Taps}
    (hf : im.sampler.filter = .nearest) (hl : coords.length = im.shape.kind.coordinateCount)
    (ht : im.taps coords = .ok taps) :
    im.read coords = im.fetch (.ofList (taps.map Taps.first)) := by
  rw [read, checkCount, if_pos hl, ht]
  simp only [hf]
  rfl

theorem read_of_taps {im : SampledImage} {coords : List Single} {taps : List Taps}
    (hf : im.sampler.filter = .linear) (hl : coords.length = im.shape.kind.coordinateCount)
    (ht : im.taps coords = .ok taps) : im.read coords = im.filtered taps := by
  rw [read, checkCount, if_pos hl, ht]
  simp only [hf]
  rfl

namespace Reads

variable {im : SampledImage} {mem : Raster}

theorem fetch_returns (h : im.Reads mem) (p : Position) :
    Returns (im.fetch p) fun color => color.kind = im.type.kind := by
  rw [fetch]
  split_ifs with hout
  · exact .ok im.kind_borderColor
  · have hp : mem.contains p := by
      simpa [Raster.contains, h.shape, not_or] using hout
    rw [h.texels, Raster.texelBytes_eq, if_pos hp, h.texelSize]
    have hl := mem.length_bytesFrom (mem.start p) (Conformance.texelSize im.order im.type)
    change Returns (Texel.read im.order im.type _) _
    rw [Texel.read, if_neg (by omega)]
    exact .ok (Texel.kind_decode h.allows _)

theorem fetchFloat_returns (h : im.Reads mem) (hk : im.type.kind = .float) (p : Position) :
    Returns (im.fetchFloat p) fun _ => True := by
  apply (h.fetch_returns p).bind
  intro color hc
  obtain ⟨c, rfl⟩ := Color.exists_float (hc.trans hk)
  exact .ok trivial

theorem taps_returns (h : im.Reads mem) (coords : List Single) :
    Returns (im.taps coords) fun _ => True := by
  have ht : Returns (im.taps coords) fun taps => ∀ t ∈ taps, True :=
    .mapM fun p _ => im.sampler.taps_returns p.1 (h.extent p.1) p.2
  obtain ⟨taps, ht, -⟩ := ht
  exact ⟨taps, ht, trivial⟩

theorem filtered_returns (h : im.Reads mem) (hk : im.type.kind = .float) (taps : List Taps) :
    Returns (im.filtered taps) fun color => color.kind = im.type.kind := by
  have hc : Returns _ fun colors => ∀ c ∈ colors, True :=
    .mapM fun index (_ : index ∈ Taps.corners taps) => h.fetchFloat_returns hk (.ofList index)
  exact hc.bind fun colors _ => .ok hk.symm

theorem read_returns (h : im.Reads mem) {coords : List Single}
    (hl : coords.length = im.shape.kind.coordinateCount) :
    Returns (im.read coords) fun color => color.kind = im.type.kind := by
  rw [read, checkCount, if_pos hl]
  apply (h.taps_returns coords).bind
  intro taps _
  cases hf : im.sampler.filter with
  | nearest => exact h.fetch_returns _
  | linear => exact h.filtered_returns (h.filter hf) taps

theorem load_returns (h : im.Reads mem) {coords : List UInt32} (hc : im.shape.Contains coords) :
    Returns (im.load coords) fun color => color.kind = im.type.kind := by
  rw [load, position_eq hc]
  exact h.fetch_returns _

theorem write_returns (h : im.Reads mem) {coords : List UInt32} {color : Color}
    (hc : im.shape.Contains coords) (hk : color.kind = im.type.kind) :
    Returns (im.write coords color) fun v => Texel.Holds v mem.texelSize := by
  rw [write, position_eq hc, h.texelSize]
  exact Texel.encode_returns h.allows hk

end Reads

end SampledImage

theorem Raster.exists_store {mem : Raster} {v : Value} {p : Position} (hp : mem.contains p)
    (hv : Texel.Holds v mem.texelSize) : ∃ next, mem.store p v = .ok next := by
  obtain ⟨s, hs, hc⟩ := hv.type
  have hroom : ¬v.size < mem.texelSize := by
    rw [Value.size, hs, ValueType.size_scalar]
    exact Nat.not_lt.mpr hc.room
  rw [store_eq, if_neg hroom, if_pos hp]
  exact ⟨_, rfl⟩

/-- What accesses take for granted where nothing checks it. -/
structure SampledImage.Bounded (order : ChannelOrder) (type : ChannelType) (mem : Raster) :
    Prop where
  count : mem.shape.kind.coordinateCount ≤ 3
  clamp : ∀ n : Nat, (Binary.zero false).le (Binary.ofNat .single n)
  memory : ∀ p, mem.contains p → mem.start p + mem.texelSize ≤ mem.length
  read : ∀ bytes rest : List UInt8, bytes.length = texelSize order type →
    Texel.decode order type (bytes ++ rest) = Texel.decode order type bytes
  write : ∀ color : Color, color.kind = type.kind →
    ∃ b, Texel.channelBytes? order type color = some b ∧ b.length ≤ texelSize order type

namespace Raster.IsNew

variable {im : Raster} {shape : ImageShape} {order : ChannelOrder} {type : ChannelType}

theorem bounded (h : im.IsNew shape order type) (hf : order.allows type) (byte : Nat → UInt8) :
    SampledImage.Bounded order type { im with byte } where
  count := by
    change im.shape.kind.coordinateCount ≤ 3
    cases im.shape.kind <;> decide
  clamp := Binary.zero_le_ofNat
  memory _ hp := (h.fits.of_layout byte).texel_end hp
  read _ rest hl := Texel.decode_append hl rest
  write _ hk := Texel.exists_channelBytes? hf hk

theorem reads (h : im.IsNew shape order type) {kind : ImageKind} {size : ImageSize}
    {sampler : Sampler} (hs : ImageShape.make kind size = .ok shape)
    (hc : checkImage kind order type sampler = .ok ()) (byte : Nat → UInt8) :
    let mem : Raster := { im with byte }
    SampledImage.Reads ⟨shape, order, type, sampler, mem.texelBytes⟩ mem :=
  ⟨h.shape_eq, h.texelSize_eq, rfl, ImageShape.along_pos hs, (of_checkImage hc).1,
    (of_checkImage hc).2⟩

end Raster.IsNew

theorem SampledImage.make_eq {kind : ImageKind} {size : ImageSize} {shape : ImageShape}
    {order : ChannelOrder} {type : ChannelType} {sampler : Sampler}
    (hs : ImageShape.make kind size = .ok shape) (hc : checkImage kind order type sampler = .ok ())
    (texels : TexelSource) :
    make shape order type sampler texels = .ok ⟨shape, order, type, sampler, texels⟩ := by
  rw [make, ImageShape.kind_eq hs, hc]
  rfl

/-- Accesses do not fail if the configuration is legal and whole coordinates are in range. Sampling
takes any coordinates. -/
theorem SampledImage.accesses_succeed {kind : ImageKind} {size : ImageSize} {shape : ImageShape}
    {order : ChannelOrder} {type : ChannelType} {sampler : Sampler} {new : Raster}
    (hs : ImageShape.make kind size = .ok shape) (hc : checkImage kind order type sampler = .ok ())
    (hi : Raster.tight shape order type = .ok new ∨
      ∃ rowPitch slicePitch, Raster.withPitch shape order type rowPitch slicePitch = .ok new)
    (contents : Nat → UInt8) :
    let mem : Raster := { new with byte := contents }
    Bounded order type mem ∧
      ∃ im, make shape order type sampler mem.texelBytes = .ok im ∧
        (∀ coords : List Single, coords.length = kind.coordinateCount →
          ∃ color, im.read coords = .ok color ∧ color.kind = type.kind) ∧
        (∀ coords, shape.Contains coords →
          ∃ color, im.load coords = .ok color ∧ color.kind = type.kind) ∧
        ∀ coords color, shape.Contains coords → color.kind = type.kind →
          ∃ v, im.write coords color = .ok v ∧ Texel.Holds v (texelSize order type) ∧
            ∀ p, mem.contains p → ∃ next, mem.store p v = .ok next := by
  intro mem
  have hnew : new.IsNew shape order type := Raster.isNew_of_made hi
  have hkind := ImageShape.kind_eq hs
  have hreads := hnew.reads hs hc contents
  refine ⟨hnew.bounded (of_checkImage hc).1 contents, _, make_eq hs hc _, ?_, ?_, ?_⟩
  · intro coords hl
    exact hreads.read_returns (hkind ▸ hl)
  · intro coords hin
    exact hreads.load_returns hin
  · intro coords color hin hk
    obtain ⟨v, hv, hholds⟩ := hreads.write_returns hin hk
    refine ⟨v, hv, ?_, fun p hp => Raster.exists_store hp hholds⟩
    exact hnew.texelSize_eq ▸ hholds

theorem SampledImage.accesses_succeed_nan :
    let shape : ImageShape := ⟨.plane, ⟨2, 1, 1, 1⟩⟩
    let sampler : Sampler := ⟨.mirror, .linear, .normalized⟩
    let new : Raster := ⟨shape, 3, 7, 8, fun _ => 0⟩
    let mem : Raster := { new with byte := fun _ => 255 }
    ImageShape.make .plane ⟨2, 1, 1, 1⟩ = .ok shape ∧
      checkImage .plane .rgx .unormInt8 sampler = .ok () ∧
      Raster.withPitch shape .rgx .unormInt8 7 8 = .ok new ∧
      shape.Contains [1, 0] ∧
      ∃ im, make shape .rgx .unormInt8 sampler mem.texelBytes = .ok im ∧
        (∃ color, im.read [.quietNaN true, .infinity false] = .ok color ∧ color.kind = .float) ∧
        (∃ color, im.load [1, 0] = .ok color ∧ color.kind = .float) ∧
        ∃ v, im.write [1, 0] (.float (.dark (.quietNaN true))) = .ok v ∧ Texel.Holds v 3 := by
  intro shape sampler new mem
  have hs : ImageShape.make .plane ⟨2, 1, 1, 1⟩ = .ok shape := rfl
  have hc : checkImage .plane .rgx .unormInt8 sampler = .ok () := rfl
  have hi : Raster.withPitch shape .rgx .unormInt8 7 8 = .ok new := rfl
  have hin : shape.Contains [1, 0] := ⟨rfl, by decide⟩
  obtain ⟨-, im, hmake, hread, hload, hwrite⟩ :=
    accesses_succeed hs hc (.inr ⟨7, 8, hi⟩) fun _ => 255
  obtain ⟨v, hv, hholds, -⟩ := hwrite [1, 0] (.float (.dark (.quietNaN true))) hin rfl
  exact ⟨hs, hc, hi, hin, im, hmake, hread _ rfl, hload _ hin, v, hv, hholds⟩

end Conformance
