import Mathlib
import Conformance.Proofs.Image.Layers
import Conformance.Proofs.Image.Repetition

namespace Conformance

open Binary

/-- On every axis the coordinate lies in the texel of the given index. A layer has to be met
exactly. -/
structure ImageShape.FallsOn (shape : ImageShape) (coords : List Single) (index : List UInt32) :
    Prop where
  count : coords.length = index.length
  finite : ∀ c ∈ coords, c.isFinite
  texel : ∀ (n : Nat) (hc : n < coords.length) (hi : n < index.length),
    shape.kind.axes[n]? ≠ some .layer → ⌊coords[n].value⌋ = (index[n].toNat : ℤ)
  layer : ∀ (n : Nat) (hc : n < coords.length) (hi : n < index.length),
    shape.kind.axes[n]? = some .layer → coords[n].value = index[n].toNat

theorem le_two_binade {n : Nat} (h : n ≤ 2 ^ 23) : n ≤ 2 * Format.single.binade :=
  h.trans (by decide)

section Axis

variable {c : Single} {i size : UInt32} (hi : i < size)

include hi

theorem inside_of_floor (h : ⌊c.value⌋ = (i.toNat : ℤ)) : 0 ≤ c.value ∧ c.value < size.toNat := by
  have hlt : i.toNat < size.toNat := hi
  obtain ⟨hlow, hhigh⟩ := Int.floor_eq_iff.mp h
  have hnext : ((i.toNat + 1 : ℕ) : ℚ) ≤ size.toNat := by exact_mod_cast hlt
  rw [Int.cast_natCast] at hlow hhigh
  push_cast at hnext
  exact ⟨le_trans (by positivity) hlow, hhigh.trans_le hnext⟩

variable (hs : size.toNat ≤ 2 ^ 23) (hc : c.isFinite)

include hs hc

theorem texel_of_floor (h : ⌊c.value⌋ = (i.toNat : ℤ)) (mode : AddressingMode) :
    mode.texel c size = i := by
  obtain ⟨hlow, hhigh⟩ := inside_of_floor hi h
  apply UInt32.toNat_inj.mp
  exact Int.ofNat_inj.mp ((AddressingMode.texel_of_inside (by omega) hc hlow hhigh mode).trans h)

/-- Half a texel behind the start of texel `i` is still in it, and is not rounded. -/
theorem floor_add_oneHalf (h : c.value = i.toNat) :
    (c + oneHalf).isFinite ∧ ⌊(c + oneHalf).value⌋ = (i.toNat : ℤ) := by
  have hlt : i.toNat < size.toNat := hi
  -- the sum counts halves, of which there are fewer than significands
  have hunits : c.signedUnits + oneHalf.signedUnits = ((2 * i.toNat + 1) * 2 ^ 148 : ℕ) := by
    rw [value, unity_single, div_eq_iff (by positivity)] at h
    have hcu : c.signedUnits = (i.toNat * 2 ^ 149 : ℤ) := by exact_mod_cast h
    rw [hcu, signedUnits_oneHalf]
    push_cast
    ring
  have hfits : Format.single.Represents (c.signedUnits + oneHalf.signedUnits).natAbs := by
    rw [hunits, Int.natAbs_natCast]
    refine ⟨2 * i.toNat + 1, 148, ?_, by decide, rfl⟩
    change 2 * i.toNat + 1 < 2 ^ 24
    omega
  obtain ⟨hfinite, hvalue⟩ := add_exact hc isFinite_oneHalf hfits
  refine ⟨hfinite, ?_⟩
  rw [hvalue, h, value_oneHalf, Int.floor_eq_iff]
  constructor <;> push_cast <;> linarith

theorem layerIndex_of_value (h : c.value = i.toNat) : layerIndex c size = i := by
  obtain ⟨hfinite, hfloor⟩ := floor_add_oneHalf hi hs hc h
  rw [layerIndex_eq]
  exact texel_of_floor hi hs hfinite hfloor .clampToEdge

variable {s : Sampler} {axis : ImageAxis}

theorem taps_of_layer (ha : axis = .layer) (h : c.value = i.toNat) :
    s.taps axis size c = .ok (.single i) := by
  rw [Sampler.taps, if_pos ha, layerIndex_of_value hi hs hc h]

theorem taps_of_floor (ha : axis ≠ .layer) (hf : s.filter = .nearest)
    (hu : s.coordinates = .unnormalized) (h : ⌊c.value⌋ = (i.toNat : ℤ)) :
    s.taps axis size c = .ok (.single i) := by
  have hpos : 0 < size.toNat := Nat.zero_lt_of_lt hi
  have htexel := texel_of_floor hi hs hc h s.addressing
  rw [Sampler.taps, if_neg ha]
  simp only [hu, hf, reduceCtorEq, if_false, AddressingMode.address_eq hpos, htexel]
  rfl

end Axis

namespace SampledImage

theorem taps_of_fallsOn {im : SampledImage} (hf : im.sampler.filter = .nearest)
    (hu : im.sampler.coordinates = .unnormalized)
    (hext : ∀ n, (im.shape.extentAt n).toNat ≤ 2 ^ 23) {index : List UInt32} {coords : List Single}
    (hin : im.shape.Contains index) (h : im.shape.FallsOn coords index) :
    im.taps coords = .ok (index.map .single) := by
  apply mapM_eq_ok_of_forall₂
  have haxes : index.length = im.shape.kind.axes.length := hin.count
  have hcount := h.count
  rw [List.forall₂_iff_get]
  refine ⟨by simp [hcount, haxes], fun n hz hi => ?_⟩
  simp only [List.length_zip, List.length_map] at hz hi
  have hc : n < coords.length := by omega
  have ha : n < im.shape.kind.axes.length := by omega
  have haxis : im.shape.kind.axes[n]? = some im.shape.kind.axes[n] := List.getElem?_eq_getElem ha
  have hlt := hin.lt n hi
  have hbound := hext n
  rw [im.shape.extentAt_getElem ha] at hlt hbound
  have hfinite := h.finite coords[n] (List.getElem_mem hc)
  simp only [List.get_eq_getElem, List.getElem_zip, List.getElem_map]
  by_cases hl : im.shape.kind.axes[n] = .layer
  · exact taps_of_layer hlt hbound hfinite hl (h.layer n hc hi (by rw [haxis, hl]))
  · exact taps_of_floor hlt hbound hfinite hl hf hu
      (h.texel n hc hi (by rw [haxis]; simpa using hl))

/-- A read of unnormalized coordinates without a filter is a load of the texel that they fall on,
whatever the texels hold and wherever they come from. It returns if the texel is there. -/
theorem read_nearest {kind : ImageKind} {size : ImageSize} {shape : ImageShape}
    {order : ChannelOrder} {type : ChannelType} {sampler : Sampler}
    (hs : ImageShape.make kind size = .ok shape) (hc : checkImage kind order type sampler = .ok ())
    (hf : sampler.filter = .nearest) (hu : sampler.coordinates = .unnormalized)
    (hext : ∀ n, (shape.extentAt n).toNat ≤ 2 ^ 23) (texels : TexelSource) :
    ∃ im, make shape order type sampler texels = .ok im ∧
      ∀ (index : List UInt32) (coords : List Single), shape.Contains index →
        shape.FallsOn coords index →
          im.read coords = im.load index ∧
          ∀ bytes, texels (.ofList index) = .ok bytes → bytes.length = texelSize order type →
            im.read coords = .ok (Texel.decode order type bytes) := by
  refine ⟨_, make_eq hs hc texels, ?_⟩
  intro index coords hin h
  set im : SampledImage := ⟨shape, order, type, sampler, texels⟩
  have hcount : coords.length = im.shape.kind.coordinateCount := h.count.trans hin.count
  have htaps : im.taps coords = .ok (index.map .single) :=
    taps_of_fallsOn hf hu hext hin h
  have hfirst : (index.map Taps.single).map Taps.first = index := by
    rw [List.map_map]
    exact List.map_id index
  have hread : im.read coords = im.load index := by
    rw [read_of_nearest hf hcount htaps, hfirst, load_eq_fetch hin]
  refine ⟨hread, fun bytes hbytes hlen => ?_⟩
  rw [hread, load_eq hin]
  change texels (.ofList index) >>= Texel.read order type = _
  rw [hbytes]
  change Texel.read order type bytes = _
  rw [Texel.read, if_neg (by omega)]

theorem read_nearest_corner :
    let shape : ImageShape := ⟨.planeArray, ⟨2, 1, 1, 8388608⟩⟩
    let sampler : Sampler := ⟨.clampToBorder, .nearest, .unnormalized⟩
    let texels : TexelSource := fun p => .ok [p.x.toUInt8, p.z.toUInt8]
    let index : List UInt32 := [1, 0, 8388607]
    let coords : List Single :=
      [.ofBits .single 0x3fffffff, .zero true, Binary.ofNat .single 8388607]
    ImageShape.make .planeArray ⟨2, 1, 1, 8388608⟩ = .ok shape ∧
      checkImage .planeArray .rg .unsignedInt8 sampler = .ok () ∧
      (∀ n, (shape.extentAt n).toNat ≤ 2 ^ 23) ∧ shape.Contains index ∧ shape.FallsOn coords index ∧
      ∃ im, make shape .rg .unsignedInt8 sampler texels = .ok im ∧
        im.read coords = .ok (Texel.decode .rg .unsignedInt8 [1, 255]) := by
  intro shape sampler texels index coords
  have hs : ImageShape.make .planeArray ⟨2, 1, 1, 8388608⟩ = .ok shape := by decide
  have hc : checkImage .planeArray .rg .unsignedInt8 sampler = .ok () := by decide
  have hext : ∀ n, (shape.extentAt n).toNat ≤ 2 ^ 23
    | 0 | 1 | 2 => by decide
    | _ + 3 => Nat.one_le_two_pow
  have hin : shape.Contains index := ⟨rfl, by decide⟩
  have hfalls : shape.FallsOn coords index := by
    refine ⟨rfl, ?_, ?_, ?_⟩
    · decide +kernel
    · have hfirst : (Binary.ofBits .single 0x3fffffff).signedUnits = 16777215 * 2 ^ 126 := by
        decide +kernel
      rintro (_ | _ | _ | n) hn hi ha
      · change ⌊(Binary.ofBits .single 0x3fffffff).value⌋ = 1
        rw [value, hfirst, Int.floor_eq_iff]
        norm_num [Format.unity_eq, Format.scale]
      · change ⌊(zero true : Single).value⌋ = 0
        rw [value_zero, Int.floor_zero]
      · exact absurd rfl ha
      · exact absurd hi (by simp [index])
    · rintro (_ | _ | _ | n) hn hi ha
      · cases ha
      · cases ha
      · exact value_ofNat (by decide)
      · exact absurd hi (by simp [index])
  have hbytes : texels (.ofList index) = .ok [1, 255] := by decide
  obtain ⟨im, hmake, hread⟩ := read_nearest hs hc rfl rfl hext texels
  exact ⟨hs, hc, hext, hin, hfalls, im, hmake, (hread index coords hin hfalls).2 _ hbytes rfl⟩

end SampledImage

end Conformance
