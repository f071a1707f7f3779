import Mathlib
import Conformance.Proofs.Image.Blending
import Conformance.Proofs.Image.IndexRange
import Conformance.Proofs.Image.Layers

namespace Conformance

open Binary

namespace Sampler

variable (s : Sampler) (c : Single) (size : UInt32)

/-- A coordinate in texels. -/
def scaled : Single := if s.coordinates = .normalized then c * .ofNat .single size.toNat else c

def weight : Single :=
  let u := s.scaled c size - oneHalf
  u - u.floor

/-- The texels that are blended along an axis. -/
def cell (axis : ImageAxis) : Taps :=
  if axis = .layer then .single (layerIndex c size)
  else
    let u := s.scaled c size - oneHalf
    ⟨s.addressing.texel u size, s.addressing.texel (u + .ofNat .single 1) size,
      some (s.weight c size)⟩

/-- The coordinate in texels is too large for its format. -/
def Overflows : Prop := s.coordinates = .normalized ∧ 2 ^ 128 - 2 ^ 103 ≤ |c.value * size.toNat|

variable {s c size} {axis : ImageAxis}

theorem taps_of_linear (hf : s.filter = .linear) (h0 : 0 < size.toNat) :
    s.taps axis size c = .ok (s.cell c size axis) := by
  have hscaled : (if s.coordinates = .normalized then c * ofNat .single size.toNat else c) =
      s.scaled c size := rfl
  by_cases ha : axis = .layer
  · rw [taps, cell, if_pos ha, if_pos ha]
  · rw [taps, cell, if_neg ha, if_neg ha]
    simp only [hscaled, hf, AddressingMode.address_eq h0]
    rfl

theorem weight_cell_of_ne (ha : axis ≠ .layer) :
    (s.cell c size axis).weight = some (s.weight c size) := by
  rw [cell, if_neg ha]

theorem weight_cell_layer : (s.cell c size .layer).weight = none := rfl

section Exact

variable (hs : size.toNat ≤ 2 ^ 24)

include hs

theorem lt_of_cell (h0 : 0 < size.toNat) (hm : s.addressing ≠ .clampToBorder) {i : UInt32}
    (hi : (s.cell c size axis).Has i) : i < size := by
  have htexel (u : Single) : s.addressing.texel u size < size := by
    have hle := AddressingMode.texel_le_last hm u size
    rw [AddressingMode.toNat_last hs h0] at hle
    exact UInt32.lt_iff_toNat_lt.mpr (by omega)
  rw [cell] at hi
  split_ifs at hi with ha
  · have hlayer : layerIndex c size < size := by
      rw [layerIndex_eq, UInt32.lt_iff_toNat_lt, AddressingMode.toNat_clamped,
        AddressingMode.toNat_last hs h0]
      omega
    obtain rfl | rfl := hi <;> exact hlayer
  · obtain rfl | rfl := hi <;> exact htexel _

variable (hc : c.isFinite)

include hc

theorem isFinite_scaled_iff : (s.scaled c size).isFinite ↔ ¬s.Overflows c size := by
  rw [scaled, Overflows]
  split_ifs with hn
  · rw [isFinite_mul_iff hc (AddressingMode.isFinite_size size), AddressingMode.value_size hs,
      Format.reach_single, not_and, not_le]
    exact ⟨fun h _ => h, fun h => h hn⟩
  · simp [hc, hn]

theorem isFinite_weight (h : ¬s.Overflows c size) : (s.weight c size).isFinite := by
  have hu := isFinite_sub_oneHalf ((isFinite_scaled_iff hs hc).mpr h)
  obtain ⟨hfloor, hvalue⟩ := floor_exact hu
  apply isFinite_sub_of_le hu hfloor (n := 1) (by decide)
  rw [hvalue, Int.self_sub_floor, abs_of_nonneg (Int.fract_nonneg _), Nat.cast_one]
  exact (Int.fract_lt_one _).le

theorem isNaN_weight (h : s.Overflows c size) : (s.weight c size).isNaN := by
  have hinfinite : (s.scaled c size).isInfinite := by
    have hnot := mt (isFinite_scaled_iff hs hc).mp (not_not_intro h)
    rw [scaled, if_pos h.1] at hnot ⊢
    exact isInfinite_mul hc (AddressingMode.isFinite_size size) hnot
  rw [weight, sub_of_isInfinite hinfinite isFinite_oneHalf, floor_of_isInfinite hinfinite]
  exact isNaN_sub_self hinfinite

end Exact

end Sampler

theorem ImageShape.exists_extentAt (shape : ImageShape) {axis : ImageAxis}
    (ha : axis ∈ shape.kind.axes) :
    ∃ n, shape.extentAt n = shape.size.along axis := by
  obtain ⟨n, hn, rfl⟩ := List.getElem_of_mem ha
  exact ⟨n, shape.extentAt_getElem hn⟩

namespace SampledImage

variable (im : SampledImage)

def cells (coords : List Single) : List Taps :=
  (im.shape.kind.axes.zip coords).map fun p => im.sampler.cell p.2 (im.shape.size.along p.1) p.1

def Overflows (coords : List Single) : Prop :=
  ∃ p ∈ im.shape.kind.axes.zip coords, p.1 ≠ .layer ∧
    im.sampler.Overflows p.2 (im.shape.size.along p.1)

variable {im} {coords : List Single}

theorem mem_weights_cells {w : Single} :
    w ∈ Taps.weights (im.cells coords) ↔ ∃ p ∈ im.shape.kind.axes.zip coords, p.1 ≠ .layer ∧
      w = im.sampler.weight p.2 (im.shape.size.along p.1) := by
  simp only [Taps.weights, cells, List.mem_filterMap, List.mem_map, exists_exists_and_eq_and]
  constructor
  · rintro ⟨p, hp, hw⟩
    have ha : p.1 ≠ .layer := by
      intro ha
      rw [ha, Sampler.weight_cell_layer] at hw
      cases hw
    rw [Sampler.weight_cell_of_ne ha] at hw
    exact ⟨p, hp, ha, (Option.some.inj hw).symm⟩
  · rintro ⟨p, hp, ha, rfl⟩
    exact ⟨p, hp, Sampler.weight_cell_of_ne ha⟩

section Exact

variable (hext : ∀ n, (im.shape.extentAt n).toNat ≤ 2 ^ 24) (hfinite : ∀ c ∈ coords, c.isFinite)

include hext

theorem along_le {p : ImageAxis × Single} (hp : p ∈ im.shape.kind.axes.zip coords) :
    (im.shape.size.along p.1).toNat ≤ 2 ^ 24 := by
  obtain ⟨n, hn⟩ := im.shape.exists_extentAt (List.of_mem_zip hp).1
  exact hn ▸ hext n

include hfinite

theorem isFinite_weights (h : ¬im.Overflows coords) :
    ∀ w ∈ Taps.weights (im.cells coords), w.isFinite := by
  intro w hw
  obtain ⟨p, hp, ha, rfl⟩ := mem_weights_cells.mp hw
  have hno : ¬im.sampler.Overflows p.2 (im.shape.size.along p.1) := fun ho => h ⟨p, hp, ha, ho⟩
  exact Sampler.isFinite_weight (along_le hext hp) (hfinite _ (List.of_mem_zip hp).2) hno

theorem exists_isNaN_weight (h : im.Overflows coords) :
    ∃ w ∈ Taps.weights (im.cells coords), w.isNaN := by
  obtain ⟨p, hp, ha, ho⟩ := h
  have hnan := Sampler.isNaN_weight (along_le hext hp) (hfinite _ (List.of_mem_zip hp).2) ho
  exact ⟨_, mem_weights_cells.mpr ⟨p, hp, ha, rfl⟩, hnan⟩

end Exact

section Corner

variable (hcount : coords.length = im.shape.kind.coordinateCount) {index : List UInt32}
  (hcorner : index ∈ Taps.corners (im.cells coords))

include hcount hcorner

theorem length_of_corner : index.length = im.shape.kind.coordinateCount := by
  have hlength := (Taps.mem_corners hcorner).length_eq
  rw [cells, List.length_map, List.length_zip, hcount] at hlength
  rw [← hlength]
  exact Nat.min_self _

theorem contains_of_corner (hext : ∀ n, (im.shape.extentAt n).toNat ≤ 2 ^ 24)
    (h0 : ∀ a, 0 < (im.shape.size.along a).toNat) (hm : im.sampler.addressing ≠ .clampToBorder) :
    im.shape.Contains index := by
  refine ⟨length_of_corner hcount hcorner, fun n hn => ?_⟩
  have ha : n < im.shape.kind.axes.length := hn.trans_eq (length_of_corner hcount hcorner)
  have hc : n < coords.length := ha.trans_eq hcount.symm
  have hextent := im.shape.extentAt_getElem ha
  have hhas := (List.forall₂_iff_get.mp (Taps.mem_corners hcorner)).2 n (by simp [cells, ha, hc]) hn
  simp only [cells, List.get_eq_getElem, List.getElem_map, List.getElem_zip] at hhas
  rw [hextent]
  exact Sampler.lt_of_cell (hextent ▸ hext n) (h0 _) hm hhas

end Corner

theorem fetchFloat_eq_iff {p : Position} {c : Rgba Single} :
    im.fetchFloat p = .ok c ↔ im.fetch p = .ok (.float c) := by
  rw [fetchFloat]
  constructor
  · intro h
    obtain ⟨color, hcolor, h⟩ := exists_of_bind h
    cases color with
    | float d => rw [hcolor, Except.ok.inj h]
    | signed d | unsigned d => cases h
  · intro h
    rw [h]
    rfl

theorem taps_eq_cells (hf : im.sampler.filter = .linear)
    (h0 : ∀ a, 0 < (im.shape.size.along a).toNat) (coords : List Single) :
    im.taps coords = .ok (im.cells coords) :=
  mapM_eq_ok fun p _ => Sampler.taps_of_linear hf (h0 p.1)

theorem read_of_linear (hf : im.sampler.filter = .linear)
    (h0 : ∀ a, 0 < (im.shape.size.along a).toNat)
    (hcount : coords.length = im.shape.kind.coordinateCount) :
    im.read coords = im.filtered (im.cells coords) :=
  read_of_taps hf hcount (taps_eq_cells hf h0 coords)

theorem filtered_eq {P : Rgba Single → Prop} {taps : List Taps}
    (h : ∀ index ∈ Taps.corners taps, ∃ c, im.fetchFloat (.ofList index) = .ok c ∧ P c) :
    ∃ first rest d, (first :: rest).length = 2 ^ (Taps.weights taps).length ∧
      im.fetchFloat (.ofList (taps.map Taps.first)) = .ok first ∧ (∀ c ∈ first :: rest, P c) ∧
      blend Rgba.lerp (Taps.weights taps) (first :: rest) = [d] ∧
      im.filtered taps = .ok (.float d) := by
  have : Nonempty (Rgba Single) := ⟨.transparent⟩
  choose! fetched hfetched hkept using h
  obtain ⟨others, hcorners⟩ := Taps.head_corners taps
  have hmap : (Taps.corners taps).map fetched =
      fetched (taps.map Taps.first) :: others.map fetched := by
    rw [hcorners, List.map_cons]
  have hlength : ((Taps.corners taps).map fetched).length = 2 ^ (Taps.weights taps).length := by
    rw [List.length_map, Taps.length_corners]
  rw [hmap] at hlength
  obtain ⟨d, hd⟩ := exists_blend Rgba.lerp hlength
  refine ⟨_, _, d, hlength, hfetched _ (by rw [hcorners]; exact List.mem_cons_self), ?_, hd, ?_⟩
  · rw [← hmap]
    simpa using hkept
  · rw [filtered, filteredBy, mapM_eq_ok hfetched, hmap]
    change Except.ok (Color.float _) = _
    rw [hd]
    rfl

/-- The ends of every pair of colors are equal, so that the weights do not matter as long as they
are numbers. -/
theorem blend_constant {color d : Rgba Single} (hcolor : ∀ ch, (color.get ch).isFinite)
    {ws : List Single}
    (hws : ∀ w ∈ ws, w.isFinite) {cs : List (Rgba Single)} (hcs : ∀ c ∈ cs, c = color)
    (hd : d ∈ blend Rgba.lerp ws cs) : d.Same color := by
  have hkept : ∀ ch, (d.get ch).isFinite ∧ (d.get ch).value = (color.get ch).value := by
    apply forall_blend
      (P := fun c => ∀ ch, (c.get ch).isFinite ∧ (c.get ch).value = (color.get ch).value) _ _ d hd
    · intro c hc ch
      rw [hcs c hc]
      exact ⟨hcolor ch, rfl⟩
    · intro w hw a b ha hb ch
      obtain ⟨hafinite, havalue⟩ := ha ch
      obtain ⟨hbfinite, hbvalue⟩ := hb ch
      obtain ⟨hdiff, hzero⟩ := sub_of_value_eq hbfinite hafinite (hbvalue.trans havalue.symm)
      obtain ⟨hfinite, hvalue⟩ := lerp_start hafinite hdiff (hws w hw) (by rw [hzero, zero_mul])
      rw [Rgba.get_lerp]
      exact ⟨hfinite, hvalue.trans havalue⟩
  intro ch
  obtain ⟨hfinite, hvalue⟩ := hkept ch
  exact same_of_value_eq hfinite (hcolor ch) hvalue

/-- An image whose texels have one color shows it at all coordinates but those that overflow. -/
theorem read_constant {kind : ImageKind} {size : ImageSize} {shape : ImageShape}
    {order : ChannelOrder}
    {type : ChannelType} {sampler : Sampler} (hs : ImageShape.make kind size = .ok shape)
    (hc : checkImage kind order type sampler = .ok ()) (hf : sampler.filter = .linear)
    (hm : sampler.addressing ≠ .clampToBorder) (hext : ∀ n, (shape.extentAt n).toNat ≤ 2 ^ 24)
    {texels : TexelSource} {color : Rgba Single} (hcolor : ∀ ch, (color.get ch).isFinite)
    (htexels : ∀ index, shape.Contains index →
      texels (.ofList index) >>= Texel.read order type = .ok (.float color)) :
    ∃ im, make shape order type sampler texels = .ok im ∧
      ∀ coords : List Single, coords.length = kind.coordinateCount → (∀ c ∈ coords, c.isFinite) →
        ∃ d, im.read coords = .ok (.float d) ∧
          (¬im.Overflows coords → d.Same color) ∧ (im.Overflows coords → d.IsNaN) := by
  refine ⟨_, make_eq hs hc texels, ?_⟩
  intro coords hlength hfinite
  set im : SampledImage := ⟨shape, order, type, sampler, texels⟩
  have hkind : im.shape.kind = kind := ImageShape.kind_eq hs
  have hcount : coords.length = im.shape.kind.coordinateCount := hkind.symm ▸ hlength
  have h0 := ImageShape.along_pos hs
  have hfetch : ∀ index ∈ Taps.corners (im.cells coords),
      ∃ c, im.fetchFloat (.ofList index) = .ok c ∧ c = color := by
    intro index hcorner
    have hin := contains_of_corner hcount hcorner hext h0 hm
    exact ⟨color, fetchFloat_eq_iff.mpr ((fetch_of_contains hin).trans (htexels index hin)), rfl⟩
  obtain ⟨first, rest, d, -, -, hall, hd, hfiltered⟩ := filtered_eq hfetch
  have hmem : d ∈ blend Rgba.lerp (Taps.weights (im.cells coords)) (first :: rest) := by
    rw [hd]
    exact List.mem_singleton_self d
  refine ⟨d, (read_of_linear hf h0 hcount).trans hfiltered, fun ho => ?_, fun ho => ?_⟩
  · exact blend_constant hcolor (isFinite_weights hext hfinite ho) hall hmem
  · exact Rgba.isNaN_blend _ (exists_isNaN_weight hext hfinite ho) d hmem

theorem read_constant_far :
    let shape : ImageShape := ⟨.line, ⟨3, 1, 1, 1⟩⟩
    let sampler : Sampler := ⟨.mirror, .linear, .normalized⟩
    let texels : TexelSource := fun _ => .ok [255, 255, 127, 127]
    let color : Rgba Single := ⟨.greatest .single, .zero false, .zero false, .ofNat .single 1⟩
    ImageShape.make .line ⟨3, 1, 1, 1⟩ = .ok shape ∧ checkImage .line .r .float sampler = .ok () ∧
      sampler.addressing ≠ .clampToBorder ∧ (∀ n, (shape.extentAt n).toNat ≤ 2 ^ 24) ∧
      (∀ ch, (color.get ch).isFinite) ∧
      (∀ index, shape.Contains index →
        texels (.ofList index) >>= Texel.read .r .float = .ok (.float color)) ∧
      ∃ im, make shape .r .float sampler texels = .ok im ∧
        (∃ d, im.read [.ofBits .single 0x7e800000] = .ok (.float d) ∧ d.Same color) ∧
        ∃ d, im.read [.greatest .single] = .ok (.float d) ∧ d.IsNaN := by
  intro shape sampler texels color
  have hs : ImageShape.make .line ⟨3, 1, 1, 1⟩ = .ok shape := by decide
  have hc : checkImage .line .r .float sampler = .ok () := by decide
  have hm : sampler.addressing ≠ .clampToBorder := by decide
  have hext : ∀ n, (shape.extentAt n).toNat ≤ 2 ^ 24
    | 0 => by decide
    | _ + 1 => Nat.one_le_two_pow
  have hcolor : ∀ ch, (color.get ch).isFinite := by
    intro ch
    cases ch <;> decide
  have htexels : ∀ index, shape.Contains index →
      texels (.ofList index) >>= Texel.read .r .float = .ok (.float color) := by
    intro index _
    change Texel.read .r .float [255, 255, 127, 127] = _
    decide
  obtain ⟨im, hmake, hread⟩ := read_constant hs hc rfl hm hext hcolor htexels
  obtain rfl : SampledImage.mk shape .r .float sampler texels = im := Except.ok.inj hmake
  have hsize : (shape.size.along .width).toNat = 3 := rfl
  obtain ⟨hfar, hfarUnits⟩ : (ofBits .single 0x7e800000).isFinite ∧
      (ofBits .single 0x7e800000).signedUnits = 2 ^ 126 * 2 ^ 149 := by decide
  obtain ⟨hgreatest, hgreatestUnits⟩ : (greatest .single).isFinite ∧
      (greatest .single).signedUnits = (2 ^ 128 - 2 ^ 104) * 2 ^ 149 := by decide
  obtain ⟨d, hd, hsame, -⟩ := hread [.ofBits .single 0x7e800000] rfl (by simpa using hfar)
  obtain ⟨e, he, -, hnan⟩ := hread [.greatest .single] rfl (by simpa using hgreatest)
  refine ⟨hs, hc, hm, hext, hcolor, htexels, _, hmake, ⟨d, hd, hsame ?_⟩, e, he, hnan ?_⟩
  · rintro ⟨p, hp, -, -, hlarge⟩
    obtain rfl := List.mem_singleton.mp hp
    rw [hsize, value_of_signedUnits hfarUnits] at hlarge
    norm_num at hlarge
  · refine ⟨(.width, .greatest .single), List.mem_singleton_self _, by decide, rfl, ?_⟩
    rw [hsize, value_of_signedUnits hgreatestUnits]
    norm_num

/-- The weight of the greatest coordinate is not a number, and neither is what is read of
black texels. -/
theorem read_black_overflow :
    let shape : ImageShape := ⟨.line, ⟨4, 1, 1, 1⟩⟩
    let sampler : Sampler := ⟨.clampToEdge, .linear, .normalized⟩
    let texels : TexelSource := fun _ => .ok [0, 0, 0, 0]
    ImageShape.make .line ⟨4, 1, 1, 1⟩ = .ok shape ∧ checkImage .line .r .float sampler = .ok () ∧
      (∀ p, texels p >>= Texel.read .r .float = .ok (.float .black)) ∧ (greatest .single).isFinite ∧
      ∃ im, make shape .r .float sampler texels = .ok im ∧
        ∃ d, im.read [.greatest .single] = .ok (.float d) ∧ ¬d.Same .black := by
  intro shape sampler texels
  have hread : (SampledImage.mk shape .r .float sampler texels).read [.greatest .single] =
      .ok (.float ⟨.invalid, .invalid, .invalid, .invalid⟩) := by decide +kernel
  refine ⟨by decide, by decide, fun _ => ?_, by decide, _, rfl, _, hread, fun hsame => ?_⟩
  · change Texel.read .r .float [0, 0, 0, 0] = _
    decide
  · exact absurd (hsame .red) (by decide)

end SampledImage

end Conformance
