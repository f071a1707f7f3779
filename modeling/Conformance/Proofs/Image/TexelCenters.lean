import Mathlib
import Conformance.Proofs.Image.LinearRead
import Conformance.Proofs.Image.NearestRead

namespace Conformance

open Binary

def Binary.WithinOne (x : Single) : Prop := x.isFinite ∧ |x.value| ≤ 1

theorem Rgba.forall_get {α : Type} {P : α → Prop} {r g b a : α} (hr : P r) (hg : P g) (hb : P b)
    (ha : P a) : ∀ ch, P (Rgba.get ⟨r, g, b, a⟩ ch)
  | .red => hr
  | .green => hg
  | .blue => hb
  | .alpha => ha

namespace Texel

variable {type : ChannelType} {order : ChannelOrder}

theorem withinOne_of_code_le {x : Single} (h : x.code ≤ (ofNat .single 1).code) : x.WithinOne := by
  have hu : (0 : ℚ) < Format.single.unity := by exact_mod_cast Format.single.unity_pos
  have hunits := Format.single.units_strictMono.monotone h
  rw [units_one] at hunits
  refine ⟨isFinite_of_code_le h, ?_⟩
  rw [abs_value, div_le_one hu]
  exact_mod_cast hunits

theorem withinOne_ofNat {n : Nat} (h : n ≤ 1) : (ofNat .single n).WithinOne :=
  withinOne_of_code_le (code_ofNat_mono h)

theorem withinOne_zero : (zero false : Single).WithinOne := by
  apply withinOne_of_code_le
  rw [code_zero]
  exact Nat.zero_le _

theorem withinOne_ofUnorm {bits : Nat} (hb : 0 < bits) (hs : bits ≤ 24) (word : Nat) :
    (ofUnorm bits word).WithinOne := by
  rw [ofUnorm_eq hb hs]
  exact withinOne_of_code_le (code_fraction_le (unsignedWord_le bits word) (maxCode_bounds hb hs).1)

theorem withinOne_ofSnorm {bits : Nat} (hb : 1 < bits) (hs : bits ≤ 24) (word : Nat) :
    (ofSnorm bits word).WithinOne := by
  obtain ⟨hl, hu⟩ := signedWord_bounds (by omega : 0 < bits) word
  have hle : (snormCode bits word).natAbs ≤ maxCode (bits - 1) := by
    rw [snormCode]
    omega
  rw [ofSnorm_eq hb hs]
  exact withinOne_of_code_le (code_fraction_le hle (maxCode_bounds (by omega) (by omega)).1)

theorem withinOne_decodeFloat {e : FloatEncoding} (h : type.encoding = .float e)
    (hn : type.isNormalized) (word : Nat) : (decodeFloat e word).WithinOne := by
  cases type <;> simp only [ChannelType.encoding, reduceCtorEq,
    ChannelEncoding.float.injEq] at h <;>
    subst h
  case snormInt8 | snormInt16 => exact withinOne_ofSnorm (by decide) (by decide) word
  case unormInt8 | unormInt16 | unormInt24 => exact withinOne_ofUnorm (by decide) (by decide) word
  case halfFloat | float => cases hn

theorem withinOne_unpackWord {red green blue : PackedField}
    (h : type.encoding = .packed red green blue)
    (word : Nat) : ∀ ch, ((unpackWord red green blue word).get ch).WithinOne := by
  obtain ⟨hcontiguous, -⟩ := contiguous_of_encoding h
  obtain ⟨hred, hgreen, hblue⟩ := hcontiguous.pos
  obtain ⟨hred', hgreen', hblue'⟩ := hcontiguous.le
  rw [unpackWord]
  exact Rgba.forall_get (withinOne_ofUnorm hred hred' _) (withinOne_ofUnorm hgreen hgreen' _)
    (withinOne_ofUnorm hblue hblue' _) (withinOne_ofNat (le_refl 1))

theorem withinOne_ofSlots {decode : Nat → Single} (h : ∀ word, (decode word).WithinOne)
    (order : ChannelOrder) (size : Nat) (bytes : List UInt8) (ch : Channel) :
    ((ofSlots order size bytes decode fun c => .ofNat .single (absent c)).get ch).WithinOne := by
  have habsent : absent ch ≤ 1 := by
    rw [absent]
    split_ifs <;> decide
  rw [get_ofSlots]
  cases order.slot? ch with
  | some i => exact h _
  | none => exact withinOne_ofNat habsent

theorem withinOne_stencilDepth (hn : type.isNormalized) (word : Nat) :
    (decodeFloat (stencilDepth type) word).WithinOne := by
  have htype : type ≠ .float := by
    rintro rfl
    cases hn
  rw [stencilDepth, if_neg htype]
  exact withinOne_ofUnorm (by decide) (by decide) word

/-- All channels of a normalized texel are numbers from -1 to 1, also those that are made up. -/
theorem withinOne_decode (hn : type.isNormalized) (ho : order.isSrgb = false) (bytes : List UInt8) :
    ∃ c, decode order type bytes = .float c ∧ ∀ ch, (c.get ch).WithinOne := by
  by_cases hd : order = .depthStencil
  · rw [decode, if_pos hd, ofDepth]
    exact ⟨_, rfl, Rgba.forall_get (withinOne_stencilDepth hn _) withinOne_zero withinOne_zero
      (withinOne_ofNat (le_refl 1))⟩
  · rw [decode, if_neg hd]
    cases he : type.encoding with
    | float e =>
      simp only [ho, Bool.false_eq_true, if_false]
      exact ⟨_, rfl, withinOne_ofSlots (withinOne_decodeFloat he hn) order type.size bytes⟩
    | packed red green blue => exact ⟨_, rfl, withinOne_unpackWord he _⟩
    | signed bits | unsigned bits => simp [ChannelType.isNormalized, he] at hn

end Texel

/-- On every axis the coordinate is the center of the texel of the given index. A layer has to be
met exactly. -/
structure ImageShape.Centers (shape : ImageShape) (coords : List Single) (index : List UInt32) :
    Prop where
  count : coords.length = index.length
  finite : ∀ c ∈ coords, c.isFinite
  center : ∀ (n : Nat) (hc : n < coords.length) (hi : n < index.length),
    shape.kind.axes[n]? ≠ some .layer → coords[n].value = index[n].toNat + 1 / 2
  layer : ∀ (n : Nat) (hc : n < coords.length) (hi : n < index.length),
    shape.kind.axes[n]? = some .layer → coords[n].value = index[n].toNat

section Axis

variable {c : Single} {i size : UInt32} (hc : c.isFinite) (h : c.value = i.toNat + 1 / 2)
  (hs : size.toNat ≤ 2 ^ 23) (hi : i < size)

include hc h hs hi

/-- Half a texel is taken off exactly. -/
theorem sub_oneHalf_of_center : (c - oneHalf).isFinite ∧ (c - oneHalf).value = i.toNat := by
  have hlt : i.toNat < size.toNat := hi
  have hunity : Format.single.unity = 2 ^ 149 := Format.unity_eq _
  have hunits : c.signedUnits - oneHalf.signedUnits = (i.toNat * Format.single.unity : ℕ) := by
    rw [value, unity_single, div_eq_iff (by positivity)] at h
    have hcu : c.signedUnits = (i.toNat * 2 ^ 149 + 2 ^ 148 : ℤ) := by
      have hq : (c.signedUnits : ℚ) = i.toNat * 2 ^ 149 + 2 ^ 148 := by
        rw [h]
        ring
      exact_mod_cast hq
    rw [hcu, signedUnits_oneHalf, hunity]
    push_cast
    ring
  have hfits : Format.single.Represents (c.signedUnits - oneHalf.signedUnits).natAbs := by
    rw [hunits, Int.natAbs_natCast]
    exact Format.represents_whole (le_two_binade (by omega))
  obtain ⟨hfinite, hvalue⟩ := sub_exact hc isFinite_oneHalf hfits
  refine ⟨hfinite, ?_⟩
  rw [hvalue, h, value_oneHalf]
  ring

variable {s : Sampler} (hu : s.coordinates = .unnormalized)

include hu

theorem first_of_center {axis : ImageAxis} (ha : axis ≠ .layer) :
    (s.cell c size axis).first = i := by
  obtain ⟨hfinite, hvalue⟩ := sub_oneHalf_of_center hc h hs hi
  have hfloor : ⌊(c - oneHalf).value⌋ = (i.toNat : ℤ) := by
    rw [hvalue, Int.floor_natCast]
  have htexel := texel_of_floor hi hs hfinite hfloor s.addressing
  rw [Sampler.cell, if_neg ha, Sampler.scaled, if_neg (by simp [hu])]
  exact htexel

theorem weight_of_center : (s.weight c size).isFinite ∧ (s.weight c size).value = 0 := by
  obtain ⟨hfinite, hvalue⟩ := sub_oneHalf_of_center hc h hs hi
  obtain ⟨hfloor, hsame⟩ := floor_exact hfinite
  rw [hvalue, Int.floor_natCast, Int.cast_natCast] at hsame
  rw [Sampler.weight, Sampler.scaled, if_neg (by simp [hu])]
  exact sub_of_value_eq hfinite hfloor (hvalue.trans hsame.symm)

end Axis

namespace SampledImage

theorem withinOne_borderColor (im : SampledImage) (hk : im.type.kind = .float) :
    ∃ c, im.borderColor = .float c ∧ ∀ ch, (c.get ch).WithinOne := by
  have halpha : (if im.order.hasAlpha then 0 else 1) ≤ 1 := by split_ifs <;> decide
  simp only [borderColor, hk]
  exact ⟨_, rfl, Rgba.forall_get Texel.withinOne_zero Texel.withinOne_zero Texel.withinOne_zero
    (Texel.withinOne_ofNat halpha)⟩

variable {im : SampledImage} {coords : List Single} {index : List UInt32}

section Cells

variable (hu : im.sampler.coordinates = .unnormalized)
  (hext : ∀ n, (im.shape.extentAt n).toNat ≤ 2 ^ 23) (hin : im.shape.Contains index)
  (h : im.shape.Centers coords index)

include hu hext hin h

theorem firsts_of_centers : (im.cells coords).map Taps.first = index := by
  have haxes : index.length = im.shape.kind.axes.length := hin.count
  have hcount := h.count
  apply List.ext_getElem
  · simp [cells, hcount, haxes]
  · intro n hn hi
    have hc : n < coords.length := by omega
    have ha : n < im.shape.kind.axes.length := by omega
    have haxis := List.getElem?_eq_getElem ha
    have hlt := hin.lt n hi
    have hbound := hext n
    rw [im.shape.extentAt_getElem ha] at hlt hbound
    have hfinite := h.finite coords[n] (List.getElem_mem hc)
    simp only [cells, List.getElem_map, List.getElem_zip]
    by_cases hl : im.shape.kind.axes[n] = .layer
    · rw [Sampler.cell, if_pos hl]
      exact layerIndex_of_value hlt hbound hfinite (h.layer n hc hi (by rw [haxis, hl]))
    · exact first_of_center hfinite (h.center n hc hi (by rw [haxis]; simpa using hl))
        hbound hlt hu hl

theorem weights_of_centers :
    ∀ w ∈ Taps.weights (im.cells coords), w.isFinite ∧ w.value = 0 := by
  intro w hw
  obtain ⟨p, hp, hl, rfl⟩ := mem_weights_cells.mp hw
  obtain ⟨n, hn, rfl⟩ := List.getElem_of_mem hp
  rw [List.length_zip] at hn
  have hc : n < coords.length := by omega
  have ha : n < im.shape.kind.axes.length := by omega
  have hi : n < index.length := h.count ▸ hc
  have haxis := List.getElem?_eq_getElem ha
  have hlt := hin.lt n hi
  have hbound := hext n
  rw [im.shape.extentAt_getElem ha] at hlt hbound
  have hfinite := h.finite coords[n] (List.getElem_mem hc)
  rw [List.getElem_zip] at hl ⊢
  exact weight_of_center hfinite (h.center n hc hi (by rw [haxis]; simpa using hl)) hbound hlt hu

end Cells

theorem fetch_cases (hcount : index.length = im.shape.kind.coordinateCount) :
    im.fetch (.ofList index) = .ok im.borderColor ∨ im.shape.Contains index := by
  by_cases hout : im.shape.extentAt 0 ≤ (Position.ofList index).x ∨
      im.shape.extentAt 1 ≤ (Position.ofList index).y ∨
        im.shape.extentAt 2 ≤ (Position.ofList index).z
  · left
    rw [fetch, if_pos hout]
    rfl
  · right
    simp only [not_or, UInt32.not_le] at hout
    obtain ⟨hx, hy, hz⟩ := hout
    have hthree : im.shape.kind.coordinateCount ≤ 3 := by cases im.shape.kind <;> decide
    refine ⟨hcount, fun n hn => ?_⟩
    rw [← List.getD_eq_getElem _ 0 hn]
    obtain rfl | rfl | rfl : n = 0 ∨ n = 1 ∨ n = 2 := by omega
    · exact hx
    · exact hy
    · exact hz

/-- A weight that is nothing keeps the first of two colors whose channels are numbers from
-1 to 1. -/
theorem lerp_nothing {a b : Rgba Single} {w : Single} (ha : ∀ ch, (a.get ch).WithinOne)
    (hb : ∀ ch, (b.get ch).WithinOne) (hw : w.isFinite) (h0 : w.value = 0) (ch : Channel) :
    ((Rgba.lerp a b w).get ch).isFinite ∧ ((Rgba.lerp a b w).get ch).value = (a.get ch).value := by
  obtain ⟨hafinite, haone⟩ := ha ch
  obtain ⟨hbfinite, hbone⟩ := hb ch
  have hdiff : (b.get ch - a.get ch).isFinite := by
    apply isFinite_sub_of_le hbfinite hafinite (n := 2) (by decide)
    calc |(b.get ch).value - (a.get ch).value|
      _ ≤ |(b.get ch).value| + |(a.get ch).value| := abs_sub _ _
      _ ≤ (2 : ℕ) := by
        push_cast
        linarith
  rw [Rgba.get_lerp]
  exact lerp_start hafinite hdiff hw (by rw [h0, mul_zero])

theorem blend_nothing {first d : Rgba Single} {rest : List (Rgba Single)} {ws : List Single}
    (hlength : (first :: rest).length = 2 ^ ws.length)
    (hcs : ∀ c ∈ first :: rest, ∀ ch, (c.get ch).WithinOne)
    (hws : ∀ w ∈ ws, w.isFinite ∧ w.value = 0)
    (hd : blend Rgba.lerp ws (first :: rest) = [d]) : d.Same first := by
  obtain ⟨c, hc, hone, hsame⟩ := blend_spec Rgba.lerp
    (P := fun c => ∀ ch, (c.get ch).WithinOne)
    (Q := fun c => ∀ ch, (c.get ch).value = (first.get ch).value) hlength hcs (fun _ => rfl)
    (fun w hw a b ha hb ch => by
      obtain ⟨hfinite, hvalue⟩ := lerp_nothing ha hb (hws w hw).1 (hws w hw).2 ch
      exact ⟨hfinite, hvalue ▸ (ha ch).2⟩)
    (fun w hw a b ha hb hfirst ch =>
      (lerp_nothing ha hb (hws w hw).1 (hws w hw).2 ch).2.trans (hfirst ch))
  obtain rfl : c = d := by simpa [hc] using hd
  exact fun ch => same_of_value_eq (hone ch).1 (hcs first List.mem_cons_self ch).1 (hsame ch)

/-- At the center of a texel a linear read gives the color that a load gives, whatever the texels
around it hold and wherever the image ends. -/
theorem read_center {kind : ImageKind} {size : ImageSize} {shape : ImageShape}
    {order : ChannelOrder}
    {type : ChannelType} {sampler : Sampler} (hs : ImageShape.make kind size = .ok shape)
    (hc : checkImage kind order type sampler = .ok ()) (hf : sampler.filter = .linear)
    (hu : sampler.coordinates = .unnormalized) (hn : type.isNormalized) (ho : order.isSrgb = false)
    (hext : ∀ n, (shape.extentAt n).toNat ≤ 2 ^ 23) {texels : TexelSource}
    (htexels : ∀ index, shape.Contains index →
      ∃ bytes, texels (.ofList index) = .ok bytes ∧ texelSize order type ≤ bytes.length) :
    ∃ im, make shape order type sampler texels = .ok im ∧
      ∀ (index : List UInt32) (coords : List Single), shape.Contains index →
        shape.Centers coords index →
        ∃ d e, im.read coords = .ok (.float d) ∧ im.load index = .ok (.float e) ∧ d.Same e := by
  refine ⟨_, make_eq hs hc texels, ?_⟩
  intro index coords hin h
  set im : SampledImage := ⟨shape, order, type, sampler, texels⟩
  have hcount : coords.length = im.shape.kind.coordinateCount := h.count.trans hin.count
  have hfetch : ∀ corner ∈ Taps.corners (im.cells coords),
      ∃ c, im.fetchFloat (.ofList corner) = .ok c ∧ ∀ ch, (c.get ch).WithinOne := by
    intro corner hcorner
    obtain hborder | hinside := fetch_cases (length_of_corner hcount hcorner)
    · obtain ⟨c, hcolor, hone⟩ := withinOne_borderColor im ((of_checkImage hc).2 hf)
      exact ⟨c, fetchFloat_eq_iff.mpr (hcolor ▸ hborder), hone⟩
    · obtain ⟨bytes, hbytes, hlen⟩ := htexels corner hinside
      obtain ⟨c, hcolor, hone⟩ := Texel.withinOne_decode hn ho bytes
      have hread : Texel.read order type bytes = .ok (.float c) := by
        rw [Texel.read, if_neg (by omega), hcolor]
      refine ⟨c, fetchFloat_eq_iff.mpr ?_, hone⟩
      rw [fetch_of_contains hinside]
      change texels _ >>= Texel.read order type = _
      rw [hbytes]
      exact hread
  obtain ⟨first, rest, d, hlength, hfirst, hall, hd, hfiltered⟩ := filtered_eq hfetch
  rw [firsts_of_centers hu hext hin h] at hfirst
  refine ⟨d, first, (read_of_linear hf (ImageShape.along_pos hs) hcount).trans hfiltered, ?_, ?_⟩
  · rw [load_eq_fetch hin]
    exact fetchFloat_eq_iff.mp hfirst
  · exact blend_nothing hlength hall (weights_of_centers hu hext hin h) hd

theorem read_center_border :
    let shape : ImageShape := ⟨.planeArray, ⟨2, 1, 1, 2⟩⟩
    let sampler : Sampler := ⟨.clampToBorder, .linear, .unnormalized⟩
    let mem : Raster := ⟨shape, 2, 4, 4, fun i => UInt8.ofNat (100 * i)⟩
    let index : List UInt32 := [1, 0, 1]
    let coords : List Single := [.ofBits .single 0x3fc00000, oneHalf, .ofNat .single 1]
    ImageShape.make .planeArray ⟨2, 1, 1, 2⟩ = .ok shape ∧
      checkImage .planeArray .rg .snormInt8 sampler = .ok () ∧ ChannelType.snormInt8.isNormalized ∧
      ChannelOrder.rg.isSrgb = false ∧ (∀ n, (shape.extentAt n).toNat ≤ 2 ^ 23) ∧
      (∀ index, shape.Contains index → ∃ bytes, mem.texelBytes (.ofList index) = .ok bytes ∧
        texelSize .rg .snormInt8 ≤ bytes.length) ∧
      shape.Contains index ∧ shape.Centers coords index ∧
      ∃ im, make shape .rg .snormInt8 sampler mem.texelBytes = .ok im ∧
        ∃ d e, im.read coords = .ok (.float d) ∧ im.load index = .ok (.float e) ∧ d.Same e := by
  intro shape sampler mem index coords
  have hs : ImageShape.make .planeArray ⟨2, 1, 1, 2⟩ = .ok shape := by decide
  have hc : checkImage .planeArray .rg .snormInt8 sampler = .ok () := by decide
  have hext : ∀ n, (shape.extentAt n).toNat ≤ 2 ^ 23
    | 0 | 1 | 2 => by decide
    | _ + 3 => Nat.one_le_two_pow
  have htexels : ∀ index, shape.Contains index →
      ∃ bytes, mem.texelBytes (.ofList index) = .ok bytes ∧
        texelSize .rg .snormInt8 ≤ bytes.length := by
    intro index hin
    have hinside : mem.contains (.ofList index) :=
      decide_eq_true ⟨hin.getD_lt 0, hin.getD_lt 1, hin.getD_lt 2⟩
    refine ⟨_, (mem.texelBytes_eq _).trans (if_pos hinside), ?_⟩
    rw [Raster.length_bytesFrom]
    decide
  have hin : shape.Contains index := ⟨rfl, by decide⟩
  have hcenters : shape.Centers coords index := by
    refine ⟨rfl, by decide, ?_, ?_⟩
    · have hfirst : (ofBits .single 0x3fc00000).signedUnits = 3 * 2 ^ 148 := by decide
      rintro (_ | _ | _ | n) hn hi ha
      · change (ofBits .single 0x3fc00000).value = (1 : ℕ) + 1 / 2
        rw [value_of_signedUnits hfirst]
        norm_num
      · change oneHalf.value = (0 : ℕ) + 1 / 2
        rw [value_oneHalf]
        norm_num
      · exact absurd rfl ha
      · exact absurd hi (by simp [index])
    · rintro (_ | _ | _ | n) hn hi ha
      · cases ha
      · cases ha
      · exact value_ofNat (by decide)
      · exact absurd hi (by simp [index])
  obtain ⟨im, hmake, hread⟩ := read_center hs hc rfl rfl rfl rfl hext htexels
  exact ⟨hs, hc, rfl, rfl, hext, htexels, hin, hcenters, im, hmake, hread index coords hin hcenters⟩

end SampledImage

end Conformance
