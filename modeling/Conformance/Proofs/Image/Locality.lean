import Mathlib
import Conformance.Proofs.Image.Blending
import Conformance.Proofs.Image.StoredTexel

namespace Conformance

/-- Two sources serve the same bytes for the texels of an image that have a property. -/
def ImageShape.Agree (shape : ImageShape) (P : List UInt32 → Prop) (texels other : TexelSource) :
    Prop :=
  ∀ index, shape.Contains index → P index → texels (.ofList index) = other (.ofList index)

theorem ImageShape.Agree.mono {shape : ImageShape} {P Q : List UInt32 → Prop}
    {texels other : TexelSource}
    (h : shape.Agree Q texels other) (hPQ : ∀ index, P index → Q index) :
    shape.Agree P texels other :=
  fun index hin hP => h index hin (hPQ index hP)

def ImageShape.Serves (shape : ImageShape) (size : Nat) (texels : TexelSource) : Prop :=
  ∀ index, shape.Contains index → ∃ bytes, texels (.ofList index) = .ok bytes ∧ size ≤ bytes.length

theorem Taps.first_mem_corners (taps : List Taps) : taps.map first ∈ corners taps := by
  obtain ⟨rest, hrest⟩ := head_corners taps
  rw [hrest]
  exact List.mem_cons_self

namespace SampledImage

def withTexels (im : SampledImage) (texels : TexelSource) : SampledImage := { im with texels }

variable {im : SampledImage} {coords : List Single} {taps : List Taps} {index : List UInt32}

theorem fetch_of_not_contains (hl : index.length = im.shape.kind.coordinateCount)
    (hout : ¬im.shape.Contains index) : im.fetch (.ofList index) = .ok im.borderColor := by
  refine if_pos ?_
  by_contra hinside
  simp only [not_or, UInt32.not_le] at hinside
  obtain ⟨h0, h1, h2⟩ := hinside
  refine hout ⟨hl, fun n hn => ?_⟩
  have h3 : n < 3 := hn.trans_le (hl.trans_le (ImageKind.coordinateCount_le _))
  have hget : index[n] = index.getD n 0 := (List.getD_eq_getElem _ _ hn).symm
  rw [hget]
  interval_cases n
  · exact h0
  · exact h1
  · exact h2

theorem fetch_congr {other : TexelSource} (hl : index.length = im.shape.kind.coordinateCount)
    (h : im.shape.Contains index → im.texels (.ofList index) = other (.ofList index)) :
    im.fetch (.ofList index) = (im.withTexels other).fetch (.ofList index) := by
  by_cases hin : im.shape.Contains index
  · have hother : (im.withTexels other).fetch (.ofList index) =
        other (.ofList index) >>= Texel.read im.order im.type := fetch_of_contains hin
    rw [fetch_of_contains hin, hother, h hin]
  · have hother : (im.withTexels other).fetch (.ofList index) = .ok im.borderColor :=
      fetch_of_not_contains hl hin
    rw [fetch_of_not_contains hl hin, hother]

theorem fetchFloat_congr {other : TexelSource} (hl : index.length = im.shape.kind.coordinateCount)
    (h : im.shape.Contains index → im.texels (.ofList index) = other (.ofList index)) :
    im.fetchFloat (.ofList index) =
      (im.withTexels other).fetchFloat (.ofList index) := by
  rw [fetchFloat, fetchFloat, fetch_congr hl h]

theorem exists_getElem?_of_forall₂ {α β : Type} {r : α → β → Prop} {l : List α} {m : List β}
    (h : List.Forall₂ r l m) {n : Nat} {a : α} (ha : l[n]? = some a) :
    ∃ b, m[n]? = some b ∧ r a b := by
  obtain ⟨hn, rfl⟩ := List.getElem?_eq_some_iff.mp ha
  have hm : n < m.length := hn.trans_eq h.length_eq
  exact ⟨m[n], List.getElem?_eq_getElem hm, h.get hn hm⟩

/-- Taps are computed one for each coordinate. -/
theorem forall₂_taps (ht : im.taps coords = .ok taps) :
    List.Forall₂ (fun p t => im.sampler.taps p.1 (im.shape.size.along p.1) p.2 = .ok t)
      (im.shape.kind.axes.zip coords) taps := mapM_eq_ok_iff.mp ht

theorem length_of_taps (hcount : coords.length = im.shape.kind.coordinateCount)
    (ht : im.taps coords = .ok taps) : taps.length = im.shape.kind.coordinateCount := by
  rw [← (forall₂_taps ht).length_eq, List.length_zip, hcount]
  exact Nat.min_self _

theorem length_of_mem_corners (hcount : coords.length = im.shape.kind.coordinateCount)
    (ht : im.taps coords = .ok taps) (hcorner : index ∈ Taps.corners taps) :
    index.length = im.shape.kind.coordinateCount :=
  (Taps.mem_corners hcorner).length_eq.symm.trans (length_of_taps hcount ht)

theorem length_weights_le (hcount : coords.length = im.shape.kind.coordinateCount)
    (ht : im.taps coords = .ok taps) :
    (Taps.weights taps).length ≤ im.shape.kind.axes.countP (· ≠ .layer) := by
  have hall (l : List (ImageAxis × Single)) (ts : List Taps)
      (h : List.Forall₂
        (fun p t => im.sampler.taps p.1 (im.shape.size.along p.1) p.2 = .ok t) l ts) :
      (Taps.weights ts).length ≤ (l.map Prod.fst).countP (· ≠ .layer) := by
    induction h with
    | nil => simp [Taps.weights]
    | @cons p t l ts hp _ ih =>
      rw [List.map_cons]
      by_cases ha : p.1 = .layer
      · rw [Sampler.taps, if_pos ha] at hp
        obtain rfl := Except.ok.inj hp
        rw [List.countP_cons_of_neg (by simp [ha])]
        exact ih
      · rw [List.countP_cons_of_pos (by simp [ha])]
        rw [Taps.weights, List.filterMap_cons]
        split
        · exact ih.trans (Nat.le_succ _)
        · exact Nat.succ_le_succ ih
  have hfst : (im.shape.kind.axes.zip coords).map Prod.fst = im.shape.kind.axes :=
    List.map_fst_zip hcount.ge
  exact hfst ▸ hall _ _ (forall₂_taps ht)

theorem layer_of_mem_corners {n : Nat} {c : Single} (ha : im.shape.kind.axes[n]? = some .layer)
    (hc : coords[n]? = some c) (ht : im.taps coords = .ok taps)
    (hcorner : index ∈ Taps.corners taps) :
    index[n]? = some (layerIndex c im.shape.size.layers) := by
  have hzip : (im.shape.kind.axes.zip coords)[n]? = some (.layer, c) := by
    rw [List.getElem?_zip_eq_some]
    exact ⟨ha, hc⟩
  obtain ⟨t, hn, htap⟩ := exists_getElem?_of_forall₂ (forall₂_taps ht) hzip
  obtain ⟨i, hi, hhas⟩ := exists_getElem?_of_forall₂ (Taps.mem_corners hcorner) hn
  rw [Sampler.taps, if_pos rfl] at htap
  obtain rfl := Except.ok.inj htap
  obtain rfl | rfl := hhas <;> exact hi

/-- A read does not change with texels that are no corner of its cell. -/
theorem read_congr (hcount : coords.length = im.shape.kind.coordinateCount)
    (ht : im.taps coords = .ok taps) {other : TexelSource}
    (h : im.shape.Agree (· ∈ Taps.corners taps) im.texels other) :
    im.read coords = (im.withTexels other).read coords := by
  have ht' : (im.withTexels other).taps coords = .ok taps := ht
  have hlength {index : List UInt32} (hcorner : index ∈ Taps.corners taps) :=
    length_of_mem_corners hcount ht hcorner
  cases hf : im.sampler.filter with
  | nearest =>
    have hfirst := Taps.first_mem_corners taps
    have hother : (im.withTexels other).read coords =
        (im.withTexels other).fetch (.ofList (taps.map Taps.first)) := read_of_nearest hf hcount ht'
    rw [read_of_nearest hf hcount ht, hother]
    exact fetch_congr (hlength hfirst) fun hin => h _ hin hfirst
  | linear =>
    have hcolors := mapM_congr fun index (hcorner : index ∈ Taps.corners taps) =>
      fetchFloat_congr (hlength hcorner) fun hin => h _ hin hcorner
    have hother : (im.withTexels other).read coords = (im.withTexels other).filtered taps :=
      read_of_taps hf hcount ht'
    rw [read_of_taps hf hcount ht, hother, filtered, filtered, filteredBy, filteredBy, hcolors]

section Serves

variable (hallows : im.order.allows im.type)
  (hserves : im.shape.Serves (texelSize im.order im.type) im.texels)

include hallows hserves

theorem fetch_returns_of_serves (hl : index.length = im.shape.kind.coordinateCount) :
    Returns (im.fetch (.ofList index)) fun color => color.kind = im.type.kind := by
  by_cases hin : im.shape.Contains index
  · obtain ⟨bytes, hbytes, hlength⟩ := hserves index hin
    rw [fetch_of_contains hin, hbytes]
    change Returns (Texel.read im.order im.type bytes) _
    rw [Texel.read, if_neg (Nat.not_lt.mpr hlength)]
    exact .ok (Texel.kind_decode hallows _)
  · rw [fetch_of_not_contains hl hin]
    exact .ok im.kind_borderColor

theorem fetchFloat_returns_of_serves (hl : index.length = im.shape.kind.coordinateCount)
    (hk : im.type.kind = .float) : Returns (im.fetchFloat (.ofList index)) fun _ => True := by
  apply (fetch_returns_of_serves hallows hserves hl).bind
  intro color hc
  obtain ⟨c, rfl⟩ := Color.exists_float (hc.trans hk)
  exact .ok trivial

theorem read_returns_of_serves (hcount : coords.length = im.shape.kind.coordinateCount)
    (ht : im.taps coords = .ok taps)
    (hfilter : im.sampler.filter = .linear → im.type.kind = .float) :
    Returns (im.read coords) fun color => color.kind = im.type.kind := by
  have hlength {index : List UInt32} (hcorner : index ∈ Taps.corners taps) :=
    length_of_mem_corners hcount ht hcorner
  cases hf : im.sampler.filter with
  | nearest =>
    rw [read_of_nearest hf hcount ht]
    exact fetch_returns_of_serves hallows hserves (hlength (Taps.first_mem_corners taps))
  | linear =>
    have hcolors : Returns _ fun colors => ∀ c ∈ colors, True :=
      .mapM fun index (hcorner : index ∈ Taps.corners taps) =>
        fetchFloat_returns_of_serves hallows hserves (hlength hcorner) (hfilter hf)
    rw [read_of_taps hf hcount ht]
    exact hcolors.bind fun _ _ => .ok (hfilter hf).symm

end Serves

/-- A read depends on the corners of one cell at most, and on no texel of another layer. It returns
a color if no texel is missing. -/
theorem read_local {kind : ImageKind} {size : ImageSize} {shape : ImageShape} {order : ChannelOrder}
    {type : ChannelType} {sampler : Sampler} (hs : ImageShape.make kind size = .ok shape)
    (hc : checkImage kind order type sampler = .ok ()) {coords : List Single}
    (hcount : coords.length = kind.coordinateCount) (texels other : TexelSource) :
    ∃ im taps, make shape order type sampler texels = .ok im ∧
      make shape order type sampler other = .ok (im.withTexels other) ∧
      im.taps coords = .ok taps ∧
      (Taps.corners taps).length ≤ 2 ^ kind.axes.countP (· ≠ .layer) ∧
      (shape.Serves (texelSize order type) texels → ∃ color, im.read coords = .ok color) ∧
      (shape.Agree (· ∈ Taps.corners taps) texels other →
        im.read coords = (im.withTexels other).read coords) ∧
      ∀ n c, kind.layerAxis? = some n → coords[n]? = some c →
        shape.Agree (fun index => index[n]? = some (layerIndex c shape.size.layers)) texels other →
          im.read coords = (im.withTexels other).read coords := by
  obtain ⟨hallows, hfilter⟩ := of_checkImage hc
  obtain rfl := ImageShape.kind_eq hs
  set im : SampledImage := ⟨shape, order, type, sampler, texels⟩ with him
  obtain ⟨taps, ht, -⟩ : Returns (im.taps coords) fun taps => ∀ t ∈ taps, True :=
    .mapM fun p _ => sampler.taps_returns p.1 (ImageShape.along_pos hs p.1) p.2
  have hcorners (h : shape.Agree (· ∈ Taps.corners taps) texels other) :
      im.read coords = (im.withTexels other).read coords := read_congr hcount ht h
  refine ⟨im, taps, make_eq hs hc texels, make_eq hs hc other, ht, ?_, fun hserves => ?_,
    hcorners, ?_⟩
  · rw [Taps.length_corners]
    exact Nat.pow_le_pow_right two_pos (length_weights_le hcount ht)
  · have hreturns : Returns (im.read coords) fun color => color.kind = im.type.kind :=
      read_returns_of_serves hallows hserves hcount ht hfilter
    exact hreturns.imp fun _ hcolor => hcolor.1
  · intro n c ha hcoord hlayer
    have haxis : im.shape.kind.axes[n]? = some .layer := ImageKind.layerAxis?_eq_some_iff.mp ha
    refine hcorners (hlayer.mono fun index hcorner => ?_)
    have hindex : index[n]? = some (layerIndex c im.shape.size.layers) :=
      layer_of_mem_corners haxis hcoord ht hcorner
    exact hindex

theorem read_local_layers :
    let shape : ImageShape := ⟨.lineArray, ⟨2, 1, 1, 3⟩⟩
    let sampler : Sampler := ⟨.wrap, .linear, .normalized⟩
    let texels : TexelSource := fun _ => .ok [64]
    let other : TexelSource := fun p => .ok [if p.y = 2 then 64 else 255]
    let coords : List Single := [.quietNaN true, .ofRatio .single 3 2]
    ImageShape.make .lineArray ⟨2, 1, 1, 3⟩ = .ok shape ∧
      checkImage .lineArray .r .unormInt8 sampler = .ok () ∧
      coords.length = ImageKind.lineArray.coordinateCount ∧
      shape.Serves (texelSize .r .unormInt8) texels ∧
      shape.Agree (fun index => index[1]? = some (layerIndex (.ofRatio .single 3 2) 3))
        texels other ∧
      texels (.ofList [0, 1]) ≠ other (.ofList [0, 1]) ∧
      ∃ im color, make shape .r .unormInt8 sampler texels = .ok im ∧ im.read coords = .ok color ∧
        (im.withTexels other).read coords = .ok color := by
  intro shape sampler texels other coords
  have hs : ImageShape.make .lineArray ⟨2, 1, 1, 3⟩ = .ok shape := rfl
  have hc : checkImage .lineArray .r .unormInt8 sampler = .ok () := rfl
  have hserves : shape.Serves (texelSize .r .unormInt8) texels := fun _ _ => ⟨[64], rfl, by decide⟩
  have hagree : shape.Agree (fun index => index[1]? = some (layerIndex (.ofRatio .single 3 2) 3))
      texels other := by
    intro index _ hindex
    have hlayer : layerIndex (.ofRatio .single 3 2) 3 = 2 := by decide +kernel
    have hy : (Position.ofList index).y = 2 := by
      have hget : index.getD 1 0 = 2 := by simp [hindex, hlayer]
      exact hget
    simp [texels, other, hy]
  have hcount : coords.length = ImageKind.lineArray.coordinateCount := rfl
  obtain ⟨im, taps, hmake, -, -, -, hreturns, -, hlocal⟩ := read_local hs hc hcount texels other
  obtain ⟨color, hcolor⟩ := hreturns hserves
  have hsame := hlocal 1 (.ofRatio .single 3 2) (by decide) rfl hagree
  exact ⟨hs, hc, hcount, hserves, hagree, by decide, im, color, hmake, hcolor, hsame ▸ hcolor⟩

end SampledImage

end Conformance
