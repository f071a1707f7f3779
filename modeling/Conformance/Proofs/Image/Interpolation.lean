import Mathlib
import Conformance.Proofs.Image.LinearRead
import Conformance.Proofs.Image.Reduction
import Conformance.Proofs.Image.StoredTexel

namespace Conformance

/-- Interpolates along the given axes, the last one first, between the taps of each. -/
def interpolated {ε α : Type} (lerp : α → α → Single → α) (weight : Nat → Single)
    (first second : Nat → UInt32) (fetch : (Nat → UInt32) → Except ε α) :
    List Nat → (Nat → UInt32) → Except ε α
  | [], index => fetch index
  | axis :: axes, index => do
    let a ← interpolated lerp weight first second fetch axes
      (Function.update index axis (first axis))
    let b ← interpolated lerp weight first second fetch axes
      (Function.update index axis (second axis))
    return lerp a b (weight axis)

namespace SampledImage

variable (im : SampledImage) (coords : List Single)

def point (axis : Nat) : Single :=
  im.sampler.scaled (coords.getD axis (.zero false)) (im.shape.extentAt axis) - oneHalf

def firstTap (axis : Nat) : UInt32 :=
  im.sampler.addressing.texel (im.point coords axis) (im.shape.extentAt axis)

def secondTap (axis : Nat) : UInt32 :=
  im.sampler.addressing.texel (im.point coords axis + .ofNat .single 1) (im.shape.extentAt axis)

def weightAlong (axis : Nat) : Single := im.point coords axis - (im.point coords axis).floor

def filteredAxes : List Nat :=
  (List.range im.shape.kind.coordinateCount).filter fun axis => im.shape.kind.layerAxis? ≠ some axis

def layerOnly (axis : Nat) : UInt32 :=
  if im.shape.kind.layerAxis? = some axis then
    layerIndex (coords.getD axis (.zero false)) (im.shape.extentAt axis)
  else 0

/-- The color between the texels around the coordinates, with `lerp` in place of the blend of two
colors. -/
def interpolate (lerp : Rgba Single → Rgba Single → Single → Rgba Single) :
    Except ImageFault Color := do
  im.checkCount coords.length
  let color ← interpolated lerp (im.weightAlong coords) (im.firstTap coords) (im.secondTap coords)
    (fun index => im.fetchFloat ⟨index 0, index 1, index 2⟩) im.filteredAxes.reverse
    (im.layerOnly coords)
  return .float color

end SampledImage

section Corners

variable {ε α : Type} (lerp : α → α → Single → α) (fetch : List UInt32 → Except ε α)

def fetchPair (t : Taps) (index : List UInt32) : Except ε α :=
  match t.weight with
  | none => fetch (t.first :: index)
  | some w => do
    let a ← fetch (t.first :: index)
    let b ← fetch (t.second :: index)
    return lerp a b w

theorem mapM_pairs (t : Taps) (w : Single) (l : List (List UInt32)) :
    blendPairs lerp w <$>
      ((l.flatMap fun index => [t.first :: index, t.second :: index]).mapM fetch) =
      l.mapM fun index => do
        let a ← fetch (t.first :: index)
        let b ← fetch (t.second :: index)
        return lerp a b w := by
  induction l with
  | nil => rfl
  | cons index rest ih =>
    simp only [List.flatMap_cons, List.cons_append, List.nil_append, List.mapM_cons, ← ih]
    cases fetch (t.first :: index) with
    | error e => rfl
    | ok a =>
      cases fetch (t.second :: index) with
      | error e => rfl
      | ok b =>
        cases (rest.flatMap fun index => [t.first :: index, t.second :: index]).mapM fetch <;> rfl

/-- To blend all corners is to blend pairs along one axis after the other. -/
theorem blend_mapM_corners (taps : List Taps) :
    blend lerp (Taps.weights taps) <$> (Taps.corners taps).mapM fetch =
      (fun c => [c]) <$> taps.foldl (fetchPair lerp) fetch [] := by
  induction taps generalizing fetch with
  | nil => simp [Taps.corners, Taps.weights, blend]
  | cons t rest ih =>
    rw [List.foldl_cons, ← ih, Taps.corners]
    cases hw : t.weight with
    | none =>
      have hweights : Taps.weights (t :: rest) = Taps.weights rest := List.filterMap_cons_none hw
      have hpair : fetchPair lerp fetch t = fun index => fetch (t.first :: index) := by
        funext index
        simp [fetchPair, hw]
      simp only [Option.isSome_none, Bool.false_eq_true, if_false, ← List.map_eq_flatMap, hweights,
        hpair, List.mapM_map]
      rfl
    | some w =>
      have hweights : Taps.weights (t :: rest) = w :: Taps.weights rest :=
        List.filterMap_cons_some hw
      have hpair : fetchPair lerp fetch t = fun index => do
          let a ← fetch (t.first :: index)
          let b ← fetch (t.second :: index)
          return lerp a b w := by
        funext index
        simp [fetchPair, hw]
      rw [hpair, ← mapM_pairs, hweights, Functor.map_map]
      simp only [Option.isSome_some, if_true]
      rfl

end Corners

namespace SampledImage

variable {im : SampledImage} {coords : List Single}

variable (im coords) in
def tapsAlong (axis : Nat) : Taps :=
  if im.shape.kind.layerAxis? = some axis then .single (im.layerOnly coords axis)
  else ⟨im.firstTap coords axis, im.secondTap coords axis, some (im.weightAlong coords axis)⟩

theorem cells_eq_map_tapsAlong (hcount : coords.length = im.shape.kind.coordinateCount) :
    im.cells coords = (List.range im.shape.kind.coordinateCount).map (im.tapsAlong coords) := by
  apply List.ext_getElem
  · simp [cells, hcount, ImageKind.coordinateCount]
  · intro n h _
    have hc : n < coords.length := by
      rw [cells, List.length_map, List.length_zip] at h
      omega
    have ha : n < im.shape.kind.axes.length := hc.trans_eq hcount
    have hlayer : im.shape.kind.layerAxis? = some n ↔ im.shape.kind.axes[n] = .layer := by
      rw [ImageKind.layerAxis?_eq_some_iff, List.getElem?_eq_getElem ha, Option.some_inj]
    simp only [cells, List.getElem_map, List.getElem_zip, List.getElem_range]
    rw [Sampler.cell, tapsAlong, ← im.shape.extentAt_getElem ha]
    simp only [hlayer]
    split_ifs with h
    · rw [layerOnly, if_pos (hlayer.mpr h), List.getD_eq_getElem _ _ hc]
    · rw [firstTap, secondTap, weightAlong, point, List.getD_eq_getElem _ _ hc]
      rfl

def Continues (count : Nat) (rest : List UInt32) (index : Nat → UInt32) : Prop :=
  ∀ n, count ≤ n → index n = rest.getD (n - count) 0

section Continues

variable {count : Nat} {rest : List UInt32} {index : Nat → UInt32}

theorem Continues.cons (h : Continues (count + 1) rest index) :
    Continues count (index count :: rest) index := by
  intro n hn
  obtain rfl | hlt := hn.eq_or_lt
  · simp
  · have hstep : n - count = n - (count + 1) + 1 := by omega
    rw [hstep, List.getD_cons_succ, h n hlt]

theorem Continues.update (h : Continues (count + 1) rest index) (i : UInt32) :
    Continues count (i :: rest) (Function.update index count i) := by
  have hafter : Continues (count + 1) rest (Function.update index count i) := fun n hn => by
    rw [Function.update_of_ne (by omega), h n hn]
  simpa using hafter.cons

theorem Continues.position (h : Continues 0 rest index) :
    Position.ofList rest = ⟨index 0, index 1, index 2⟩ := by
  simp [Position.ofList, h _ (Nat.zero_le _)]

end Continues

/-- Pairs blended along the first axes, in front of an index along those behind. The induction is on
the number of axes, the last of which is interpolated last. -/
theorem foldl_fetchPair (lerp : Rgba Single → Rgba Single → Single → Rgba Single) (count : Nat)
    (index : Nat → UInt32) (rest : List UInt32) (hrest : Continues count rest index)
    (hlayer : ∀ n < count, im.shape.kind.layerAxis? = some n → index n = im.layerOnly coords n) :
    ((List.range count).map (im.tapsAlong coords)).foldl (fetchPair lerp)
        (fun index => im.fetchFloat (.ofList index)) rest =
      interpolated lerp (im.weightAlong coords) (im.firstTap coords) (im.secondTap coords)
        (fun index => im.fetchFloat ⟨index 0, index 1, index 2⟩)
        ((List.range count).filter fun axis =>
          im.shape.kind.layerAxis? ≠ some axis).reverse index := by
  induction count generalizing index rest with
  | zero => simp [interpolated, hrest.position]
  | succ count ih =>
    rw [List.range_succ, List.map_append, List.foldl_append, List.filter_append,
      List.reverse_append]
    by_cases ha : im.shape.kind.layerAxis? = some count
    · -- the layer has been chosen and nothing is blended
      have hfixed : index count = im.layerOnly coords count := hlayer count (by omega) ha
      have htaps : im.tapsAlong coords count = .single (index count) := by
        rw [tapsAlong, if_pos ha, hfixed]
      have hbefore := ih index (index count :: rest) hrest.cons fun n hn => hlayer n (by omega)
      simpa [htaps, fetchPair, ha, Taps.single] using hbefore
    · have htaps : im.tapsAlong coords count =
          ⟨im.firstTap coords count, im.secondTap coords count,
            some (im.weightAlong coords count)⟩ :=
        if_neg ha
      have hbefore (i : UInt32) := ih (Function.update index count i) (i :: rest) (hrest.update i)
        fun n hn hn' => by
          rw [Function.update_of_ne hn.ne]
          exact hlayer n (by omega) hn'
      simp [htaps, fetchPair, ha, interpolated, hbefore]

variable {lerp : Rgba Single → Rgba Single → Single → Rgba Single}

theorem layerOnly_of_le {n : Nat} (hn : im.shape.kind.coordinateCount ≤ n) :
    im.layerOnly coords n = 0 := by
  apply if_neg
  rw [ImageKind.layerAxis?_eq_some_iff, List.getElem?_eq_none hn]
  simp

theorem filteredBy_cells (hcount : coords.length = im.shape.kind.coordinateCount) :
    im.filteredBy lerp (im.cells coords) = im.interpolate coords lerp := by
  have hend : Continues im.shape.kind.coordinateCount [] (im.layerOnly coords) :=
    fun n hn => layerOnly_of_le hn
  have hcorners :=
    blend_mapM_corners lerp (fun index => im.fetchFloat (.ofList index)) (im.cells coords)
  have haxes := foldl_fetchPair lerp _ (im.layerOnly coords) [] hend fun _ _ _ => rfl
  rw [← cells_eq_map_tapsAlong hcount] at haxes
  have hhead : im.filteredBy lerp (im.cells coords) =
      (fun cs => Color.float (cs.headD .transparent)) <$>
        (blend lerp (Taps.weights (im.cells coords)) <$>
          (Taps.corners (im.cells coords)).mapM fun index => im.fetchFloat (.ofList index)) := by
    rw [filteredBy]
    cases (Taps.corners (im.cells coords)).mapM fun index => im.fetchFloat (.ofList index) <;> rfl
  rw [hhead, hcorners, haxes, interpolate, checkCount, if_pos hcount, Functor.map_map]
  rfl

theorem length_weights_cells_le : (Taps.weights (im.cells coords)).length ≤ 3 := by
  have hcells : (im.cells coords).length ≤ im.shape.kind.coordinateCount := by
    rw [cells, List.length_map, List.length_zip]
    exact Nat.min_le_left _ _
  exact (List.length_filterMap_le _ _).trans (hcells.trans (ImageKind.coordinateCount_le _))

/-- Every linear read is the interpolation between the texels around the coordinates, for every
blend of two colors, and blending in place reads no slot after it has been overwritten. -/
theorem read_interpolates {kind : ImageKind} {size : ImageSize} {im : SampledImage}
    (hs : ImageShape.make kind size = .ok im.shape) (hf : im.sampler.filter = .linear)
    (coords : List Single) :
    im.read coords = im.interpolate coords Rgba.lerp ∧
      (∀ lerp, im.readSlots lerp coords = (im.interpolate coords lerp).mapError .image) ∧
      ∀ (lerp : Rgba Single → Rgba Single → Single → Rgba Single) weight slots count,
        2 * count ≤ slots.length → Slots.Undisturbed lerp weight slots count := by
  have h0 := ImageShape.along_pos hs
  refine ⟨?_, fun lerp => ?_, fun lerp weight slots count h => Slots.undisturbed lerp weight h⟩
  · by_cases hcount : coords.length = im.shape.kind.coordinateCount
    · rw [read_of_linear hf h0 hcount, filtered, filteredBy_cells hcount]
    · rw [read, interpolate, checkCount, if_neg hcount]
      rfl
  · by_cases hcount : coords.length = im.shape.kind.coordinateCount
    · rw [readSlots, taps_eq_cells hf h0, checkCount, if_pos hcount, ← filteredBy_cells hcount,
        ← filterSlots_eq length_weights_cells_le]
      simp only [hf]
      rfl
    · rw [readSlots, interpolate, checkCount, if_neg hcount]
      rfl

theorem read_interpolates_last :
    let im : SampledImage := ⟨⟨.planeArray, ⟨2, 2, 1, 3⟩⟩, .r, .float,
      ⟨.clampToEdge, .linear, .unnormalized⟩, fun p =>
        .ok (Bytes.ofNat 4 (p.x.toNat + 2 * p.y.toNat + 4 * p.z.toNat))⟩
    let coords : List Single := [.ofNat .single 1, .ofNat .single 1, .ofNat .single 1]
    ImageShape.make .planeArray ⟨2, 2, 1, 3⟩ = .ok im.shape ∧ im.sampler.filter = .linear ∧
      im.read coords = im.interpolate coords Rgba.lerp ∧
      im.readSlots (fun _ second _ => second) coords =
        .ok (.float ⟨.ofBits .single 7, .zero false, .zero false, .ofNat .single 1⟩) := by
  intro im coords
  have hs : ImageShape.make .planeArray ⟨2, 2, 1, 3⟩ = .ok im.shape := by decide
  have hf : im.sampler.filter = .linear := rfl
  obtain ⟨hread, hslots, -⟩ := read_interpolates hs hf coords
  have hlast : im.interpolate coords (fun _ second _ => second) =
      .ok (.float ⟨.ofBits .single 7, .zero false, .zero false, .ofNat .single 1⟩) := by
    decide +kernel
  refine ⟨hs, hf, hread, ?_⟩
  rw [hslots, hlast]
  rfl

end SampledImage

end Conformance
