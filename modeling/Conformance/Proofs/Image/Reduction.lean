import Mathlib
import Conformance.Image.Reduction
import Conformance.Proofs.Blocks
import Conformance.Proofs.Image.Blending
import Conformance.Proofs.Returns

namespace Conformance

namespace Taps

theorem range_two_mul (n : Nat) :
    List.range (2 * n) = (List.range n).flatMap fun i => [2 * i, 2 * i + 1] := by
  induction n with
  | zero => rfl
  | succ n ih =>
    rw [Nat.mul_succ, List.range_succ, List.range_succ, ih, List.range_succ, List.flatMap_append,
      List.append_assoc]
    rfl

/-- The corners stand in the order of their numbers. -/
theorem corners_eq_map_corner (taps : List Taps) :
    corners taps = (List.range (2 ^ (weights taps).length)).map (corner taps) := by
  induction taps with
  | nil => rfl
  | cons t rest ih =>
    cases hw : t.weight with
    | none =>
      have hweights : weights (t :: rest) = weights rest := List.filterMap_cons_none hw
      rw [corners, ih, List.flatMap_map, hweights, List.map_eq_flatMap]
      simp [corner, hw]
    | some w =>
      have hweights : weights (t :: rest) = w :: weights rest := List.filterMap_cons_some hw
      have hodd (i : Nat) : (2 * i + 1) / 2 = i := by omega
      rw [corners, ih, List.flatMap_map, hweights, List.length_cons, pow_succ', range_two_mul,
        List.map_flatMap]
      simp [corner, hw, hodd]

end Taps

namespace Slots

variable {α : Type} (lerp : α → α → Single → α)

def Undisturbed (weight : Single) (slots : List α) (count : Nat) : Prop :=
  ∀ j < count, ∃ state, blendPairs lerp weight slots j = .ok state ∧
    state[2 * j]? = slots[2 * j]? ∧ state[2 * j + 1]? = slots[2 * j + 1]?

variable {lerp} {weight : Single} {slots : List α} {count : Nat}

theorem blendPairs_succ (count : Nat) :
    blendPairs lerp weight slots (count + 1) =
      blendPairs lerp weight slots count >>= fun state => blendPair lerp weight state count := by
  rw [blendPairs, List.range_succ, List.foldlM_append]
  simp [blendPairs]

theorem blendPairs_append {ds : List α} :
    ∀ {cs : List α}, Even cs.length → Conformance.blendPairs lerp weight (cs ++ ds) =
      Conformance.blendPairs lerp weight cs ++ Conformance.blendPairs lerp weight ds
  | [], _ => rfl
  | [_], h => by simp at h
  | first :: second :: rest, h => by
    have hrest : Even rest.length := by simpa [Nat.even_add] using h
    simp only [List.cons_append, Conformance.blendPairs, blendPairs_append hrest]

theorem blendPairs_take_succ (h : 2 * count + 1 < slots.length) :
    Conformance.blendPairs lerp weight (slots.take (2 * (count + 1))) =
      Conformance.blendPairs lerp weight (slots.take (2 * count)) ++
        [lerp slots[2 * count] slots[2 * count + 1] weight] := by
  have htake : slots.take (2 * (count + 1)) =
      slots.take (2 * count) ++ [slots[2 * count], slots[2 * count + 1]] := by
    rw [Nat.mul_succ, List.take_succ_eq_append_getElem h,
      List.take_succ_eq_append_getElem (by omega), List.append_assoc]
    rfl
  have heven : Even (slots.take (2 * count)).length := by
    rw [List.length_take_of_le (by omega)]
    exact even_two_mul count
  rw [htake, blendPairs_append heven]
  rfl

/-- A step reads the slots of its pair and writes the slot of its number. -/
theorem blendPair_eq {first second : α} {j : Nat} (h0 : slots[2 * j]? = some first)
    (h1 : slots[2 * j + 1]? = some second) :
    blendPair lerp weight slots j = .ok (slots.set j (lerp first second weight)) := by
  have hj : j < slots.length := by
    have hlt := (List.getElem?_eq_some_iff.mp h0).1
    omega
  rw [blendPair, read, read, h0, h1]
  exact if_pos hj

theorem getElem?_rest {written : List α} {i j : Nat} (hw : written.length = j) (hi : j ≤ i) :
    (written ++ slots.drop j)[i]? = slots[i]? := by
  rw [List.getElem?_append_right (hw.trans_le hi), hw, List.getElem?_drop, Nat.add_sub_cancel' hi]

theorem length_written (lerp : α → α → Single → α) (weight : Single)
    (h : 2 * count ≤ slots.length) :
    (Conformance.blendPairs lerp weight (slots.take (2 * count))).length = count := by
  rw [length_blendPairs, List.length_take_of_le h, Nat.mul_div_cancel_left _ two_pos]

/-- After `count` steps the first slots hold the blended pairs and the others are as before. -/
theorem blendPairs_eq (lerp : α → α → Single → α) (weight : Single) (h : 2 * count ≤ slots.length) :
    blendPairs lerp weight slots count =
      .ok (Conformance.blendPairs lerp weight (slots.take (2 * count)) ++ slots.drop count) := by
  induction count with
  | zero => rfl
  | succ count ih =>
    have hlt : 2 * count + 1 < slots.length := by omega
    have hwritten := length_written lerp weight (by omega : 2 * count ≤ slots.length)
    set written := Conformance.blendPairs lerp weight (slots.take (2 * count)) with hw
    -- step `count` reads from slot `2 * count` on, behind the `count` slots written so far
    have hread {i : Nat} (hi : count ≤ i) (hi' : i < slots.length) :
        (written ++ slots.drop count)[i]? = some slots[i] := by
      rw [getElem?_rest hwritten hi, List.getElem?_eq_getElem hi']
    rw [blendPairs_succ, ih (by omega), blendPairs_take_succ hlt, ← hw,
      ← set_append_drop hwritten (by omega)]
    exact blendPair_eq (hread (by omega) (by omega)) (hread (by omega) hlt)

theorem undisturbed (lerp : α → α → Single → α) (weight : Single) (h : 2 * count ≤ slots.length) :
    Undisturbed lerp weight slots count := by
  intro j hj
  have hle : 2 * j ≤ slots.length := by omega
  have hwritten := length_written lerp weight hle
  exact ⟨_, blendPairs_eq lerp weight hle, getElem?_rest hwritten (by omega),
    getElem?_rest hwritten (by omega)⟩

theorem blend_eq (lerp : α → α → Single → α) {weights : List Single} {colors : List α}
    (h : colors.length = 2 ^ weights.length) (rest : List α) :
    ∃ left, blend lerp weights (colors ++ rest) (2 ^ weights.length) =
      .ok (Conformance.blend lerp weights colors ++ left) := by
  induction weights generalizing colors rest with
  | nil => exact ⟨rest, rfl⟩
  | cons w ws ih =>
    have hhalf : 2 ^ (w :: ws).length / 2 = 2 ^ ws.length := by
      rw [List.length_cons, pow_succ, Nat.mul_div_cancel _ two_pos]
    have hdouble : 2 * 2 ^ ws.length = colors.length := by rw [h, List.length_cons, pow_succ']
    have hroom : 2 * 2 ^ ws.length ≤ (colors ++ rest).length := by
      rw [List.length_append]
      omega
    have hpairs := blendPairs_eq lerp w hroom
    have hnext : (Conformance.blendPairs lerp w colors).length = 2 ^ ws.length := by
      rw [length_blendPairs, ← hdouble, Nat.mul_div_cancel_left _ two_pos]
    rw [hdouble, List.take_left] at hpairs
    obtain ⟨left, hleft⟩ := ih hnext ((colors ++ rest).drop (2 ^ ws.length))
    refine ⟨left, ?_⟩
    rw [blend, hhalf, hpairs, blend_cons]
    exact hleft

end Slots

namespace SampledImage

variable {im : SampledImage} {lerp : Rgba Single → Rgba Single → Single → Rgba Single}
  {taps : List Taps}

theorem fetchSlots_eq (h : (Taps.weights taps).length ≤ 3) :
    im.fetchSlots taps (2 ^ (Taps.weights taps).length) =
      (((Taps.corners taps).mapM fun index => im.fetchFloat (.ofList index)).mapError
          SlotFault.image >>=
        fun colors => .ok (colors ++ List.replicate
          (Slots.capacity - 2 ^ (Taps.weights taps).length) .transparent)) := by
  have hroom : ¬Slots.capacity < 2 ^ (Taps.weights taps).length := by
    rw [not_lt]
    exact Nat.pow_le_pow_right two_pos h
  rw [fetchSlots, if_neg hroom, mapM_mapError, Taps.corners_eq_map_corner, List.mapM_map]
  rfl

/-- The loop over the slots gives the same color and the same fault as blending new lists: a slot is
overwritten only after it has been read for the last time. -/
theorem filterSlots_eq (h : (Taps.weights taps).length ≤ 3) :
    im.filterSlots lerp taps = (im.filteredBy lerp taps).mapError .image := by
  rw [filterSlots, filteredBy]
  simp only [Nat.one_shiftLeft, fetchSlots_eq h]
  cases hcolors : (Taps.corners taps).mapM fun index => im.fetchFloat (.ofList index) with
  | error e => rfl
  | ok colors =>
    have hlength : colors.length = 2 ^ (Taps.weights taps).length := by
      rw [← Taps.length_corners]
      exact (mapM_eq_ok_iff.mp hcolors).length_eq.symm
    obtain ⟨left, hleft⟩ := Slots.blend_eq lerp hlength
      (List.replicate (Slots.capacity - 2 ^ (Taps.weights taps).length) .transparent)
    cases colors with
    | nil => exact absurd hlength (Nat.two_pow_pos _).ne
    | cons first rest =>
      obtain ⟨d, hd⟩ := exists_blend lerp hlength
      rw [hd] at hleft
      change (Slots.blend lerp (Taps.weights taps) _ _ >>= _) = _
      rw [hleft]
      change _ = Except.ok (Color.float ((blend lerp (Taps.weights taps) (first :: rest)).headD _))
      rw [hd]
      rfl

end SampledImage

end Conformance
