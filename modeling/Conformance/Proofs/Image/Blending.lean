import Mathlib
import Conformance.Image.Sampling
import Conformance.Proofs.Binary.Results

namespace Conformance

open Binary

namespace Taps

def Has (t : Taps) (i : UInt32) : Prop := i = t.first ∨ i = t.second

theorem mem_corners {taps : List Taps} {index : List UInt32} (h : index ∈ corners taps) :
    List.Forall₂ Has taps index := by
  induction taps generalizing index with
  | nil =>
    rw [List.mem_singleton.mp h]
    exact .nil
  | cons t rest ih =>
    obtain ⟨tail, htail, hindex⟩ := List.mem_flatMap.mp h
    split_ifs at hindex
    · obtain rfl | rfl := by simpa using hindex
      · exact .cons (.inl rfl) (ih htail)
      · exact .cons (.inr rfl) (ih htail)
    · obtain rfl := List.mem_singleton.mp hindex
      exact .cons (.inl rfl) (ih htail)

theorem length_corners (taps : List Taps) : (corners taps).length = 2 ^ (weights taps).length := by
  induction taps with
  | nil => rfl
  | cons t rest ih =>
    cases hw : t.weight with
    | none =>
      have hweights : weights (t :: rest) = weights rest := List.filterMap_cons_none hw
      simp [corners, hw, hweights, List.length_flatMap, ih]
    | some w =>
      have hweights : weights (t :: rest) = w :: weights rest := List.filterMap_cons_some hw
      simp [corners, hw, hweights, List.length_flatMap, ih, pow_succ]

theorem head_corners (taps : List Taps) : ∃ rest, corners taps = taps.map first :: rest := by
  induction taps with
  | nil => exact ⟨[], rfl⟩
  | cons t rest ih =>
    obtain ⟨tail, htail⟩ := ih
    rw [corners, htail, List.flatMap_cons]
    split_ifs <;> exact ⟨_, rfl⟩

end Taps

section Blend

variable {α : Type} {lerp : α → α → Single → α} {P : α → Prop}

theorem blend_cons (w : Single) (ws : List Single) (cs : List α) :
    blend lerp (w :: ws) cs = blend lerp ws (blendPairs lerp w cs) := rfl

theorem length_blendPairs (w : Single) :
    ∀ cs : List α, (blendPairs lerp w cs).length = cs.length / 2
  | [] | [_] => by simp [blendPairs]
  | first :: second :: rest => by
    simp only [blendPairs, List.length_cons, length_blendPairs w rest]
    omega

theorem mem_blendPairs {w : Single} {b : α} :
    ∀ {cs : List α}, b ∈ blendPairs lerp w cs → ∃ c ∈ cs, ∃ d ∈ cs, b = lerp c d w
  | [], h | [_], h => by simp [blendPairs] at h
  | first :: second :: rest, h => by
    rw [blendPairs] at h
    obtain rfl | hrest := List.mem_cons.mp h
    · exact ⟨first, by simp, second, by simp, rfl⟩
    · obtain ⟨c, hc, d, hd, hb⟩ := mem_blendPairs hrest
      exact ⟨c, by simp [hc], d, by simp [hd], hb⟩

/-- What every blend of two colors keeps is kept by all blends together. -/
theorem forall_blend {ws : List Single} {cs : List α} (hcs : ∀ c ∈ cs, P c)
    (hstep : ∀ w ∈ ws, ∀ c d, P c → P d → P (lerp c d w)) : ∀ c ∈ blend lerp ws cs, P c := by
  induction ws generalizing cs with
  | nil => exact hcs
  | cons w ws ih =>
    rw [blend_cons]
    refine ih (fun b hb => ?_) fun v hv => hstep v (by simp [hv])
    obtain ⟨c, hc, d, hd, rfl⟩ := mem_blendPairs hb
    exact hstep w (by simp) c d (hcs c hc) (hcs d hd)

variable (lerp) in
/-- A color is left, for which holds what every blend of two colors keeps for the first of them. -/
theorem blend_spec {Q : α → Prop} {ws : List Single} {first : α} {rest : List α}
    (h : (first :: rest).length = 2 ^ ws.length) (hcs : ∀ c ∈ first :: rest, P c) (hfirst : Q first)
    (hstep : ∀ w ∈ ws, ∀ c d, P c → P d → P (lerp c d w))
    (hhead : ∀ w ∈ ws, ∀ c d, P c → P d → Q c → Q (lerp c d w)) :
    ∃ c, blend lerp ws (first :: rest) = [c] ∧ P c ∧ Q c := by
  induction ws generalizing first rest with
  | nil =>
    obtain rfl : rest = [] := by simpa using h
    exact ⟨first, rfl, hcs first (by simp), hfirst⟩
  | cons w ws ih =>
    have hpow : 2 ^ (w :: ws).length = 2 ^ ws.length * 2 := pow_succ 2 ws.length
    rw [hpow] at h
    cases rest with
    | nil =>
      simp only [List.length_singleton] at h
      omega
    | cons second rest =>
      have hpairs : blendPairs lerp w (first :: second :: rest) =
          lerp first second w :: blendPairs lerp w rest := rfl
      rw [blend_cons, hpairs]
      apply ih
      · rw [← hpairs, length_blendPairs, h, Nat.mul_div_cancel _ two_pos]
      · intro b hb
        obtain ⟨c, hc, d, hd, rfl⟩ := mem_blendPairs (hpairs ▸ hb)
        exact hstep w (by simp) c d (hcs c hc) (hcs d hd)
      · exact hhead w (by simp) first second (hcs first (by simp)) (hcs second (by simp)) hfirst
      · exact fun v hv => hstep v (by simp [hv])
      · exact fun v hv => hhead v (by simp [hv])

variable (lerp) in
theorem exists_blend {ws : List Single} {first : α} {rest : List α}
    (h : (first :: rest).length = 2 ^ ws.length) : ∃ c, blend lerp ws (first :: rest) = [c] := by
  obtain ⟨c, hc, -⟩ := blend_spec lerp (P := fun _ => True) (Q := fun _ => True) h
    (by simp) trivial (by simp) (by simp)
  exact ⟨c, hc⟩

end Blend

namespace Binary

variable {x y w : Single}

/-- Nothing is added to the first end if the ends are equal or the weight is nothing. -/
theorem lerp_start (hx : x.isFinite) (hdiff : (y - x).isFinite) (hw : w.isFinite)
    (h : (y - x).value * w.value = 0) :
    (x + (y - x) * w).isFinite ∧ (x + (y - x) * w).value = x.value := by
  obtain ⟨hscaled, hnothing⟩ := mul_nothing hdiff hw h
  exact add_nothing hx hscaled hnothing

theorem isNaN_lerp (h : x.isNaN ∨ w.isNaN) : (x + (y - x) * w).isNaN := by
  apply isNaN_add_of_isNaN
  exact h.imp_right fun hw => isNaN_mul_of_isNaN (.inr hw)

end Binary

namespace Rgba

theorem get_lerp (c d : Rgba Single) (w : Single) (ch : Channel) :
    (lerp c d w).get ch = c.get ch + (d.get ch - c.get ch) * w := by
  cases ch <;> rfl

def Same (c d : Rgba Single) : Prop := ∀ ch, (c.get ch).same (d.get ch)

def IsNaN (c : Rgba Single) : Prop := ∀ ch, (c.get ch).isNaN

theorem isNaN_lerp {c d : Rgba Single} {w : Single} (h : c.IsNaN ∨ w.isNaN) :
    (lerp c d w).IsNaN := by
  intro ch
  rw [get_lerp]
  exact Binary.isNaN_lerp (h.imp_left fun hc => hc ch)

theorem isNaN_blend {ws : List Single} (cs : List (Rgba Single)) (h : ∃ w ∈ ws, w.isNaN) :
    ∀ c ∈ blend lerp ws cs, c.IsNaN := by
  induction ws generalizing cs with
  | nil => simp at h
  | cons w ws ih =>
    rw [blend_cons]
    by_cases hw : w.isNaN
    · refine forall_blend (fun b hb => ?_) fun v _ c d hc _ => isNaN_lerp (.inl hc)
      obtain ⟨c, -, d, -, rfl⟩ := mem_blendPairs hb
      exact isNaN_lerp (.inr hw)
    · obtain ⟨v, hv, hnan⟩ := h
      obtain rfl | hrest := List.mem_cons.mp hv
      · exact absurd hnan hw
      · exact ih _ ⟨v, hrest, hnan⟩

end Rgba

end Conformance
