import Mathlib
import Conformance.Proofs.Binary.Operations

namespace Conformance.Binary

variable {f : Format}

structure IsMagnitude (x : Binary f) : Prop where
  isNaN : x.isNaN = false
  isNegative : x.isNegative = false

theorem isMagnitude_nearest (num den : Nat) : (nearest f false num den).IsMagnitude :=
  ⟨isNaN_nearest .., isNegative_nearest ..⟩

theorem isMagnitude_zero : (zero false : Binary f).IsMagnitude := ⟨isNaN_zero _, isNegative_zero _⟩

theorem isMagnitude_infinity : (infinity false : Binary f).IsMagnitude :=
  ⟨isNaN_infinity _, isNegative_infinity _⟩

theorem isMagnitude_ofNat (n : Nat) : (ofNat f n).IsMagnitude := isMagnitude_nearest _ _

theorem isMagnitude_abs {x : Binary f} (h : x.isNaN = false) : x.abs.IsMagnitude :=
  ⟨by rwa [isNaN_abs], isNegative_abs x⟩

theorem isMagnitude_abs_or_infinity (x : Binary f) :
    (if x.abs.isNaN then infinity false else x.abs).IsMagnitude := by
  split_ifs with hn
  · exact isMagnitude_infinity
  · rw [isNaN_abs] at hn
    exact isMagnitude_abs (by simpa using hn)

namespace IsMagnitude

variable {x y : Binary f}

theorem code_le (h : x.IsMagnitude) : x.code ≤ f.infinityCode := (isNaN_eq_false_iff x).mp h.isNaN

theorem position (h : x.IsMagnitude) : x.position = x.code := by
  simp [Binary.position, h.isNegative]

theorem eq_of_code (hx : x.IsMagnitude) (hy : y.IsMagnitude) (h : x.code = y.code) : x = y :=
  ext_code (by rw [hx.isNegative, hy.isNegative]) h

theorem lt_iff (hx : x.IsMagnitude) (hy : y.IsMagnitude) : x.lt y ↔ x.code < y.code := by
  simp [Binary.lt, hx.isNaN, hy.isNaN, hx.position, hy.position]

theorem le_iff (hx : x.IsMagnitude) (hy : y.IsMagnitude) : x.le y ↔ x.code ≤ y.code := by
  simp [Binary.le, hx.isNaN, hy.isNaN, hx.position, hy.position]

theorem zero_lt_iff (hx : x.IsMagnitude) : (zero false).lt x ↔ 0 < x.code := by
  rw [isMagnitude_zero.lt_iff hx, code_zero]

theorem same_zero_iff (hx : x.IsMagnitude) : x.same (zero false) ↔ x.code = 0 := by
  simp [Binary.same, hx.isNaN, hx.position, isMagnitude_zero.position]

theorem larger (hx : x.IsMagnitude) (hy : y.IsMagnitude) : (x.larger y).IsMagnitude := by
  rw [Binary.larger]
  split_ifs
  · exact hy
  · exact hx

theorem code_larger (hx : x.IsMagnitude) (hy : y.IsMagnitude) :
    (x.larger y).code = max x.code y.code := by
  have h := hx.lt_iff hy
  rw [Binary.larger]
  rw [hx.isNaN, Bool.false_or]
  split_ifs with hl
  · have hc := h.mp hl
    omega
  · have hn : ¬ x.code < y.code := fun hc => hl (h.mpr hc)
    omega

theorem smaller (hx : x.IsMagnitude) (hy : y.IsMagnitude) : (x.smaller y).IsMagnitude := by
  rw [Binary.smaller]
  split_ifs
  · exact hy
  · exact hx

theorem code_smaller (hx : x.IsMagnitude) (hy : y.IsMagnitude) :
    (x.smaller y).code = min x.code y.code := by
  have h := hy.lt_iff hx
  rw [Binary.smaller, hx.isNaN, Bool.false_or]
  split_ifs with hl
  · have hc := h.mp hl
    omega
  · have hn : ¬ y.code < x.code := fun hc => hl (h.mpr hc)
    omega

theorem mul {x y : Binary f} (hx : x.IsMagnitude) (hy : y.IsMagnitude) (hxf : x.isFinite)
    (hyf : y.isFinite) : (x * y).IsMagnitude := by
  rw [mul_of_isFinite hxf hyf, hx.isNegative, hy.isNegative]
  exact isMagnitude_nearest ..

end IsMagnitude

theorem zero_le_ofNat (n : Nat) : (zero false).le (ofNat f n) := by
  rw [isMagnitude_zero.le_iff (isMagnitude_ofNat n), code_zero]
  exact Nat.zero_le _

theorem lt_eq_false {x y : Binary f} (h : y.position ≤ x.position) : x.lt y = false := by
  simp [lt, h]

theorem clamp_eq_self {x lo hi : Binary f} (hlo : lo.position ≤ x.position)
    (hhi : x.position ≤ hi.position) : x.clamp lo hi = x := by
  simp [clamp, lt_eq_false hlo, lt_eq_false hhi]

theorem position_one : (ofNat f 1).position = (ofNat f 1).code := (isMagnitude_ofNat 1).position

theorem code_minus_one : (ofInt f (-1)).code = (ofNat f 1).code := code_ofInt _

theorem position_minus_one : (ofInt f (-1)).position = -((ofNat f 1).code : Int) := by
  simp [position]

theorem position_bounds {x : Binary f} (h : x.code ≤ (ofNat f 1).code) :
    (ofInt f (-1)).position ≤ x.position ∧ x.position ≤ (ofNat f 1).position := by
  rw [position_one, position_minus_one, position]
  split <;> omega

theorem larger_minus_one {x : Binary f} (hn : x.isNaN = false) (h : x.code ≤ (ofNat f 1).code) :
    x.larger (ofInt f (-1)) = x := by
  simp [larger, hn, lt_eq_false (position_bounds h).1]

theorem clamp_signed {x : Binary f} (h : x.code ≤ (ofNat f 1).code) :
    x.clamp (ofInt f (-1)) (ofNat f 1) = x :=
  clamp_eq_self (position_bounds h).1 (position_bounds h).2

theorem clamp_unsigned {x : Binary f} (hs : x.isNegative = false) (h : x.code ≤ (ofNat f 1).code) :
    x.clamp (zero false) (ofNat f 1) = x := by
  have h0 : (zero false : Binary f).position ≤ x.position := by
    simp [position, hs]
  exact clamp_eq_self h0 (position_bounds h).2

end Conformance.Binary
