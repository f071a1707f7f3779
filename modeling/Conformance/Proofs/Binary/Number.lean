import Mathlib
import Conformance.Proofs.Binary.Widening

namespace Conformance.Binary

variable {f g : Format}

def value (x : Binary f) : ℚ := x.signedUnits / f.unity

/-- What a datum that is no NaN stands for. -/
def number (x : Binary f) : WithBot (WithTop ℚ) :=
  if x.isInfinite then if x.isNegative then ⊥ else ⊤
  else ((x.value : WithTop ℚ) : WithBot (WithTop ℚ))

theorem number_of_isFinite {x : Binary f} (h : x.isFinite) :
    x.number = ((x.value : WithTop ℚ) : WithBot (WithTop ℚ)) := by
  simp [number, isInfinite_of_isFinite h]

theorem signedUnits_lt_iff (x y : Binary f) :
    x.signedUnits < y.signedUnits ↔ x.position < y.position := by
  have hlt := f.units_strictMono.lt_iff_lt (a := x.code) (b := y.code)
  have hgt := f.units_strictMono.lt_iff_lt (a := y.code) (b := x.code)
  have hx := f.units_eq_zero_iff (c := x.code)
  have hy := f.units_eq_zero_iff (c := y.code)
  unfold signedUnits position
  cases x.isNegative <;> cases y.isNegative <;>
    simp only [if_true, Bool.false_eq_true, if_false] <;>
    omega

theorem value_lt_iff (x y : Binary f) : x.value < y.value ↔ x.position < y.position := by
  have hu : (0 : ℚ) < f.unity := by exact_mod_cast f.unity_pos
  rw [value, value, div_lt_div_iff_of_pos_right hu, Int.cast_lt, signedUnits_lt_iff]

theorem position_of_isInfinite {x : Binary f} (h : x.isInfinite) :
    x.position = if x.isNegative then -(f.infinityCode : Int) else f.infinityCode := by
  have hc : x.code = f.infinityCode := by simpa [isInfinite] using h
  rw [position, hc]

theorem position_bounds_of_isFinite {x : Binary f} (h : x.isFinite) :
    -(f.infinityCode : Int) < x.position ∧ x.position < f.infinityCode := by
  have hc := (isFinite_iff x).mp h
  unfold position
  split <;> omega

theorem number_lt_iff {x y : Binary f} (hx : x.isNaN = false) (hy : y.isNaN = false) :
    x.number < y.number ↔ x.position < y.position := by
  have hpos := f.infinityCode_pos
  by_cases hxi : x.isInfinite <;> by_cases hyi : y.isInfinite
  · rw [number, number, if_pos hxi, if_pos hyi, position_of_isInfinite hxi,
      position_of_isInfinite hyi]
    cases x.isNegative <;> cases y.isNegative <;> simp
    omega
  · have hyf := isFinite_of_class hy (by simpa using hyi)
    have hb := position_bounds_of_isFinite hyf
    rw [number_of_isFinite hyf, number, if_pos hxi, position_of_isInfinite hxi]
    cases x.isNegative <;> simp <;> omega
  · have hxf := isFinite_of_class hx (by simpa using hxi)
    have hb := position_bounds_of_isFinite hxf
    have htop : ((x.value : WithTop ℚ) : WithBot (WithTop ℚ)) < ⊤ :=
      WithBot.coe_lt_coe.mpr (WithTop.coe_lt_top _)
    rw [number_of_isFinite hxf, number, if_pos hyi, position_of_isInfinite hyi]
    cases y.isNegative <;> simp [htop] <;> omega
  · have hxf := isFinite_of_class hx (by simpa using hxi)
    have hyf := isFinite_of_class hy (by simpa using hyi)
    rw [number_of_isFinite hxf, number_of_isFinite hyf, WithBot.coe_lt_coe, WithTop.coe_lt_coe,
      value_lt_iff]

theorem le_iff_number_le {x y : Binary f} (hx : x.isNaN = false) (hy : y.isNaN = false) :
    x.le y ↔ x.number ≤ y.number := by
  rw [← not_lt, number_lt_iff hy hx, not_lt]
  simp [le, hx, hy]

theorem lt_iff_number_lt {x y : Binary f} (hx : x.isNaN = false) (hy : y.isNaN = false) :
    x.lt y ↔ x.number < y.number := by
  rw [number_lt_iff hx hy]
  simp [lt, hx, hy]

theorem lt_iff_value_lt {x y : Binary f} (hx : x.isFinite) (hy : y.isFinite) :
    x.lt y ↔ x.value < y.value := by
  rw [value_lt_iff]
  simp [lt, isNaN_of_isFinite hx, isNaN_of_isFinite hy]

theorem le_iff_value_le {x y : Binary f} (hx : x.isFinite) (hy : y.isFinite) :
    x.le y ↔ x.value ≤ y.value := by
  rw [← not_lt, value_lt_iff, not_lt]
  simp [le, isNaN_of_isFinite hx, isNaN_of_isFinite hy]

theorem value_convert (h : f.Embeds g) {x : Binary f} (hx : x.isFinite) :
    (x.convert g).value = x.value := by
  have hsign := isNegative_convert g (isNaN_of_isFinite hx)
  have hp : (2 ^ (g.scale - f.scale) : ℚ) ≠ 0 := by positivity
  have hu : (f.unity : ℚ) ≠ 0 := by exact_mod_cast f.unity_pos.ne'
  have hs : (x.convert g).signedUnits = x.signedUnits * 2 ^ (g.scale - f.scale) := by
    rw [signedUnits, signedUnits, hsign, units_convert h hx]
    split <;> push_cast <;> ring
  rw [value, value, hs, Format.unity_widened h]
  push_cast
  field_simp

theorem isNaN_convert (h : f.Embeds g) {x : Binary f} (hx : x.isNaN = false) :
    (x.convert g).isNaN = false := by
  by_cases hi : x.isInfinite
  · rw [convert_of_code g (by simpa [isInfinite] using hi)]
    exact isNaN_infinity _
  · exact isNaN_of_isFinite (isFinite_convert h (isFinite_of_class hx (by simpa using hi)))

/-- A wider format holds the same numbers. -/
theorem number_convert (h : f.Embeds g) {x : Binary f} (hx : x.isNaN = false) :
    (x.convert g).number = x.number := by
  by_cases hi : x.isInfinite
  · have hc : x.code = f.infinityCode := by simpa [isInfinite] using hi
    have hg : (infinity x.isNegative : Binary g).isInfinite := by simp [isInfinite]
    rw [convert_of_code g hc, number, number, if_pos hg, if_pos hi, isNegative_infinity]
  · have hf := isFinite_of_class hx (by simpa using hi)
    rw [number_of_isFinite hf, number_of_isFinite (isFinite_convert h hf), value_convert h hf]

end Conformance.Binary
