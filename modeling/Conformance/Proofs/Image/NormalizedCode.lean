import Mathlib
import Conformance.Proofs.Binary.Nearest
import Conformance.Proofs.Image.Saturation

namespace Conformance

open Binary

/-- `n` is the whole number nearest to `q`, of two the even one. -/
structure IsNearestWhole (n : ℤ) (q : ℚ) : Prop where
  near : |q - n| ≤ 1 / 2
  even : |q - n| = 1 / 2 → Even n

namespace IsNearestWhole

variable {n : ℤ} {q : ℚ}

theorem neg (h : IsNearestWhole n q) : IsNearestWhole (-n) (-q) := by
  have hsame : |-q - (-n : ℤ)| = |q - n| := by
    rw [← abs_neg]
    push_cast
    ring_nf
  exact ⟨hsame ▸ h.near, fun htie => (h.even (hsame ▸ htie)).neg⟩

/-- Whole bounds are not passed by rounding. -/
theorem le (h : IsNearestWhole n q) {m : ℤ} (hm : q ≤ m) : n ≤ m := by
  have hnear := (abs_le.mp h.near).1
  have hlt : (n : ℚ) < (m + 1 : ℤ) := by
    push_cast
    linarith
  exact Int.lt_add_one_iff.mp (by exact_mod_cast hlt)

theorem ge (h : IsNearestWhole n q) {m : ℤ} (hm : m ≤ q) : m ≤ n := by
  have hle := h.neg.le (m := -m) (by push_cast; linarith)
  omega

end IsNearestWhole

theorem isNearestWhole_roundHalfEven (num : Nat) {den : Nat} (hd : 0 < den) :
    IsNearestWhole (roundHalfEven num den) (num / den) := by
  obtain ⟨hle, hge⟩ := roundHalfEven_error num hd
  have heven := even_of_halfway num hd
  set r := roundHalfEven num den
  set q : ℚ := num / den with hq
  have hden : (0 : ℚ) < den := by exact_mod_cast hd
  have hnum : (num : ℚ) = q * den := by rw [hq, div_mul_cancel₀ _ hden.ne']
  constructor
  · have hle' : (2 * (r * den) : ℚ) ≤ 2 * (q * den) + den := hnum ▸ by exact_mod_cast hle
    have hge' : (2 * (q * den) : ℚ) ≤ 2 * (r * den) + den := hnum ▸ by exact_mod_cast hge
    rw [Int.cast_natCast, abs_le]
    constructor <;> refine le_of_mul_le_mul_right ?_ hden <;> linarith
  · intro htie
    rw [Int.cast_natCast, abs_eq (by norm_num)] at htie
    rw [Int.even_coe_nat, Nat.even_iff]
    apply heven
    refine htie.symm.imp (fun h => ?_) fun h => ?_
    · have hup : (2 * (r * den) : ℚ) = 2 * num + den := by
        rw [hnum]
        linear_combination -2 * den * h
      exact_mod_cast hup
    · have hdown : (2 * num : ℚ) = 2 * (r * den) + den := by
        rw [hnum]
        linear_combination 2 * den * h
      exact_mod_cast hdown

namespace Binary

variable {f : Format} {x lo hi : Binary f}

theorem isFinite_of_number_between (hx : x.isNaN = false) {p q : ℚ}
    (hp : ((p : WithTop ℚ) : WithBot (WithTop ℚ)) ≤ x.number)
    (hq : x.number ≤ ((q : WithTop ℚ) : WithBot (WithTop ℚ))) : x.isFinite := by
  by_contra hnot
  have hi : x.isInfinite := by
    by_contra hi
    exact hnot (isFinite_of_class hx (by simpa using hi))
  rw [number, if_pos hi] at hp hq
  split_ifs at hp hq
  · exact absurd hp (not_le_of_gt (WithBot.bot_lt_coe _))
  · exact absurd (WithBot.coe_le_coe.mp hq) (not_le_of_gt (WithTop.coe_lt_top _))

theorem clamp_number (hx : x.isNaN = false) (hlo : lo.isFinite) (hhi : hi.isFinite)
    (h : lo.value ≤ hi.value) :
    (x.clamp lo hi).isFinite ∧ (x.clamp lo hi).number = max lo.number (min x.number hi.number) := by
  have hends : lo.number ≤ hi.number := by
    rw [number_of_isFinite hlo, number_of_isFinite hhi]
    exact_mod_cast h
  have hlo' := isNaN_of_isFinite hlo
  have hhi' := isNaN_of_isFinite hhi
  rw [clamp]
  split_ifs with hbelow habove
  · rw [lt_iff_number_lt hx hlo'] at hbelow
    exact ⟨hlo, by rw [min_eq_left (hbelow.le.trans hends), max_eq_left hbelow.le]⟩
  · rw [lt_iff_number_lt hhi' hx] at habove
    exact ⟨hhi, by rw [min_eq_right habove.le, max_eq_right hends]⟩
  · rw [lt_iff_number_lt hx hlo', not_lt] at hbelow
    rw [lt_iff_number_lt hhi' hx, not_lt] at habove
    refine ⟨?_, by rw [min_eq_left habove, max_eq_right hbelow]⟩
    rw [number_of_isFinite hlo] at hbelow
    rw [number_of_isFinite hhi] at habove
    exact isFinite_of_number_between hx hbelow habove

end Binary

namespace Texel

/-- The code of a value: that of a NaN is zero, any other is nearest to the largest code times what
the value stands for, brought between the ends. -/
structure IsCode (lowest : ℚ) (largest : Nat) (v : Single) (code : ℤ) : Prop where
  nan : v.isNaN → code = 0
  nearest : v.isNaN = false → ∃ q : ℚ,
    ((q : WithTop ℚ) : WithBot (WithTop ℚ)) =
      max ((lowest : WithTop ℚ) : WithBot (WithTop ℚ))
        (min v.number (((1 : ℚ) : WithTop ℚ) : WithBot (WithTop ℚ))) ∧
    IsNearestWhole code (largest * q)

/-- Quantization rounds the exact product. -/
theorem quantize_nearest {v : Single} {m : Nat} (hv : v.isFinite)
    (hm : m < 2 * Format.single.binade) :
    IsNearestWhole (quantize m v) (m * v.value) := by
  have hround := isNearestWhole_roundHalfEven (Format.single.units v.code * m)
    Format.single.unity_pos
  rw [quantize_eq hv hm]
  split_ifs with hs
  · rw [value_of_isNegative hs]
    convert hround.neg using 1
    push_cast
    ring
  · rw [value_of_not_isNegative (by simpa using hs)]
    convert hround using 1
    push_cast
    ring

theorem value_one : (ofNat .single 1).value = 1 := by
  exact_mod_cast value_ofNat (f := .single) (n := 1) (by decide)

theorem isFinite_minus_one : (ofInt .single (-1)).isFinite := isFinite_of_code_le code_minus_one.le

theorem value_minus_one : (ofInt .single (-1)).value = -1 := by
  have hunity : (Format.single.unity : ℚ) ≠ 0 := by exact_mod_cast Format.single.unity_pos.ne'
  rw [value_of_isNegative (by rw [isNegative_ofInt]; rfl), code_minus_one, units_one,
    div_self hunity]

section Quantized

variable {v : Single} {m : Nat}

theorem isCode_quantize (lo : Single) (hv : v.isNaN = false) (hlo : lo.isFinite)
    (hle : lo.value ≤ 1)
    (hm : m < 2 * Format.single.binade) :
    IsCode lo.value m v (quantize m (v.clamp lo (.ofNat .single 1))) where
  nan := fun h => absurd h (by simp [hv])
  nearest := by
    intro _
    have hone : (ofNat .single 1).isFinite := isFinite_ofNat (by decide)
    obtain ⟨hfinite, hnumber⟩ := clamp_number hv hlo hone (value_one ▸ hle)
    rw [number_of_isFinite hfinite, number_of_isFinite hlo, number_of_isFinite hone, value_one]
      at hnumber
    exact ⟨_, hnumber, quantize_nearest hfinite hm⟩

theorem IsCode.bounds {lowest : ℚ} {code : ℤ} (h : IsCode lowest m v code) {l : ℤ}
    (hl : lowest * m = l) (hl0 : l ≤ 0) (h1 : lowest ≤ 1) : l ≤ code ∧ code ≤ m := by
  have hm0 : (0 : ℚ) ≤ m := Nat.cast_nonneg m
  cases hnan : v.isNaN with
  | true =>
    rw [h.nan hnan]
    exact ⟨hl0, Int.natCast_nonneg m⟩
  | false =>
    obtain ⟨q, hq, hnear⟩ := h.nearest hnan
    have hlow : lowest ≤ q := by
      have hle := (le_max_left _ _).trans_eq hq.symm
      exact_mod_cast hle
    have hhigh : q ≤ 1 := by
      have hle : ((q : WithTop ℚ) : WithBot (WithTop ℚ)) ≤ ((1 : ℚ) : WithTop ℚ) := by
        rw [hq]
        exact max_le (by exact_mod_cast h1) (min_le_right _ _)
      exact_mod_cast hle
    refine ⟨hnear.ge ?_, hnear.le ?_⟩
    · rw [← hl, mul_comm]
      exact mul_le_mul_of_nonneg_left hlow hm0
    · rw [Int.cast_natCast]
      exact mul_le_of_le_one_right hm0 hhigh

end Quantized

section Fields

variable {bits : Nat} (v : Single)

theorem isCode_unorm (hb : 0 < bits) (hs : bits ≤ 24) :
    IsCode 0 (maxCode bits) v (toUnorm bits v) := by
  obtain ⟨-, hm⟩ := maxCode_bounds hb hs
  rw [toUnorm]
  split_ifs with hnan
  · exact ⟨fun _ => rfl, fun h => absurd hnan (by simp [h])⟩
  · rw [Bool.not_eq_true] at hnan
    have hcode := isCode_quantize (.zero false) hnan (isFinite_zero _) (by simp) hm
    rw [value_zero] at hcode
    have hpos := (hcode.bounds (l := 0) (by simp) le_rfl (by simp)).1
    rwa [Int.toNat_of_nonneg hpos]

theorem toUnorm_lt (hb : 0 < bits) (hs : bits ≤ 24) : toUnorm bits v < 2 ^ bits := by
  have hle := ((isCode_unorm v hb hs).bounds (l := 0) (by simp) le_rfl (by simp)).2
  have hpos := Nat.two_pow_pos bits
  rw [maxCode_eq] at hle
  omega

theorem isCode_unsignedWord (hb : 0 < bits) (hs : bits ≤ 24) :
    IsCode 0 (maxCode bits) v (unsignedWord bits (toUnorm bits v)) := by
  rw [unsignedWord_eq, Nat.mod_eq_of_lt (toUnorm_lt v hb hs)]
  exact isCode_unorm v hb hs

theorem signedWord_mod (bits word : Nat) :
    signedWord bits (word % 2 ^ bits) = signedWord bits word := by
  rw [signedWord, signedWord, BitVec.toInt_ofNat', BitVec.toInt_ofNat', Int.natCast_emod,
    Int.emod_bmod]

/-- A signed code stands in two's complement in the low bits of its word. -/
theorem isCode_signedWord (hb : 1 < bits) (hs : bits ≤ 24) :
    IsCode (-1) (maxCode (bits - 1)) v (signedWord bits (toSnorm bits v)) := by
  obtain ⟨-, hm⟩ := maxCode_bounds (by omega : 0 < bits - 1) (by omega)
  rw [toSnorm]
  split_ifs with hnan
  · have hzero : signedWord bits 0 = 0 := by simp [signedWord]
    rw [hzero]
    exact ⟨fun _ => rfl, fun h => absurd hnan (by simp [h])⟩
  · rw [Bool.not_eq_true] at hnan
    have hcode := isCode_quantize (.ofInt .single (-1)) hnan isFinite_minus_one
      (by rw [value_minus_one]; norm_num) hm
    rw [value_minus_one] at hcode
    obtain ⟨hl, hu⟩ := hcode.bounds (l := -(maxCode (bits - 1) : ℤ)) (by push_cast; ring)
      (by omega) (by norm_num)
    have hmax := natCast_maxCode (bits - 1)
    have hlow := toNat_emod_word (by omega : bits ≤ 32)
      (quantize (maxCode (bits - 1)) (v.clamp (.ofInt .single (-1)) (.ofNat .single 1)))
    dsimp only
    rwa [← signedWord_mod, signedWord_eq (by omega) (by omega) (by omega) hlow]

end Fields

end Texel

end Conformance
