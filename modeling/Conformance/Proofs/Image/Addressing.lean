import Mathlib
import Conformance.Proofs.Binary.Nearest
import Conformance.Proofs.Binary.WholePart
import Conformance.Proofs.Image.Sampling

namespace Conformance.AddressingMode

open Binary

variable {c : Single} {size : UInt32}

theorem isFinite_ofNat_index {n : Nat} (h : n ≤ 2 ^ 32) : (Binary.ofNat .single n).isFinite := by
  have hr : Format.single.Represents (2 ^ 32 * Format.single.unity) := by
    refine ⟨1, 32 + Format.single.scale, by decide, by decide, ?_⟩
    rw [Format.unity_eq, Nat.pow_add, Nat.one_mul]
  exact isFinite_ofNat_of_le h hr

theorem isFinite_size (size : UInt32) : (Binary.ofNat .single size.toNat).isFinite :=
  isFinite_ofNat_index size.toNat_lt.le

theorem isFinite_last (size : UInt32) : (last size).isFinite :=
  isFinite_ofNat_index ((Nat.sub_le _ _).trans size.toNat_lt.le)

theorem isMagnitude_last (size : UInt32) : (last size).IsMagnitude := isMagnitude_ofNat _

theorem toNat_clamped (c : Single) (size : UInt32) :
    (clamped c size).toWord32.toNat = min c.toWord32.toNat (last size).toWord32.toNat := by
  rw [clamped, toWord32_clamp _ (isMagnitude_last size), toWord32_floor_eq]

def onBorder (c : Single) (size : UInt32) : Bool :=
  c.lt (zero false) || (Binary.ofNat .single size.toNat).le c || c.isNaN

theorem border_texel (c : Single) (size : UInt32) :
    clampToBorder.texel c size = if onBorder c size then size else (clamped c size).toWord32 := rfl

theorem onBorder_of_isInfinite (hc : c.isInfinite) : onBorder c size := by
  have hn := isNaN_of_isInfinite hc
  have hcode : c.code = Format.single.infinityCode := of_decide_eq_true hc
  have hlt := (isFinite_iff _).mp (isFinite_size size)
  have hsize := isMagnitude_ofNat (f := .single) size.toNat
  rw [onBorder]
  cases hs : c.isNegative with
  | true =>
    have hbelow : c.lt (zero false) := by
      simp [lt, hn, position, hs, hcode, Format.infinityCode_pos]
    rw [hbelow, Bool.true_or, Bool.true_or]
  | false =>
    have habove : (Binary.ofNat .single size.toNat).le c :=
      (hsize.le_iff ⟨hn, hs⟩).mpr (hcode ▸ hlt.le)
    rw [habove, Bool.or_true, Bool.true_or]

theorem onBorder_of_isNaN (hc : c.isNaN) : onBorder c size := by
  rw [onBorder, hc, Bool.or_true]

theorem onBorder_iff_value (hc : c.isFinite) :
    onBorder c size ↔ c.value < 0 ∨ (Binary.ofNat .single size.toNat).value ≤ c.value := by
  have hzero : (zero false : Single).isFinite := by decide
  rw [onBorder, isNaN_of_isFinite hc, Bool.or_false, Bool.or_eq_true, lt_iff_value_lt hc hzero,
    le_iff_value_le (isFinite_size size) hc, value_zero]

section Exact

variable (hs : size.toNat ≤ 2 ^ 24)

include hs

theorem value_size : (Binary.ofNat .single size.toNat).value = size.toNat := value_ofNat hs

theorem toNat_last (h0 : 0 < size.toNat) : (last size).toWord32.toNat = size.toNat - 1 := by
  have hle : size.toNat - 1 ≤ 2 * Format.single.binade := (Nat.sub_le _ _).trans hs
  have hvalue : (last size).value = ((size.toNat - 1 : ℕ) : ℤ) := by
    rw [last, value_ofNat hle, Int.cast_natCast]
  have hword := toNat_toWord32 (isFinite_last size)
  have hlt := size.toNat_lt
  rw [hvalue, Int.floor_intCast] at hword
  omega

theorem clamped_of_isFinite (h0 : 0 < size.toNat) (hc : c.isFinite) :
    ((clamped c size).toWord32.toNat : ℤ) = max 0 (min ⌊c.value⌋ (size.toNat - 1)) := by
  have hword := toNat_toWord32 hc
  have hlt := size.toNat_lt
  rw [toNat_clamped, toNat_last hs h0]
  omega

theorem clamped_of_isInfinite (h0 : 0 < size.toNat) (hc : c.isInfinite) :
    (clamped c size).toWord32.toNat = if c.isNegative then 0 else size.toNat - 1 := by
  have hlt := size.toNat_lt
  rw [toNat_clamped, toNat_last hs h0]
  split_ifs with hneg
  · simp [toWord32_of_isNegative hneg]
  · have hm : c.IsMagnitude := ⟨isNaN_of_isInfinite hc, by simpa using hneg⟩
    rw [hm.toNat_toWord32_of_isInfinite hc]
    omega

theorem border_of_isFinite (h0 : 0 < size.toNat) (hc : c.isFinite) :
    ((clampToBorder.texel c size).toNat : ℤ) =
      if 0 ≤ c.value ∧ c.value < size.toNat then ⌊c.value⌋ else size.toNat := by
  have hiff : onBorder c size ↔ ¬(0 ≤ c.value ∧ c.value < size.toNat) := by
    rw [onBorder_iff_value hc, value_size hs, not_and_or, not_le, not_lt]
  rw [border_texel]
  by_cases hin : 0 ≤ c.value ∧ c.value < size.toNat
  · rw [if_neg (by rw [hiff]; exact not_not_intro hin), if_pos hin, clamped_of_isFinite hs h0 hc]
    have hfloor : 0 ≤ ⌊c.value⌋ := Int.floor_nonneg.mpr hin.1
    have hlt : ⌊c.value⌋ < size.toNat := Int.floor_lt.mpr (by exact_mod_cast hin.2)
    omega
  · rw [if_pos (hiff.mpr hin), if_neg hin]

end Exact

theorem clamped_of_isNaN (hc : c.isNaN) : (clamped c size).toWord32 = 0 := by
  apply UInt32.toNat_inj.mp
  rw [toNat_clamped, toWord32_of_isNaN hc]
  exact Nat.zero_min _

/-- Clamping is whole-number clamping of the floor, and only coordinates in the image miss
the border. -/
theorem clamps_exactly (h0 : 0 < size.toNat) (hs : size.toNat ≤ 2 ^ 24) (c : Single) :
    ∃ edge border, clampToEdge.address c size = .ok edge ∧ undefined.address c size = .ok edge ∧
      clampToBorder.address c size = .ok border ∧
      (c.isFinite → (edge.toNat : ℤ) = max 0 (min ⌊c.value⌋ (size.toNat - 1)) ∧
        (border.toNat : ℤ) =
          if 0 ≤ c.value ∧ c.value < size.toNat then ⌊c.value⌋ else size.toNat) ∧
      (c.isInfinite → edge.toNat = (if c.isNegative then 0 else size.toNat - 1) ∧ border = size) ∧
      (c.isNaN → edge = 0 ∧ border = size) := by
  refine ⟨_, _, address_eq h0 _ c, address_eq h0 _ c, address_eq h0 _ c, ?_, ?_, ?_⟩
  · exact fun hc => ⟨clamped_of_isFinite hs h0 hc, border_of_isFinite hs h0 hc⟩
  · exact fun hc => ⟨clamped_of_isInfinite hs h0 hc, if_pos (onBorder_of_isInfinite hc)⟩
  · exact fun hc => ⟨clamped_of_isNaN hc, if_pos (onBorder_of_isNaN hc)⟩

theorem clamps_exactly_last :
    let size : UInt32 := 16777216
    let c : Single := .ofBits .single 0x4b7fffff
    0 < size.toNat ∧ size.toNat ≤ 2 ^ 24 ∧ c.isFinite ∧ c.value = 16777215 ∧
      clampToEdge.address c size = .ok 16777215 ∧ clampToBorder.address c size = .ok 16777215 := by
  intro size c
  have h0 : 0 < size.toNat := by decide
  have hs : size.toNat ≤ 2 ^ 24 := by decide
  have hc : c.isFinite := by decide +kernel
  have hunits : c.signedUnits = 16777215 * Format.single.unity := by decide +kernel
  have hu : (Format.single.unity : ℚ) ≠ 0 := by exact_mod_cast Format.single.unity_pos.ne'
  have hvalue : c.value = 16777215 := by
    rw [value, hunits]
    push_cast
    exact mul_div_cancel_right₀ _ hu
  have hfloor : ⌊c.value⌋ = 16777215 := by
    rw [hvalue]
    norm_num
  have hinside : 0 ≤ c.value ∧ c.value < size.toNat := by
    have hsize : size.toNat = 16777216 := rfl
    rw [hvalue, hsize]
    norm_num
  obtain ⟨edge, border, hedge, -, hborder, hfinite, -⟩ := clamps_exactly h0 hs c
  obtain ⟨hedgeNat, hborderNat⟩ := hfinite hc
  rw [hfloor] at hedgeNat
  rw [if_pos hinside, hfloor] at hborderNat
  have hedgeEq : edge = 16777215 := by
    have hclamp : max 0 (min 16777215 ((size.toNat : ℤ) - 1)) = 16777215 := by decide
    apply UInt32.toNat_inj.mp
    exact Int.ofNat_inj.mp (hedgeNat.trans hclamp)
  have hborderEq : border = 16777215 := by
    apply UInt32.toNat_inj.mp
    exact Int.ofNat_inj.mp hborderNat
  exact ⟨h0, hs, hc, hvalue, hedgeEq ▸ hedge, hborderEq ▸ hborder⟩

end Conformance.AddressingMode
