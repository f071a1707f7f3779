import Mathlib
import Conformance.Proofs.Binary.Results
import Conformance.Proofs.Image.Addressing

namespace Conformance.AddressingMode

open Binary

variable {c : Single} {size : UInt32}

section Inside

variable (hs : size.toNat ≤ 2 ^ 24) (hc : c.isFinite) (hlow : 0 ≤ c.value)
  (hhigh : c.value < size.toNat)

include hs hc hlow hhigh

theorem clamped_of_inside : ((clamped c size).toWord32.toNat : ℤ) = ⌊c.value⌋ := by
  have h0 : 0 < size.toNat := by exact_mod_cast hlow.trans_lt hhigh
  have hfloor : 0 ≤ ⌊c.value⌋ := Int.floor_nonneg.mpr hlow
  have hlt : ⌊c.value⌋ < size.toNat := Int.floor_lt.mpr (by exact_mod_cast hhigh)
  rw [clamped_of_isFinite hs h0 hc]
  omega

/-- However near to the size a coordinate is, its quotient is not rounded up to one. -/
theorem tile_of_inside : (tile c size).isFinite ∧ (tile c size).value = 0 := by
  have hless : c.value < (Binary.ofNat .single size.toNat).value := by rwa [value_size hs]
  obtain ⟨hquotient, h0, h1⟩ := div_below_one hc (isFinite_size size) hlow hless
  obtain ⟨hfinite, hvalue⟩ := floor_exact hquotient
  have hfloor : ⌊(c / Binary.ofNat .single size.toNat).value⌋ = 0 :=
    Int.floor_eq_zero_iff.mpr ⟨h0, h1⟩
  rw [hfloor, Int.cast_zero] at hvalue
  exact ⟨hfinite, hvalue⟩

theorem folded_of_inside : ((folded c size).toWord32.toNat : ℤ) = ⌊c.value⌋ := by
  obtain ⟨htile, hzero⟩ := tile_of_inside hs hc hlow hhigh
  obtain ⟨hproduct, hnothing⟩ := mul_nothing (isFinite_size size) htile (by rw [hzero, mul_zero])
  obtain ⟨hfinite, hvalue⟩ := sub_nothing hc hproduct hnothing
  rw [← hvalue] at hlow hhigh ⊢
  exact clamped_of_inside hs hfinite hlow hhigh

theorem isOdd_tile_of_inside : (tile c size).isOdd = false := by
  obtain ⟨-, hzero⟩ := tile_of_inside hs hc hlow hhigh
  have hu := Format.single.unity_pos
  simp only [isOdd, code_eq_zero_of_value hzero, Format.units_zero, Nat.zero_mod,
    Bool.and_eq_false_iff, decide_eq_false_iff_not]
  exact .inr hu.ne

theorem texel_of_inside (mode : AddressingMode) : ((mode.texel c size).toNat : ℤ) = ⌊c.value⌋ := by
  have h0 : 0 < size.toNat := by exact_mod_cast hlow.trans_lt hhigh
  cases mode with
  | undefined | clampToEdge => exact clamped_of_inside hs hc hlow hhigh
  | clampToBorder => rw [border_of_isFinite hs h0 hc, if_pos ⟨hlow, hhigh⟩]
  | wrap => exact folded_of_inside hs hc hlow hhigh
  | mirror =>
    rw [texel, isOdd_tile_of_inside hs hc hlow hhigh]
    exact folded_of_inside hs hc hlow hhigh

end Inside

/-- Inside the image every mode gives the texel of the floor. -/
theorem modes_agree (hs : size.toNat ≤ 2 ^ 24) (hc : c.isFinite) (hlow : 0 ≤ c.value)
    (hhigh : c.value < size.toNat) (mode : AddressingMode) :
    ∃ i, mode.address c size = .ok i ∧ (i.toNat : ℤ) = ⌊c.value⌋ := by
  have h0 : 0 < size.toNat := by exact_mod_cast hlow.trans_lt hhigh
  exact ⟨_, address_eq h0 mode c, texel_of_inside hs hc hlow hhigh mode⟩

theorem modes_agree_last :
    let size : UInt32 := 3
    let c : Single := .ofBits .single 0x403fffff
    size.toNat ≤ 2 ^ 24 ∧ c.isFinite ∧ 0 ≤ c.value ∧ c.value < size.toNat ∧
      mirror.address c size = .ok 2 := by
  intro size c
  have hs : size.toNat ≤ 2 ^ 24 := by decide
  have hc : c.isFinite := by decide
  have hunits : c.signedUnits = 12582911 * 2 ^ 127 := by decide
  have hvalue : c.value = 12582911 / 2 ^ 22 := by
    rw [value, hunits]
    norm_num [Format.unity_eq, Format.scale]
  have hlow : 0 ≤ c.value := by
    rw [hvalue]
    positivity
  have hhigh : c.value < size.toNat := by
    have hsize : size.toNat = 3 := rfl
    rw [hvalue, hsize]
    norm_num
  have hfloor : ⌊c.value⌋ = 2 := by
    rw [hvalue]
    norm_num
  obtain ⟨i, hi, hnat⟩ := modes_agree hs hc hlow hhigh mirror
  have htwo : i = 2 := by
    apply UInt32.toNat_inj.mp
    exact Int.ofNat_inj.mp (hnat.trans hfloor)
  exact ⟨hs, hc, hlow, hhigh, htwo ▸ hi⟩

end Conformance.AddressingMode
