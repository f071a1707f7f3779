import Mathlib
import Conformance.Proofs.Image.Addressing

namespace Conformance.AddressingMode

open Binary

variable {c : Single} {size : UInt32} {mode : AddressingMode}

theorem isNearest_last (h0 : 0 < size.toNat) : (last size).IsNearest (size.toNat - 1) := by
  have hcast : ((size.toNat - 1 : ℕ) : ℚ) = size.toNat - 1 := by
    rw [Nat.cast_sub h0, Nat.cast_one]
  exact hcast ▸ isNearest_ofNat (isFinite_last size)

theorem isNearest_size (size : UInt32) : (Binary.ofNat .single size.toNat).IsNearest size.toNat :=
  isNearest_ofNat (isFinite_size size)

/-- A clamped number is a number between zero and the last index. -/
theorem clamped_bounds (size : UInt32) (hn : c.floor.isNaN = false) :
    (clamped c size).isFinite ∧ 0 ≤ (clamped c size).signedUnits := by
  have hlast := isMagnitude_last size
  have hcode := (isFinite_iff _).mp (isFinite_last size)
  have hle : (zero false : Single).position ≤ (last size).position := by
    rw [isMagnitude_zero.position, hlast.position, code_zero]
    omega
  obtain ⟨-, hlow, hhigh⟩ := clamp_bounds hn (isNaN_zero false) hlast.isNaN hle
  rw [hlast.position] at hhigh
  rw [isMagnitude_zero.position, code_zero] at hlow
  change 0 ≤ (clamped c size).position at hlow
  change (clamped c size).position ≤ _ at hhigh
  constructor
  · rw [isFinite_iff]
    unfold position at hlow hhigh
    split_ifs at hlow hhigh <;> omega
  · rw [← not_lt, ← signedUnits_zero false, signedUnits_lt_iff,
      isMagnitude_zero.position, code_zero]
    omega

theorem clamped_zero (negative : Bool) :
    (clamped (zero negative) size).isFinite ∧ (clamped (zero negative) size).signedUnits = 0 := by
  have hzero : (zero negative : Single).isFinite := isFinite_zero negative
  have hfloor : ⌊(zero negative : Single).value⌋ = (0 : ℕ) := by
    rw [value_zero, Int.floor_zero, Nat.cast_zero]
  have heq : (zero negative : Single).floor =
      nearest .single (zero negative : Single).isNegative 0 1 := by
    rw [floor_eq hzero hfloor, Nat.zero_mul]
  have hposition : (zero negative : Single).floor.position = 0 := by
    rw [position_floor hzero hfloor, (isMagnitude_ofNat 0).position, code_ofNat_eq_zero_iff.mpr rfl]
    rfl
  have hself : clamped (zero negative) size = (zero negative : Single).floor := by
    apply clamp_eq_self
    · rw [hposition, isMagnitude_zero.position, code_zero]
      rfl
    · rw [hposition, (isMagnitude_last size).position]
      omega
  refine ⟨(clamped_bounds size (by rw [heq, isNaN_nearest])).1, ?_⟩
  rw [hself, heq, signedUnits_nearest Format.represents_zero]
  simp

theorem texel_le_last (hm : mode ≠ .clampToBorder) (c : Single) (size : UInt32) :
    (mode.texel c size).toNat ≤ (last size).toWord32.toNat := by
  have hclamped (x : Single) : (clamped x size).toWord32.toNat ≤ (last size).toWord32.toNat := by
    rw [toNat_clamped]
    exact Nat.min_le_right _ _
  cases mode with
  | undefined | clampToEdge | wrap => exact hclamped _
  | clampToBorder => exact absurd rfl hm
  | mirror =>
    rw [texel]
    split_ifs
    · by_cases hn : (c - Binary.ofNat .single size.toNat * tile c size).floor.isNaN
      · have hnan : (last size - folded c size).isNaN := by
          rw [folded, clamped, clamp_of_isNaN hn]
          exact isNaN_sub_of_isNaN (isMagnitude_last size).isNaN hn
        rw [toWord32_of_isNaN hnan]
        exact Nat.zero_le _
      · obtain ⟨hfinite, hunits⟩ := clamped_bounds size (by simpa using hn)
        exact toWord32_sub_le (isMagnitude_last size) (isFinite_last size) hfinite hunits
    · exact hclamped _

theorem lastWord_lt_iff (h0 : 0 < size.toNat) :
    (last size).toWord32.toNat < size.toNat ↔ (last size).value < size.toNat := by
  have hword := toNat_toWord32 (isFinite_last size)
  have hlt := size.toNat_lt
  have hfloor : ⌊(last size).value⌋ < size.toNat ↔ (last size).value < size.toNat := by
    rw [Int.floor_lt, Int.cast_natCast]
  rw [← hfloor]
  omega

/-- What is not on the border is below the size, even where the size is rounded up. -/
theorem border_lt (h : onBorder c size = false) :
    (clampToBorder.texel c size).toNat < size.toNat := by
  have hoff : ¬onBorder c size := by simp [h]
  have hc : c.isFinite := by
    obtain hn | hi | hc := c.nan_or_infinite_or_finite
    · exact absurd (onBorder_of_isNaN hn) hoff
    · exact absurd (onBorder_of_isInfinite hi) hoff
    · exact hc
  have hinside := mt (onBorder_iff_value hc).mpr hoff
  rw [not_or, not_lt, not_le] at hinside
  have hlt : c.value < size.toNat := by
    by_contra! hge
    exact (((isNearest_size size).value_le_iff hc).mpr (.inl hge)).not_gt hinside.2
  have hfloor : ⌊c.value⌋ < size.toNat := Int.floor_lt.mpr (by exact_mod_cast hlt)
  have hnonneg : 0 ≤ ⌊c.value⌋ := Int.floor_nonneg.mpr hinside.1
  have hword := toNat_toWord32 hc
  rw [border_texel, if_neg hoff, toNat_clamped]
  omega

section Beyond

variable (h0 : 0 < size.toNat) (hup : (size.toNat : ℚ) ≤ (last size).value)

include hup

theorem last_eq_size : last size = Binary.ofNat .single size.toNat := by
  have hle : (last size).code ≤ (Binary.ofNat .single size.toNat).code :=
    code_ofNat_mono (Nat.sub_le _ _)
  have hge : (Binary.ofNat .single size.toNat).value ≤ (last size).value :=
    ((isNearest_size size).value_le_iff (isFinite_last size)).mpr (.inl hup)
  have hposition := not_lt.mp (mt (value_lt_iff _ _).mpr (not_lt.mpr hge))
  rw [(isMagnitude_ofNat _).position, (isMagnitude_last size).position] at hposition
  exact (isMagnitude_last size).eq_of_code (isMagnitude_ofNat _) (by omega)

include h0

theorem pow_lt_size : 2 ^ 24 + 1 < size.toNat := by
  by_contra hsmall
  have hle : size.toNat - 1 ≤ 2 * Format.single.binade := by
    change _ ≤ 2 ^ 24
    omega
  rw [last, value_ofNat hle, Nat.cast_le] at hup
  omega

theorem pow_lt_units : 2 ^ 24 * Format.single.unity < Format.single.units (last size).code := by
  have hu : (0 : ℚ) < Format.single.unity := by exact_mod_cast Format.single.unity_pos
  have hlarge : ((2 ^ 24 : ℕ) : ℚ) < size.toNat := by
    have h := pow_lt_size h0 hup
    exact_mod_cast (by omega : 2 ^ 24 < size.toNat)
  have hvalue := hlarge.trans_le hup
  rw [value_of_not_isNegative (isMagnitude_last size).isNegative, lt_div_iff₀ hu] at hvalue
  exact_mod_cast hvalue

theorem isZero_last : (last size).isZero = false := by
  have hunits := pow_lt_units h0 hup
  rw [isZero, decide_eq_false_iff_not]
  intro hzero
  rw [hzero, Format.units_zero] at hunits
  omega

/-- Half a texel before the image the image has been left behind once, to the left. -/
theorem tile_half : tile oneHalf.neg size = Binary.ofInt .single (-1) := by
  obtain ⟨hfinite, hnegative, hhalf⟩ : oneHalf.neg.isFinite ∧ oneHalf.neg.isNegative ∧
      Format.single.units oneHalf.neg.code = 2 ^ 148 := by decide
  have hunity : Format.single.unity = 2 ^ 149 := Format.unity_eq _
  have hlow := pow_lt_units h0 hup
  have hhigh := Format.represents_lt
    (Format.represents_units ((isFinite_iff _).mp (isFinite_last size)))
  have hinfinity : Format.single.units Format.single.infinityCode = 2 ^ 277 := by decide +kernel
  rw [hunity] at hlow
  rw [hinfinity] at hhigh
  set u := Format.single.units (last size).code with hu
  have hleast : u ≤ 2 ^ 148 * Format.single.unity := by
    rw [hunity]
    omega
  have hone : 2 ^ 148 * Format.single.unity ≤ Format.single.unity * u := by
    rw [Nat.mul_comm]
    exact Nat.mul_le_mul_left _ (by omega)
  obtain ⟨hq, hqpos, hqle⟩ := Format.units_nearestCode_bounds (by omega) hleast hone
  set q := Format.single.nearestCode (2 ^ 148 * Format.single.unity) u
  have hquotient : oneHalf.neg / Binary.ofNat .single size.toNat = ofCode .single true q := by
    rw [← last_eq_size hup, div_of_isFinite hfinite (isFinite_last size) (isZero_last h0 hup),
      hnegative, (isMagnitude_last size).isNegative, hhalf]
    rfl
  have hlt := hq.trans Format.single.infinityCode_lt
  have hcode : (ofCode .single true q).code = q := code_ofCode hlt true
  rw [← hcode] at hq hqpos hqle
  rw [tile, hquotient]
  exact floor_minus_one ((isFinite_iff _).mpr hq) (isNegative_ofCode hlt true) hqpos hqle

theorem half_sub_last : oneHalf.neg - (last size).neg = last size := by
  obtain ⟨hfinite, hhalf⟩ : oneHalf.neg.isFinite ∧ oneHalf.neg.signedUnits = -2 ^ 148 := by
    decide
  have hlast := isMagnitude_last size
  have hlf := isFinite_last size
  have hunity : Format.single.unity = 2 ^ 149 := Format.unity_eq _
  have hpos : 2 ^ 148 < Format.single.units (last size).code := by
    have hlarge := pow_lt_units h0 hup
    rw [hunity] at hlarge
    omega
  have hlow : Format.single.binade * 2 ^ 150 < Format.single.units (last size).code := by
    calc Format.single.binade * 2 ^ 150 = 2 ^ 24 * Format.single.unity := by
          rw [Format.binade_eq, hunity]
          norm_num [Format.fractionBits]
      _ < _ := pow_lt_units h0 hup
  have hdifference : oneHalf.neg.signedUnits - (last size).neg.signedUnits =
      ((Format.single.units (last size).code - 2 ^ 148 : ℕ) : ℤ) := by
    rw [signedUnits_neg (last size), hhalf, hlast.signedUnits]
    omega
  have hcode := Format.nearestCode_sub (d := 2 ^ 148) ((isFinite_iff _).mp hlf) hlow (by decide)
  exact hlast.sub_eq hfinite (by simpa using hlf) (Nat.sub_pos_of_lt hpos) hdifference hcode

theorem wrap_half : wrap.texel oneHalf.neg size = (last size).toWord32 := by
  have hproduct : last size * Binary.ofInt .single (-1) = (last size).neg := by
    rw [mul_of_code_one (isFinite_last size) code_minus_one, isNegative_ofInt, neg,
      (isMagnitude_last size).isNegative]
    rfl
  apply UInt32.toNat_inj.mp
  rw [texel, folded, tile_half h0 hup, ← last_eq_size hup, hproduct, half_sub_last h0 hup,
    toNat_clamped]
  exact Nat.min_self _

theorem tile_last : tile (last size) size = Binary.ofNat .single 1 := by
  have hone : 1 ≤ 2 * Format.single.binade := by decide
  have hvalue : ⌊(Binary.ofNat .single 1).value⌋ = (1 : ℕ) := by
    rw [value_ofNat hone, Int.floor_natCast]
  rw [tile, ← last_eq_size hup, div_self_of_isFinite (isFinite_last size) (isZero_last h0 hup),
    floor_eq (isFinite_ofNat hone) hvalue, (isMagnitude_ofNat 1).isNegative]
  rfl

theorem folded_last :
    (folded (last size) size).isFinite ∧ (folded (last size) size).signedUnits = 0 := by
  have hlf := isFinite_last size
  have hproduct : last size * Binary.ofNat .single 1 = last size := by
    rw [mul_of_code_one hlf rfl, (isMagnitude_ofNat 1).isNegative, Bool.bne_false, ofCode_code]
  rw [folded, tile_last h0 hup, ← last_eq_size hup, hproduct]
  obtain ⟨-, negative, heq⟩ | ⟨hne, -⟩ := sub_cases hlf hlf
  · rw [heq]
    exact clamped_zero negative
  · exact absurd (sub_self _) hne

theorem mirror_size : mirror.texel (last size) size = (last size).toWord32 := by
  obtain ⟨hfinite, hzero⟩ := folded_last h0 hup
  have hlast := isMagnitude_last size
  have hodd : (Binary.ofNat .single 1).isOdd := by decide
  have hself := Format.nearestCode_units ((isFinite_iff _).mp (isFinite_last size)) Nat.one_pos
  have hlarge := pow_lt_units h0 hup
  rw [Nat.mul_one] at hself
  have hwhole : last size - folded (last size) size = last size :=
    hlast.sub_eq (isFinite_last size) hfinite (by omega)
      (by rw [hzero, sub_zero, hlast.signedUnits]) hself
  rw [texel, tile_last h0 hup, if_pos hodd, hwhole]

theorem exists_texel_eq_last (hm : mode ≠ .clampToBorder) :
    ∃ c, mode.texel c size = (last size).toWord32 := by
  cases mode with
  | undefined | clampToEdge =>
    refine ⟨last size, UInt32.toNat_inj.mp ?_⟩
    rw [texel, toNat_clamped, Nat.min_self]
  | clampToBorder => exact absurd rfl hm
  | wrap => exact ⟨_, wrap_half h0 hup⟩
  | mirror => exact ⟨_, mirror_size h0 hup⟩

end Beyond

/-- The least size that the last index is rounded up to is `2 ^ 24 + 4`. -/
theorem last_lt (h0 : 0 < size.toNat) (h : size.toNat ≤ 2 ^ 24 + 3) :
    (last size).value < size.toNat := by
  by_contra! hup
  have hlow := pow_lt_size h0 hup
  have hunits : ∀ n ∈ [2 ^ 24 + 2, 2 ^ 24 + 3],
      (Binary.ofNat .single (n - 1)).signedUnits < n * Format.single.unity := by decide
  have hu : (0 : ℚ) < Format.single.unity := by exact_mod_cast Format.single.unity_pos
  have hlt := hunits size.toNat (by
    rw [List.mem_pair]
    omega)
  rw [value, le_div_iff₀ hu] at hup
  exact absurd hup (not_le.mpr (by exact_mod_cast hlt))

def StaysInside (mode : AddressingMode) (size : UInt32) : Prop :=
  ∀ c, ∃ i, mode.address c size = .ok i ∧ i < size

theorem staysInside_iff (h0 : 0 < size.toNat) (hm : mode ≠ .clampToBorder) :
    mode.StaysInside size ↔ (last size).value < size.toNat := by
  constructor
  · intro h
    by_contra! hup
    obtain ⟨c, hc⟩ := exists_texel_eq_last h0 hup hm
    obtain ⟨i, hi, hlt⟩ := h c
    have heq : i = (last size).toWord32 := by
      rw [address_eq h0, hc] at hi
      exact (Except.ok.inj hi).symm
    have hvalue := (lastWord_lt_iff h0).mp (heq ▸ UInt32.lt_iff_toNat_lt.mp hlt)
    exact hvalue.not_ge hup
  · intro h c
    have hlt := (lastWord_lt_iff h0).mpr h
    exact ⟨_, address_eq h0 _ c,
      UInt32.lt_iff_toNat_lt.mpr ((texel_le_last hm c size).trans_lt hlt)⟩

theorem border_eq_iff (c : Single) (size : UInt32) :
    clampToBorder.texel c size = size ↔ onBorder c size := by
  constructor
  · intro h
    by_contra hb
    exact absurd (border_lt (by simpa using hb)) (by rw [h]; exact lt_irrefl _)
  · intro h
    rw [border_texel, if_pos h]

/-- Indices are below the size, except for the border and for a last index that is rounded up. -/
theorem index_range (h0 : 0 < size.toNat) :
    (∀ c, ∃ i, clampToBorder.address c size = .ok i ∧ i ≤ size ∧ (i = size ↔ onBorder c size)) ∧
    (∀ mode ≠ clampToBorder, (∀ c, ∃ i, mode.address c size = .ok i ∧ i ≤ (last size).toWord32) ∧
      (mode.StaysInside size ↔ (last size).value < size.toNat)) ∧
    (last size).IsNearest (size.toNat - 1) ∧
    (size.toNat ≤ 2 ^ 24 + 3 → (last size).value < size.toNat) := by
  refine ⟨fun c => ?_, fun mode hm => ⟨fun c => ?_, ?_⟩, ?_, ?_⟩
  · refine ⟨_, address_eq h0 _ c, ?_, border_eq_iff c size⟩
    by_cases hb : onBorder c size
    · rw [(border_eq_iff c size).mpr hb]
      exact UInt32.le_refl _
    · exact UInt32.le_iff_toNat_le.mpr (border_lt (by simpa using hb)).le
  · exact ⟨_, address_eq h0 _ c, UInt32.le_iff_toNat_le.mpr (texel_le_last hm c size)⟩
  · exact staysInside_iff h0 hm
  · exact isNearest_last h0
  · exact last_lt h0

theorem index_range_fits :
    let size : UInt32 := 16777219
    0 < size.toNat ∧ size.toNat ≤ 2 ^ 24 + 3 ∧ mirror.StaysInside size := by
  intro size
  have h0 : 0 < size.toNat := by decide
  have hle : size.toNat ≤ 2 ^ 24 + 3 := by decide
  obtain ⟨-, hmodes, -, hlast⟩ := index_range h0
  exact ⟨h0, hle, (hmodes mirror (by decide)).2.mpr (hlast hle)⟩

/-- On an axis of one texel more a coordinate is clamped to the size. -/
theorem clamped_to_size :
    let size : UInt32 := 16777220
    let c : Single := .ofBits .single 0x4b800002
    0 < size.toNat ∧ clampToEdge.address c size = .ok size ∧ ¬clampToEdge.StaysInside size := by
  intro size c
  have heq : clampToEdge.address c size = .ok size := by decide +kernel
  refine ⟨by decide, heq, fun h => ?_⟩
  obtain ⟨i, hi, hlt⟩ := h c
  rw [heq, Except.ok.injEq] at hi
  exact UInt32.lt_irrefl _ (hi ▸ hlt)

end Conformance.AddressingMode
