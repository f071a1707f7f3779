import Mathlib
import Conformance.Proofs.Binary.Results
import Conformance.Proofs.Image.Addressing

namespace Conformance

open Binary

variable {c : Single} {layers : UInt32}

theorem isFinite_oneHalf : oneHalf.isFinite := by decide

theorem signedUnits_oneHalf : oneHalf.signedUnits = 2 ^ 148 := by decide

theorem unity_single : (Format.single.unity : ℚ) = 2 ^ 149 := by
  norm_num [Format.unity_eq, Format.scale]

theorem value_of_signedUnits {x : Single} {n : ℤ} (h : x.signedUnits = n) :
    x.value = n / 2 ^ 149 := by
  rw [value, h, unity_single]

theorem value_oneHalf : oneHalf.value = 1 / 2 := by
  rw [value_of_signedUnits signedUnits_oneHalf]
  norm_num

theorem layerIndex_eq (c : Single) (layers : UInt32) :
    layerIndex c layers = (AddressingMode.clamped (c + oneHalf) layers).toWord32 := by
  have hlast : max layers.toNat 1 - 1 = layers.toNat - 1 := by omega
  rw [layerIndex, hlast]
  rfl

theorem isFinite_add_oneHalf (hc : c.isFinite) : (c + oneHalf).isFinite := by
  apply isFinite_add_of_le hc isFinite_oneHalf
  rw [value_oneHalf]
  norm_num

theorem isFinite_sub_oneHalf (hc : c.isFinite) : (c - oneHalf).isFinite := by
  rw [sub_eq_add hc isFinite_oneHalf]
  apply isFinite_add_of_le hc (by simpa using isFinite_oneHalf)
  rw [value_neg, abs_neg, value_oneHalf]
  norm_num

theorem exists_units_of_le {k : ℕ} (h : (k : ℚ) ≤ c.value) :
    ∃ u : ℕ, c.signedUnits = u ∧ c.value = u / 2 ^ 149 ∧ k * 2 ^ 149 ≤ u := by
  have hscaled : ((k * 2 ^ 149 : ℕ) : ℤ) ≤ c.signedUnits := by
    rw [value, unity_single, le_div_iff₀ (by positivity)] at h
    exact_mod_cast h
  obtain ⟨u, hu⟩ := Int.eq_ofNat_of_zero_le ((Int.natCast_nonneg _).trans hscaled)
  rw [hu] at hscaled
  exact ⟨u, hu, value_of_signedUnits hu, by exact_mod_cast hscaled⟩

theorem isNearest_add_oneHalf (hc : c.isFinite) : (c + oneHalf).IsNearest (c.value + 1 / 2) :=
  value_oneHalf ▸ isNearest_add hc isFinite_oneHalf (isFinite_add_oneHalf hc)

/-- The coordinates at which adding one half is rounded up to the next whole number: the one right
before one half, and odd whole numbers that are not followed by a half. -/
def RoundsUp (c : Single) : Prop :=
  c.value = 1 / 2 - 1 / 2 ^ 25 ∨ ∃ n : ℕ, 2 ^ 23 < n ∧ n < 2 ^ 24 ∧ n % 2 = 1 ∧ c.value = n

theorem value_before_oneHalf : (ofBits .single 0x3effffff).value = 1 / 2 - 1 / 2 ^ 25 := by
  have hunits : (ofBits .single 0x3effffff).signedUnits = (2 ^ 24 - 1) * 2 ^ 124 := by decide
  rw [value_of_signedUnits hunits]
  norm_num

theorem add_oneHalf_before : ofBits .single 0x3effffff + oneHalf = ofNat .single 1 := by decide

theorem add_oneHalf_lt_one (hc : c.isFinite) (h : c.value < 1 / 2)
    (hne : c.value ≠ 1 / 2 - 1 / 2 ^ 25) : (c + oneHalf).value < 1 := by
  obtain ⟨hhalf, hbefore, hsecond⟩ : oneHalf.position = 0x3f000000 ∧
      (ofBits .single 0x3effffff).position = 0x3effffff ∧
      (ofBits .single 0x3efffffe).position = 0x3efffffe := by decide
  obtain ⟨hsecondUnits, hlastUnits, hlastFinite⟩ :
      (ofBits .single 0x3efffffe).signedUnits = (2 ^ 23 - 1) * 2 ^ 125 ∧
      (ofBits .single 0x3f7fffff).signedUnits = (2 ^ 24 - 1) * 2 ^ 125 ∧
      (ofBits .single 0x3f7fffff).isFinite := by decide
  rw [← value_oneHalf, value_lt_iff] at h
  rw [← value_before_oneHalf] at hne
  have hle : c.value ≤ (ofBits .single 0x3effffff).value :=
    not_lt.mp (mt (value_lt_iff _ _).mp (by omega))
  have hlt := (value_lt_iff _ _).mp (lt_of_le_of_ne hle hne)
  have hsmall : c.value ≤ (ofBits .single 0x3efffffe).value :=
    not_lt.mp (mt (value_lt_iff _ _).mp (by omega))
  have hlast := (isNearest_add_oneHalf hc).value_le hlastFinite
  rw [value_of_signedUnits hsecondUnits] at hsmall
  rw [value_of_signedUnits hlastUnits] at hlast
  norm_num at hsmall hlast
  linarith [hlast (by linarith)]

/-- In the first half after a whole number the last place of a number is at most one half, and one
half does not lead into the next binade. -/
theorem represents_add_half {u k : ℕ} (hr : Format.single.Represents u) (h0 : 0 < k)
    (hk : k < 2 ^ 23)
    (hlow : k * 2 ^ 149 ≤ u) (hhigh : u < k * 2 ^ 149 + 2 ^ 148) :
    Format.single.Represents (u + 2 ^ 148) := by
  have hbinade : Format.single.binade = 2 ^ 23 := Format.binade_eq _
  set e := Format.single.excess u with he
  have hlt : u < 2 ^ (24 + e) := by
    have hexcess := Format.lt_of_excess (f := .single) u
    rw [hbinade, ← he] at hexcess
    rw [Nat.pow_add]
    exact hexcess
  have hdvd : 2 ^ e ∣ u := by
    obtain h | hpos := Nat.eq_zero_or_pos e
    · rw [h]
      exact one_dvd u
    · exact Format.pow_dvd_of_represents hr (Format.le_of_excess_pos hpos)
  have hlow149 : 149 ≤ 24 + e := by
    have hpow : 2 ^ 149 < 2 ^ (24 + e) := lt_of_le_of_lt (by omega) hlt
    exact ((Nat.pow_lt_pow_iff_right (by decide)).mp hpow).le
  have hsmall : e ≤ 148 := by
    by_contra hge
    have hfirst := Format.le_of_excess_pos (f := .single) (n := u) (by omega)
    rw [hbinade, ← he] at hfirst
    have hpow : 2 ^ 149 ≤ 2 ^ e := Nat.pow_le_pow_right two_pos (by omega)
    have hlarge := Nat.mul_le_mul_left (2 ^ 23) hpow
    omega
  -- the binade ends at a whole number
  have hroom : u + 2 ^ 148 < 2 ^ (24 + e) := by
    rw [← Nat.sub_add_cancel hlow149, Nat.pow_add] at hlt ⊢
    have hnext : k < 2 ^ (24 + e - 149) := Nat.lt_of_mul_lt_mul_right (hlow.trans_lt hlt)
    have hmul := Nat.mul_le_mul_right (2 ^ 149) (Nat.succ_le_of_lt hnext)
    rw [Nat.succ_mul] at hmul
    omega
  obtain ⟨s, hs⟩ := (Nat.dvd_add_iff_right hdvd).mp (Nat.pow_dvd_pow 2 hsmall)
  rw [hs, Nat.pow_add, Nat.mul_comm (2 ^ 24)] at hroom
  refine ⟨s, e, ?_, ?_, by rw [hs, Nat.mul_comm]⟩
  · rw [hbinade]
    exact Nat.lt_of_mul_lt_mul_left hroom
  · have hmax : Format.single.maxShift = 253 := rfl
    omega

section Layer

variable (hc : c.isFinite) {k : ℕ}

include hc

theorem le_add_oneHalf (hk : k ≤ 2 ^ 24) (h : (k : ℚ) ≤ c.value + 1 / 2) :
    (k : ℚ) ≤ (c + oneHalf).value := by
  have hle := (isNearest_add_oneHalf hc).le_value (isFinite_ofNat hk)
  rw [value_ofNat hk] at hle
  exact hle h

theorem floor_add_oneHalf_of_lt (hk : k ≤ 2 ^ 24) (hlow : (k : ℚ) ≤ c.value + 1 / 2)
    (hhigh : c.value < k) : ⌊(c + oneHalf).value⌋ = k := by
  have hle := le_add_oneHalf hc hk hlow
  have hnear := (isNearest_add_oneHalf hc).nearest _ (isFinite_ofNat hk)
  rw [value_ofNat hk, abs_of_nonpos (by linarith : (k : ℚ) - (c.value + 1 / 2) ≤ 0)] at hnear
  have habove := (le_abs_self _).trans hnear
  rw [Int.floor_eq_iff]
  constructor
  · exact_mod_cast hle
  · push_cast
    linarith

theorem floor_add_oneHalf_of_le (h0 : 0 < k) (hk : k < 2 ^ 23) (hlow : (k : ℚ) ≤ c.value)
    (hhigh : c.value < k + 1 / 2) : ⌊(c + oneHalf).value⌋ = k := by
  obtain ⟨u, hu, hvalue, hlow'⟩ := exists_units_of_le hlow
  have hhigh' : u < k * 2 ^ 149 + 2 ^ 148 := by
    have heq : ((k : ℚ) + 1 / 2) * 2 ^ 149 = k * 2 ^ 149 + 2 ^ 148 := by ring
    rw [hvalue, div_lt_iff₀ (by positivity), heq] at hhigh
    exact_mod_cast hhigh
  have hfits : Format.single.Represents (c.signedUnits + oneHalf.signedUnits).natAbs := by
    have hunits := represents_signedUnits hc
    rw [hu, Int.natAbs_natCast] at hunits
    rw [hu, signedUnits_oneHalf]
    exact represents_add_half hunits h0 hk hlow' hhigh'
  obtain ⟨-, hsum⟩ := add_exact hc isFinite_oneHalf hfits
  rw [hsum, value_oneHalf, Int.floor_eq_iff]
  constructor
  · push_cast
    linarith
  · push_cast
    linarith

theorem value_eq_of_large (hk : 2 ^ 23 ≤ k) (hlow : (k : ℚ) ≤ c.value)
    (hhigh : c.value < k + 1 / 2) :
    c.value = k := by
  obtain ⟨u, hu, hvalue, hlow'⟩ := exists_units_of_le hlow
  have hhigh' : u < k * 2 ^ 149 + 2 ^ 149 := by
    have heq : ((k : ℚ) + 1) * 2 ^ 149 = k * 2 ^ 149 + 2 ^ 149 := by ring
    have hnext : (u : ℚ) / 2 ^ 149 < k + 1 := by
      rw [← hvalue]
      linarith
    rw [div_lt_iff₀ (by positivity), heq] at hnext
    exact_mod_cast hnext
  have hrepresents := represents_signedUnits hc
  rw [hu, Int.natAbs_natCast] at hrepresents
  obtain ⟨n, hn⟩ : 2 ^ 149 ∣ u := by
    apply Format.pow_dvd_of_represents hrepresents
    rw [Format.binade_eq]
    exact (Nat.mul_le_mul_right _ hk).trans hlow'
  rw [hn, Nat.mul_comm (2 ^ 149), ← Nat.succ_mul] at hhigh'
  rw [hn, Nat.mul_comm (2 ^ 149)] at hlow'
  have hle : k ≤ n := Nat.le_of_mul_le_mul_right hlow' (Nat.two_pow_pos 149)
  have hlt : n < k + 1 := Nat.lt_of_mul_lt_mul_right hhigh'
  obtain rfl : n = k := by omega
  rw [hvalue, hn, div_eq_iff (by positivity), Nat.mul_comm]
  norm_num

/-- Where there are no halves left, a half is rounded to the even neighbour. -/
theorem floor_add_oneHalf_of_whole (hlow : 2 ^ 23 ≤ k) (hhigh : k < 2 ^ 24) (h : c.value = k) :
    ⌊(c + oneHalf).value⌋ = k + k % 2 := by
  have hunity : Format.single.unity = 2 ^ 149 := Format.unity_eq _
  have hunits : c.signedUnits = k * 2 ^ 149 := by
    rw [value, unity_single, div_eq_iff (by positivity)] at h
    exact_mod_cast h
  have hsum : c.signedUnits + oneHalf.signedUnits = ((2 * k + 1) * 2 ^ 148 : ℕ) := by
    rw [hunits, signedUnits_oneHalf]
    push_cast
    ring
  set n := (2 * k + 1) * 2 ^ 148 with hn
  have hexcess : Format.single.excess n = 149 := by
    have hlog : n.log2 = 172 := by
      rw [Nat.log2_eq_iff (by omega)]
      omega
    rw [Format.excess, hlog]
    rfl
  have hround : roundHalfEven n (2 ^ 149) = k + k % 2 := by
    rw [hn, Nat.pow_succ' (n := 148), roundHalfEven_mul_mul _ _ (Nat.two_pow_pos 148)]
    simp only [roundHalfEven]
    split_ifs <;> omega
  have hcode : Format.single.nearestCode n 1 = Format.single.unboundedCode n 1 := by
    apply Format.nearestCode_eq_unboundedCode (Format.represents_whole (n := 2 ^ 24) (by decide))
      Nat.one_pos
    rw [hunity]
    omega
  have hresult : Format.single.units (Format.single.nearestCode n 1) = (k + k % 2) * 2 ^ 149 := by
    rw [hcode, Format.units_unboundedCode n Nat.one_pos, Nat.div_one, hexcess, Nat.one_mul, hround]
  have hvalue : (c + oneHalf).value = (k + k % 2 : ℕ) := by
    rw [add_of_isFinite hc isFinite_oneHalf, addFinite, hsum, if_neg (by omega), Int.natAbs_natCast,
      value_of_not_isNegative (by rw [isNegative_nearest]; simp), code_nearest, hresult, hunity]
    push_cast
    field_simp
  rw [hvalue, Int.floor_natCast]
  rfl

end Layer

theorem floor_add_oneHalf_cases (hc : c.isFinite) (hu : ¬RoundsUp c) :
    (round c.value ≤ 0 ∧ ⌊(c + oneHalf).value⌋ ≤ 0) ∨ ⌊(c + oneHalf).value⌋ = round c.value ∨
      (2 ^ 24 ≤ round c.value ∧ 2 ^ 24 ≤ ⌊(c + oneHalf).value⌋) := by
  obtain ⟨hbefore, hodd⟩ := not_or.mp hu
  rw [round_eq]
  by_cases hhalf : c.value < 1 / 2
  · have hsum : ⌊c.value + 1 / 2⌋ < 1 := Int.floor_lt.mpr (by push_cast; linarith)
    have hrounded : ⌊(c + oneHalf).value⌋ < 1 :=
      Int.floor_lt.mpr (by exact_mod_cast add_oneHalf_lt_one hc hhalf hbefore)
    exact .inl ⟨by omega, by omega⟩
  · have h1 : 1 ≤ ⌊c.value + 1 / 2⌋ := Int.le_floor.mpr (by push_cast; linarith)
    obtain ⟨k, hk⟩ := Int.eq_ofNat_of_zero_le (by omega : 0 ≤ ⌊c.value + 1 / 2⌋)
    obtain ⟨hlow, hhigh⟩ := Int.floor_eq_iff.mp hk
    rw [Int.cast_natCast] at hlow hhigh
    rw [hk]
    by_cases hlarge : 2 ^ 24 ≤ k
    · have hlarge' : ((2 ^ 24 : ℕ) : ℚ) ≤ c.value + 1 / 2 :=
        le_trans (by exact_mod_cast hlarge) hlow
      refine .inr (.inr ⟨by exact_mod_cast hlarge, Int.le_floor.mpr ?_⟩)
      exact_mod_cast le_add_oneHalf hc (le_refl _) hlarge'
    · refine .inr (.inl ?_)
      by_cases hlt : c.value < k
      · exact floor_add_oneHalf_of_lt hc (by omega) hlow hlt
      · by_cases hsmall : k < 2 ^ 23
        · exact floor_add_oneHalf_of_le hc (by omega) hsmall (not_lt.mp hlt) (by linarith)
        · have hwhole := value_eq_of_large hc (not_lt.mp hsmall) (not_lt.mp hlt) (by linarith)
          have heven : k % 2 = 0 := by
            by_contra hne
            exact hodd ⟨k, by omega, by omega, by omega, hwhole⟩
          rw [floor_add_oneHalf_of_whole hc (by omega) (by omega) hwhole]
          omega

theorem floor_add_oneHalf_of_roundsUp (hc : c.isFinite) (hu : RoundsUp c) :
    ⌊(c + oneHalf).value⌋ = round c.value + 1 := by
  obtain hbefore | ⟨n, hlow, hhigh, hodd, hwhole⟩ := hu
  · have heq : c = ofBits .single 0x3effffff := by
      apply eq_of_value_eq
      · rw [hbefore, value_before_oneHalf]
      · rw [hbefore]
        norm_num
    have hround : round (1 / 2 - 1 / 2 ^ 25 : ℚ) = 0 := by
      rw [round_eq]
      norm_num
    rw [hbefore, hround, heq, add_oneHalf_before, value_ofNat (by decide)]
    norm_num
  · rw [floor_add_oneHalf_of_whole hc hlow.le hhigh hwhole, hwhole, round_natCast]
    omega

/-- The layer is the nearest one, or else the one after it, as far as there are layers. -/
theorem layerIndex_nearest (h0 : 0 < layers.toNat) (hl : layers.toNat ≤ 2 ^ 24) (hc : c.isFinite) :
    ∃ n : ℤ, |c.value - n| ≤ 1 / 2 ∧
      (¬RoundsUp c → ((layerIndex c layers).toNat : ℤ) = max 0 (min n (layers.toNat - 1))) ∧
      (RoundsUp c → ((layerIndex c layers).toNat : ℤ) =
        max 0 (min (n + 1) (layers.toNat - 1))) := by
  have hindex := AddressingMode.clamped_of_isFinite hl h0 (isFinite_add_oneHalf hc)
  rw [← layerIndex_eq] at hindex
  refine ⟨round c.value, abs_sub_round _, fun hu => ?_, fun hu => ?_⟩
  · have hcases := floor_add_oneHalf_cases hc hu
    omega
  · rw [hindex, floor_add_oneHalf_of_roundsUp hc hu]

/-- An odd number above `2 ^ 23`, which is one of `2 ^ 24` layers but is not given that layer. -/
theorem layerIndex_nearest_odd :
    let layers : UInt32 := 16777216
    let c : Single := .ofBits .single 0x4b000001
    0 < layers.toNat ∧ layers.toNat ≤ 2 ^ 24 ∧ c.isFinite ∧ c.value = 8388609 ∧
      (layerIndex c layers).toNat = 8388610 := by
  intro layers c
  have h0 : 0 < layers.toNat := by decide
  have hl : layers.toNat ≤ 2 ^ 24 := by decide
  have hc : c.isFinite := by decide
  have hunits : c.signedUnits = 8388609 * 2 ^ 149 := by decide
  have hvalue : c.value = 8388609 := by
    rw [value_of_signedUnits hunits]
    norm_num
  obtain ⟨n, hnear, -, hup⟩ := layerIndex_nearest h0 hl hc
  have hindex := hup (.inr ⟨8388609, by decide, by decide, by decide, by exact_mod_cast hvalue⟩)
  obtain ⟨hbelow, habove⟩ := abs_le.mp hnear
  rw [hvalue] at hbelow habove
  have hlow : (8388608 : ℤ) < n := by
    have hlow' : ((8388608 : ℤ) : ℚ) < n := by
      push_cast
      linarith
    exact_mod_cast hlow'
  have hhigh : n < (8388610 : ℤ) := by
    have hhigh' : (n : ℚ) < (8388610 : ℤ) := by
      push_cast
      linarith
    exact_mod_cast hhigh'
  have hlayers : layers.toNat = 16777216 := rfl
  refine ⟨h0, hl, hc, hvalue, ?_⟩
  omega

/-- Right before one half the sum is rounded up to one: the layer is the second one, which is not a
nearest one. -/
theorem layerIndex_before_oneHalf :
    ¬∃ n : ℤ, |(ofBits .single 0x3effffff).value - n| ≤ 1 / 2 ∧
      ((layerIndex (.ofBits .single 0x3effffff) 2).toNat : ℤ) = max 0 (min n (2 - 1)) := by
  rintro ⟨n, hnear, hindex⟩
  have hone : (layerIndex (.ofBits .single 0x3effffff) 2).toNat = 1 := by decide
  obtain ⟨hbelow, -⟩ := abs_le.mp hnear
  rw [value_before_oneHalf] at hbelow
  have hlt : n < 1 := by
    have hlt' : (n : ℚ) < 1 := by linarith
    exact_mod_cast hlt'
  omega

end Conformance
