import Mathlib
import Conformance.Decimal.Basic
import Conformance.Proofs.Binary.Exactness

namespace Conformance

theorem roundHalfEven_near (num : Nat) {den : Nat} (hd : 0 < den) :
    |(roundHalfEven num den : ℚ) - num / den| ≤ 1 / 2 := by
  obtain ⟨hle, hge⟩ := roundHalfEven_error num hd
  have hdq : (0 : ℚ) < den := by exact_mod_cast hd
  have hleq : (2 : ℚ) * (roundHalfEven num den * den) ≤ 2 * num + den := by exact_mod_cast hle
  have hgeq : (2 : ℚ) * num ≤ 2 * (roundHalfEven num den * den) + den := by exact_mod_cast hge
  rw [abs_le, neg_le_sub_iff_le_add, sub_le_iff_le_add]
  constructor
  · rw [div_le_iff₀ hdq]
    linarith
  · rw [← sub_le_iff_le_add', le_div_iff₀ hdq]
    linarith

namespace Decimal

/-- The number that a decimal stands for. -/
def value (d : Decimal) : ℚ := d.digits * (10 : ℚ) ^ d.exponent

variable {num den count : Nat}

theorem powerOfTen_pos (k : Nat) : 0 < powerOfTen k := Nat.pow_pos (by decide)

theorem cast_powerOfTen (k : Nat) : (powerOfTen k : ℚ) = 10 ^ k := Nat.cast_pow 10 k

theorem scaled_pos (num : Nat) (hd : 0 < den) (shift : Int) : 0 < (scaled num den shift).2 :=
  Nat.mul_pos hd (powerOfTen_pos _)

theorem scaled_ratio (num den : Nat) (shift : Int) :
    ((scaled num den shift).1 : ℚ) / (scaled num den shift).2 = num / den * 10 ^ shift := by
  simp only [scaled, Nat.cast_mul, cast_powerOfTen]
  obtain ⟨k, rfl | rfl⟩ := shift.eq_nat_or_neg
  · simp [mul_div_right_comm]
  · simp only [neg_neg, Int.toNat_neg_natCast, Int.toNat_natCast, pow_zero, mul_one, zpow_neg,
      zpow_natCast, div_mul_eq_div_mul_one_div, one_div]

theorem digitCount_pos (n : Nat) : 0 < digitCount n := Nat.length_toDigits_pos

theorem digitCount_le_iff {n k : Nat} (hk : 0 < k) : digitCount n ≤ k ↔ n < 10 ^ k :=
  Nat.length_toDigits_le_iff (by decide) hk

theorem digitCount_bounds {n : Nat} (hn : 0 < n) :
    (10 : ℚ) ^ (digitCount n - 1 : Int) ≤ n ∧ (n : ℚ) < 10 ^ (digitCount n : Int) := by
  have hpos := digitCount_pos n
  constructor
  · obtain ⟨k, hk⟩ : ∃ k, digitCount n = k + 1 := ⟨digitCount n - 1, by omega⟩
    have hge : 10 ^ k ≤ n := by
      obtain rfl | hk0 := Nat.eq_zero_or_pos k
      · exact hn
      · by_contra hlt
        have hle := (digitCount_le_iff hk0).mpr (Nat.not_le.mp hlt)
        omega
    rw [hk, Nat.cast_succ, add_sub_cancel_right, zpow_natCast]
    exact_mod_cast hge
  · rw [zpow_natCast]
    exact_mod_cast (digitCount_le_iff hpos).mp (le_refl _)

theorem leadingExponent_bounds (hn : 0 < num) (hd : 0 < den) :
    (10 : ℚ) ^ leadingExponent num den ≤ num / den ∧
      (num / den : ℚ) < 10 ^ (leadingExponent num den + 1) := by
  obtain ⟨hnl, hnu⟩ := digitCount_bounds hn
  obtain ⟨hdl, hdu⟩ := digitCount_bounds hd
  have hdq : (0 : ℚ) < den := by exact_mod_cast hd
  set e : Int := digitCount num - digitCount den with he
  have hten : (10 : ℚ) ≠ 0 := by norm_num
  have hlow : (10 : ℚ) ^ (e - 1) ≤ num / den := by
    rw [le_div_iff₀ hdq]
    calc (10 : ℚ) ^ (e - 1) * den ≤ 10 ^ (e - 1) * 10 ^ (digitCount den : Int) :=
          mul_le_mul_of_nonneg_left hdu.le (by positivity)
      _ = 10 ^ (digitCount num - 1 : Int) := by rw [← zpow_add₀ hten, he]; congr 1; ring
      _ ≤ num := hnl
  have hhigh : (num / den : ℚ) < 10 ^ (e + 1) := by
    rw [div_lt_iff₀ hdq]
    calc (num : ℚ) < 10 ^ (digitCount num : Int) := hnu
      _ = 10 ^ (e + 1) * 10 ^ (digitCount den - 1 : Int) := by
        rw [← zpow_add₀ hten, he]; congr 1; ring
      _ ≤ 10 ^ (e + 1) * den := mul_le_mul_of_nonneg_left hdl (by positivity)
  have hs := scaled_ratio num den (-e)
  have hspos : (0 : ℚ) < (scaled num den (-e)).2 := by exact_mod_cast scaled_pos num hd (-e)
  have htest : (scaled num den (-e)).2 ≤ (scaled num den (-e)).1 ↔ (10 : ℚ) ^ e ≤ num / den := by
    rw [← Nat.cast_le (α := ℚ), ← one_le_div hspos, hs, zpow_neg, ← div_eq_mul_inv,
      one_le_div (by positivity)]
  rw [leadingExponent]
  simp only [← he]
  split_ifs with h
  · exact ⟨htest.mp h, hhigh⟩
  · rw [htest, not_le] at h
    exact ⟨hlow, by rwa [sub_add_cancel]⟩

def lastExponent (count num den : Nat) : Int := leadingExponent num den + 1 - count

/-- The fraction in units of the last digit, rounded; `10 ^ count` where all digits carry. -/
def rounded (count num den : Nat) : Nat :=
  let s := scaled num den (-lastExponent count num den)
  roundHalfEven s.1 s.2

theorem significant_eq (hn : 0 < num) :
    significant count num den =
      if rounded count num den = 10 ^ count then ⟨10 ^ (count - 1), lastExponent count num den + 1⟩
      else ⟨rounded count num den, lastExponent count num den⟩ := if_neg hn.ne'

theorem lastExponent_add (hc : 0 < count) :
    (10 : ℚ) ^ (count - 1) * 10 ^ lastExponent count num den = 10 ^ leadingExponent num den := by
  have hcount : ((count - 1 : Nat) : Int) = count - 1 := by omega
  rw [← zpow_natCast, ← zpow_add₀ (by norm_num), hcount, lastExponent]
  congr 1
  ring

theorem rounded_bounds (hn : 0 < num) (hd : 0 < den) (hc : 0 < count) :
    10 ^ (count - 1) ≤ rounded count num den ∧ rounded count num den ≤ 10 ^ count := by
  obtain ⟨hlow, hhigh⟩ := leadingExponent_bounds hn hd
  have hlast : (10 : ℚ) ^ (count - 1) * 10 ^ lastExponent count num den = _ := lastExponent_add hc
  have hpow : (10 : ℚ) ^ count = 10 ^ (count - 1) * 10 := by
    rw [← pow_succ, Nat.sub_add_cancel hc]
  set e := lastExponent count num den
  have hs : (0 : ℚ) < (scaled num den (-e)).2 := by exact_mod_cast scaled_pos num hd _
  have hratio := scaled_ratio num den (-e)
  have he : (0 : ℚ) < 10 ^ e := by positivity
  rw [zpow_neg, ← div_eq_mul_inv, div_eq_iff hs.ne'] at hratio
  constructor
  · refine le_roundHalfEven (scaled_pos num hd _) ?_
    have h : (10 : ℚ) ^ (count - 1) ≤ num / den / 10 ^ e := by
      rw [le_div_iff₀ he, hlast]
      exact hlow
    have hmul := mul_le_mul_of_nonneg_right h hs.le
    rw [← hratio] at hmul
    exact_mod_cast hmul
  · refine roundHalfEven_le (scaled_pos num hd _) ?_
    have h : (num / den / 10 ^ e : ℚ) ≤ 10 ^ count := by
      rw [div_le_iff₀ he, hpow, mul_right_comm, hlast, ← zpow_add_one₀ (by norm_num)]
      exact hhigh.le
    have hmul := mul_le_mul_of_nonneg_right h hs.le
    rw [← hratio] at hmul
    exact_mod_cast hmul

theorem rounded_near (count num : Nat) (hd : 0 < den) :
    2 * |(rounded count num den : ℚ) * 10 ^ lastExponent count num den - num / den| ≤
      10 ^ lastExponent count num den := by
  set e := lastExponent count num den
  have he : (0 : ℚ) < 10 ^ e := by positivity
  have hr := roundHalfEven_near (scaled num den (-e)).1 (scaled_pos num hd (-e))
  change |(rounded count num den : ℚ) - _| ≤ _ at hr
  rw [scaled_ratio, zpow_neg, ← div_eq_mul_inv] at hr
  have hsplit : (rounded count num den : ℚ) * 10 ^ e - num / den =
      (rounded count num den - num / den / 10 ^ e) * 10 ^ e := by
    rw [sub_mul, div_mul_cancel₀ _ he.ne']
  rw [hsplit, abs_mul, abs_of_pos he, ← mul_assoc]
  exact mul_le_of_le_one_left he.le (by linarith)

theorem digits_significant (hn : 0 < num) (hd : 0 < den) (hc : 0 < count) :
    10 ^ (count - 1) ≤ (significant count num den).digits ∧
      (significant count num den).digits < 10 ^ count := by
  obtain ⟨hlow, hhigh⟩ := rounded_bounds hn hd hc
  rw [significant_eq hn]
  split_ifs with h
  · exact ⟨le_rfl, Nat.pow_lt_pow_right (by decide) (by omega)⟩
  · exact ⟨hlow, lt_of_le_of_ne hhigh h⟩

/-- A carry through all digits leaves the value alone. -/
theorem value_significant (hn : 0 < num) (hc : 0 < count) :
    (significant count num den).value =
      rounded count num den * 10 ^ lastExponent count num den := by
  rw [significant_eq hn]
  split_ifs with h
  · have hpow : 10 ^ count = 10 ^ (count - 1) * 10 := by
      rw [← Nat.pow_succ, Nat.succ_eq_add_one, Nat.sub_add_cancel hc]
    rw [h, hpow, value, zpow_add_one₀ (by norm_num : (10 : ℚ) ≠ 0)]
    push_cast
    ring
  · rfl

theorem value_significant_near (num : Nat) (hd : 0 < den) (hc : 0 < count) :
    2 * 10 ^ (count - 1) * |(significant count num den).value - num / den| ≤ num / den := by
  obtain rfl | hn := Nat.eq_zero_or_pos num
  · simp [significant, value]
  · rw [value_significant hn hc, mul_comm (2 : ℚ), mul_assoc]
    calc (10 : ℚ) ^ (count - 1) *
          (2 * |(rounded count num den : ℚ) * 10 ^ lastExponent count num den - num / den|)
        ≤ 10 ^ (count - 1) * 10 ^ lastExponent count num den :=
          mul_le_mul_of_nonneg_left (rounded_near count num hd) (by positivity)
      _ = 10 ^ leadingExponent num den := lastExponent_add hc
      _ ≤ num / den := (leadingExponent_bounds hn hd).1

theorem near_of_significant_eq {num' den' : Nat} (hd : 0 < den) (hd' : 0 < den') (hc : 0 < count)
    (h : significant count num den = significant count num' den') :
    2 * 10 ^ (count - 1) * |(num / den - num' / den' : ℚ)| ≤ num / den + num' / den' := by
  have hx := value_significant_near num hd hc
  have hy := value_significant_near num' hd' hc
  rw [← h] at hy
  set d := (significant count num den).value
  have hsplit : |(num / den - num' / den' : ℚ)| ≤ |d - num / den| + |d - num' / den'| := by
    rw [abs_sub_comm d]
    exact abs_sub_le _ _ _
  calc 2 * 10 ^ (count - 1) * |(num / den - num' / den' : ℚ)|
      ≤ 2 * 10 ^ (count - 1) * (|d - num / den| + |d - num' / den'|) :=
        mul_le_mul_of_nonneg_left hsplit (by positivity)
    _ ≤ num / den + num' / den' := by
        rw [mul_add]
        exact add_le_add hx hy

end Decimal

namespace Format

variable (f : Format)

theorem ratio_eq (c : Nat) : ((f.ratio c).1 / (f.ratio c).2 : ℚ) = f.units c / f.unity := by
  simp only [ratio, units, unity, Nat.shiftLeft_eq, Nat.one_mul]
  push_cast
  rw [div_eq_div_iff (by positivity) (by positivity), mul_assoc, mul_assoc, ← pow_add, ← pow_add]
  congr 2
  omega

theorem ratio_pos (c : Nat) : 0 < (f.ratio c).2 := by
  simp [ratio, Nat.shiftLeft_eq]

/-- Digits tell data apart if every number of so many digits exceeds the significands. -/
theorem eq_of_significant_eq {count : Nat} (hc : 0 < count) (hf : 2 * f.binade ≤ 10 ^ (count - 1))
    {c d : Nat} (h : Decimal.significant count (f.ratio c).1 (f.ratio c).2 =
      Decimal.significant count (f.ratio d).1 (f.ratio d).2) : c = d := by
  wlog hle : c ≤ d generalizing c d
  · exact (this h.symm (Nat.le_of_not_le hle)).symm
  obtain heq | hlt := Nat.eq_or_lt_of_le hle
  · exact heq
  exfalso
  have hunit : (0 : ℚ) < f.unity := by exact_mod_cast f.unity_pos
  have hmono : f.units c < f.units d := f.units_strictMono hlt
  have hmonoq : (f.units c : ℚ) < f.units d := by exact_mod_cast hmono
  have hnear := Decimal.near_of_significant_eq (f.ratio_pos c) (f.ratio_pos d) hc h
  rw [f.ratio_eq, f.ratio_eq, ← sub_div, ← add_div, abs_div, abs_of_pos hunit, mul_div_assoc',
    div_le_div_iff_of_pos_right hunit, abs_sub_comm, abs_of_pos (sub_pos.mpr hmonoq)] at hnear
  have hgap : (f.units d : ℚ) ≤ 2 * f.binade * (f.units d - f.units c) := by
    have hg := f.units_le_gap hlt
    rw [← Nat.cast_sub hmono.le]
    exact_mod_cast hg
  have hfq : (2 * f.binade : ℚ) ≤ 10 ^ (count - 1) := by exact_mod_cast hf
  have hmany := mul_le_mul_of_nonneg_right hfq (sub_pos.mpr hmonoq).le
  linarith

end Format

end Conformance
