import Mathlib
import Conformance.Proofs.Returns
import Conformance.Word

namespace Conformance.Word

variable {w n : Nat} {x y : BitVec w}

theorem plus_returns (h : x.toNat + y.toNat < 2 ^ w) :
    Returns (plus false x y) fun z => z.toNat = x.toNat + y.toNat := by
  have hfits : ¬x.uaddOverflow y := by simpa [BitVec.uaddOverflow] using h
  exact ⟨_, if_neg hfits, BitVec.toNat_add_of_not_uaddOverflow hfits⟩

theorem minus_returns (h : y.toNat ≤ x.toNat) :
    Returns (minus false x y) fun z => z.toNat = x.toNat - y.toNat := by
  have hfits : ¬x.usubOverflow y := by simpa [BitVec.usubOverflow] using h
  exact ⟨_, if_neg hfits, BitVec.toNat_sub_of_not_usubOverflow hfits⟩

theorem plus_signed_returns (hlow : -2 ^ (w - 1) ≤ x.toInt + y.toInt)
    (hhigh : x.toInt + y.toInt < 2 ^ (w - 1)) :
    Returns (plus true x y) fun z => z.toInt = x.toInt + y.toInt := by
  have hfits : ¬x.saddOverflow y := by
    rw [BitVec.saddOverflow, Bool.or_eq_true, decide_eq_true_eq, decide_eq_true_eq]
    omega
  exact ⟨_, if_neg hfits, BitVec.toInt_add_of_not_saddOverflow hfits⟩

theorem minus_signed_returns (hlow : -2 ^ (w - 1) ≤ x.toInt - y.toInt)
    (hhigh : x.toInt - y.toInt < 2 ^ (w - 1)) :
    Returns (minus true x y) fun z => z.toInt = x.toInt - y.toInt := by
  have hfits : ¬x.ssubOverflow y := by
    rw [BitVec.ssubOverflow, Bool.or_eq_true, decide_eq_true_eq, decide_eq_true_eq]
    omega
  exact ⟨_, if_neg hfits, BitVec.toInt_sub_of_not_ssubOverflow hfits⟩

theorem shiftLeft_returns (hn : n < w) (h : x.toNat * 2 ^ n < 2 ^ w) :
    Returns (shiftLeft x n) fun z => z.toNat = x.toNat * 2 ^ n := by
  have hnat : (x <<< n).toNat = x.toNat * 2 ^ n := by
    rw [BitVec.toNat_shiftLeft, Nat.shiftLeft_eq, Nat.mod_eq_of_lt h]
  exact ⟨_, if_pos hn, hnat⟩

theorem shiftRight_returns (hn : n < w) :
    Returns (shiftRight x n) fun z => z.toNat = x.toNat / 2 ^ n := by
  have hnat : (x >>> n).toNat = x.toNat / 2 ^ n := by
    rw [BitVec.toNat_ushiftRight, Nat.shiftRight_eq_div_pow]
  exact ⟨_, if_pos hn, hnat⟩

/-- Bits below the lowest one of a word are added to it. -/
theorem toNat_or_of_dvd (hx : 2 ^ n ∣ x.toNat) (hy : y.toNat < 2 ^ n) :
    (x ||| y).toNat = x.toNat + y.toNat := by
  obtain ⟨a, ha⟩ := hx
  rw [BitVec.toNat_or, ha, Nat.two_pow_add_eq_or_of_lt hy]

theorem toNat_and_mask (hy : y.toNat = 2 ^ n - 1) : (x &&& y).toNat = x.toNat % 2 ^ n := by
  rw [BitVec.toNat_and, hy, Nat.and_two_pow_sub_one_eq_mod]

theorem isOdd_eq (h : 0 < w) (x : BitVec w) : (x &&& 1 == 1) = decide (x.toNat % 2 = 1) := by
  have hone : (1 : BitVec w).toNat = 1 := by
    change (BitVec.ofNat w 1).toNat = _
    rw [BitVec.toNat_ofNat, Nat.mod_eq_of_lt (Nat.one_lt_two_pow h.ne')]
  have hmask : (x &&& 1).toNat = x.toNat % 2 ^ 1 := toNat_and_mask hone
  rw [Nat.pow_one] at hmask
  rw [Bool.eq_iff_iff, beq_iff_eq, decide_eq_true_eq, ← BitVec.toNat_inj, hmask, hone]

theorem toNat_bit (w : Nat) (h : 0 < w) (b : Bool) :
    ((BitVec.ofBool b).setWidth w).toNat = b.toNat := by
  have hlt : b.toNat < 2 ^ w := b.toNat_lt.trans_le (Nat.pow_le_pow_right two_pos h)
  rw [BitVec.toNat_setWidth, BitVec.toNat_ofBool, Nat.mod_eq_of_lt hlt]

/-- A difference that is not negative is what subtraction gives, even where it does not fit a signed
word. -/
theorem toNat_sub_of_toInt_le (h : y.toInt ≤ x.toInt) :
    ((x - y).toNat : ℤ) = x.toInt - y.toInt := by
  have hx := BitVec.two_mul_toInt_lt (x := x)
  have hy := BitVec.le_two_mul_toInt (x := y)
  have hword := BitVec.toNat_ofInt (n := w) (x - y).toInt
  rw [BitVec.ofInt_toInt, BitVec.toInt_sub, Int.bmod_emod] at hword
  push_cast at hword
  rw [hword, Int.emod_eq_of_lt (by omega) (by omega), Int.toNat_of_nonneg (by omega)]

theorem toNat_apart_signed (x y : BitVec w) :
    (apart true x y).toNat = (x.toInt - y.toInt).natAbs := by
  rw [apart, cond_true]
  split_ifs with h
  · have hlt := BitVec.slt_iff_toInt_lt.mp h
    have hsub := toNat_sub_of_toInt_le hlt.le
    omega
  · have hle := Int.not_lt.mp (mt BitVec.slt_iff_toInt_lt.mpr h)
    have hsub := toNat_sub_of_toInt_le hle
    omega

theorem toNat_apart_unsigned (x y : BitVec w) :
    (apart false x y).toNat = (x.toNat - y.toNat : ℤ).natAbs := by
  rw [apart, cond_false]
  split_ifs with h
  · have hlt : x.toNat < y.toNat := BitVec.ult_iff_lt.mp h
    rw [BitVec.toNat_sub_of_le (BitVec.le_def.mpr hlt.le)]
    omega
  · have hle : y.toNat ≤ x.toNat := Nat.not_lt.mp (mt BitVec.ult_iff_lt.mpr h)
    rw [BitVec.toNat_sub_of_le (BitVec.le_def.mpr hle)]
    omega

end Conformance.Word
