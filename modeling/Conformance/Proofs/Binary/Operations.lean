import Mathlib
import Conformance.Proofs.Binary.Exactness

namespace Conformance.Binary

variable {f : Format}

@[simp]
theorem code_nearest (negative : Bool) (num den : Nat) :
    (nearest f negative num den).code = f.nearestCode num den :=
  code_ofCode ((Format.nearestCode_le num den).trans_lt f.infinityCode_lt) negative

@[simp]
theorem isNegative_nearest (negative : Bool) (num den : Nat) :
    (nearest f negative num den).isNegative = negative :=
  isNegative_ofCode ((Format.nearestCode_le num den).trans_lt f.infinityCode_lt) negative

@[simp]
theorem isNaN_nearest (negative : Bool) (num den : Nat) :
    (nearest f negative num den).isNaN = false := by
  rw [isNaN_eq_false_iff, code_nearest]
  exact Format.nearestCode_le num den

theorem code_ofNat_eq (n : Nat) : (ofNat f n).code = f.nearestCode (n * f.unity) 1 :=
  code_nearest ..

theorem units_ofNat {n : Nat} (hn : n ≤ 2 * f.binade) : f.units (ofNat f n).code = n * f.unity := by
  have h := Format.units_nearestCode (Format.represents_whole hn) Nat.one_pos
  rw [Nat.mul_one] at h
  rw [code_ofNat_eq, h]

/-- Up to a whole number that the format holds none is rounded to infinity. -/
theorem isFinite_ofNat_of_le {n k : Nat} (hn : n ≤ k) (hk : f.Represents (k * f.unity)) :
    (ofNat f n).isFinite := by
  rw [isFinite_iff, code_ofNat_eq]
  apply Format.nearestCode_lt hk Nat.one_pos
  rw [Nat.mul_one]
  exact Nat.mul_le_mul_right _ hn

theorem isFinite_ofNat {n : Nat} (hn : n ≤ 2 * f.binade) : (ofNat f n).isFinite :=
  isFinite_ofNat_of_le (le_refl n) (Format.represents_whole hn)

theorem isZero_ofNat {n : Nat} (h0 : 0 < n) (hn : n ≤ 2 * f.binade) :
    (ofNat f n).isZero = false := by
  have hu := units_ofNat hn
  have hp : 0 < n * f.unity := Nat.mul_pos h0 f.unity_pos
  rw [isZero, decide_eq_false_iff_not]
  intro hc
  rw [hc, Format.units_zero] at hu
  exact hp.ne hu

@[simp]
theorem code_ofInt (n : Int) : (ofInt f n).code = (ofNat f n.natAbs).code := by
  simp [ofInt, ofNat, ofRatio]

@[simp]
theorem isNegative_ofInt (n : Int) : (ofInt f n).isNegative = decide (n < 0) := by
  simp [ofInt]

theorem div_of_isFinite {x y : Binary f} (hx : x.isFinite) (hy : y.isFinite)
    (hz : y.isZero = false) :
    x / y = nearest f (x.isNegative != y.isNegative) (f.units x.code * f.unity)
      (f.units y.code) := by
  change div x y = _
  simp [div, isNaN_of_isFinite hx, isNaN_of_isFinite hy, isInfinite_of_isFinite hx,
    isInfinite_of_isFinite hy, hz]

theorem mul_of_isFinite {x y : Binary f} (hx : x.isFinite) (hy : y.isFinite) :
    x * y = nearest f (x.isNegative != y.isNegative) (f.units x.code * f.units y.code) f.unity := by
  change mul x y = _
  simp [mul, isNaN_of_isFinite hx, isNaN_of_isFinite hy, isInfinite_of_isFinite hx,
    isInfinite_of_isFinite hy]

theorem mul_of_code_one {x y : Binary f} (hx : x.isFinite) (hy : y.code = (ofNat f 1).code) :
    x * y = ofCode f (x.isNegative != y.isNegative) x.code := by
  have hone : 1 ≤ 2 * f.binade := f.binade_pos.trans_le (Nat.le_mul_of_pos_left _ two_pos)
  have hyf : y.isFinite := by
    rw [isFinite_iff, hy]
    exact (isFinite_iff _).mp (isFinite_ofNat hone)
  have hself := Format.nearestCode_units ((isFinite_iff x).mp hx) f.unity_pos
  rw [mul_of_isFinite hx hyf, hy, units_ofNat hone, Nat.one_mul, nearest, hself]

theorem div_self_of_isFinite {x : Binary f} (hx : x.isFinite) (hz : x.isZero = false) :
    x / x = ofNat f 1 := by
  have hpos : 0 < f.units x.code := by
    rw [Nat.pos_iff_ne_zero, Ne, f.units_eq_zero_iff]
    simpa [isZero] using hz
  have hcode : f.nearestCode (f.units x.code * f.unity) (f.units x.code) =
      f.nearestCode f.unity 1 := by
    apply f.units_strictMono.injective
    have hone := Format.units_nearestCode (f := f) Format.represents_unity Nat.one_pos
    rw [Nat.mul_one] at hone
    rw [Nat.mul_comm, Format.units_nearestCode Format.represents_unity hpos, hone]
  rw [div_of_isFinite hx hx hz, bne_self_eq_false, nearest, hcode, ofNat, ofRatio, nearest,
    Nat.one_mul]

theorem isNaN_addFinite (x y : Binary f) : (addFinite x y).isNaN = false := by
  unfold addFinite
  dsimp only
  split_ifs <;> simp

theorem isNaN_sub {x y : Binary f} (hx : x.isFinite) (hy : y.isFinite) : (x - y).isNaN = false := by
  change (sub x y).isNaN = false
  have hn : y.neg.isInfinite = false := isInfinite_of_isFinite (by simpa using hy)
  simp [sub, addNumber, isNaN_of_isFinite hx, isNaN_of_isFinite hy, isInfinite_of_isFinite hx, hn,
    isNaN_addFinite]

theorem isNaN_div {x y : Binary f} (hx : x.isNaN = false) (hy : y.isFinite)
    (hz : y.isZero = false) :
    (x / y).isNaN = false := by
  change (div x y).isNaN = false
  simp only [div, hx, isNaN_of_isFinite hy, isInfinite_of_isFinite hy, hz]
  by_cases hi : x.isInfinite <;> simp [hi]

end Conformance.Binary
