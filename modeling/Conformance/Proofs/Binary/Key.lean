import Mathlib
import Conformance.Proofs.Binary.Number

namespace Conformance.Binary

variable {f : Format} {x y : Binary f}

theorem key_bounds (x : Binary f) : -(f.signWeight : ℤ) ≤ x.key ∧ x.key < f.signWeight := by
  have hc := x.code_lt
  rw [key]
  split <;> omega

theorem key_neg_iff : x.key < 0 ↔ x.isNegative := by
  rw [key]
  cases x.isNegative with
  | true =>
    simp only [if_true, iff_true]
    omega
  | false =>
    simp only [Bool.false_eq_true, if_false, iff_false]
    omega

theorem key_injective : Function.Injective (key : Binary f → ℤ) := by
  intro x y h
  have hs : x.isNegative = y.isNegative := by
    rw [Bool.eq_iff_iff, ← key_neg_iff, ← key_neg_iff, h]
  have hc : x.code = y.code := by
    rw [key, key, hs] at h
    split at h <;> omega
  exact ext_code hs hc

/-- Every whole number in between is the key of a pattern. -/
theorem range_key : Set.range (key : Binary f → ℤ) =
    Set.Ico (-(f.signWeight : ℤ)) f.signWeight := by
  apply Set.Subset.antisymm
  · rintro _ ⟨x, rfl⟩
    exact x.key_bounds
  · rintro n ⟨hlow, hhigh⟩
    obtain hn | hn := Int.lt_or_le n 0
    · have hc : (-n - 1).toNat < f.signWeight := by omega
      refine ⟨ofCode f true (-n - 1).toNat, ?_⟩
      rw [key, isNegative_ofCode hc, code_ofCode hc, if_pos rfl]
      omega
    · have hc : n.toNat < f.signWeight := by omega
      refine ⟨ofCode f false n.toNat, ?_⟩
      rw [key, isNegative_ofCode hc, code_ofCode hc, if_neg Bool.false_ne_true]
      omega

theorem eq_zero_iff (negative : Bool) :
    x = zero negative ↔ x.isNegative = negative ∧ x.code = 0 := by
  constructor
  · rintro rfl
    exact ⟨isNegative_zero negative, code_zero negative⟩
  · rintro ⟨hs, hc⟩
    exact ext_code (by rw [hs, isNegative_zero]) (by rw [hc, code_zero])

theorem key_lt_iff (x y : Binary f) :
    x.key < y.key ↔ x.position < y.position ∨ x = zero true ∧ y = zero false := by
  rw [eq_zero_iff, eq_zero_iff]
  unfold key position
  cases x.isNegative <;> cases y.isNegative <;> simp <;> omega

theorem natAbs_key_sub_lt (x y : Binary f) : (x.key - y.key).natAbs < 2 ^ f.width := by
  have hx := x.key_bounds
  have hy := y.key_bounds
  rw [← f.two_signWeight]
  omega

theorem natAbs_key_sub_lt_size (x y : Binary f) : (x.key - y.key).natAbs < UInt64.size := by
  have hlt := natAbs_key_sub_lt x y
  have hwidth : 2 ^ f.width ≤ UInt64.size := by cases f <;> decide
  omega

theorem ulps_eq (x y : Binary f) : x.ulps y = (x.key - y.key).natAbs := by
  have hlt := natAbs_key_sub_lt_size x y
  rw [ulps]
  omega

theorem ulps_comm (x y : Binary f) : x.ulps y = y.ulps x := by
  rw [ulps_eq, ulps_eq, ← Int.natAbs_neg, Int.neg_sub]

theorem ulps_eq_zero_iff : x.ulps y = 0 ↔ x = y := by
  rw [ulps_eq, Int.natAbs_eq_zero, Int.sub_eq_zero, key_injective.eq_iff]

theorem ulps_triangle (x y z : Binary f) : x.ulps z ≤ x.ulps y + y.ulps z := by
  rw [ulps_eq, ulps_eq, ulps_eq]
  omega

/-- The patterns that stand strictly between two others. -/
def between (x y : Binary f) : Set (Binary f) := {z | z.key ∈ Set.uIoo x.key y.key}

theorem ncard_between (x y : Binary f) : (between x y).ncard = (x.key - y.key).natAbs - 1 := by
  have hx := x.key_bounds
  have hy := y.key_bounds
  have hsub : Set.uIoo x.key y.key ⊆ Set.range (key : Binary f → ℤ) := by
    rw [range_key]
    rintro n ⟨hlow, hhigh⟩
    constructor <;> omega
  have hcard : (between x y).ncard = (Set.uIoo x.key y.key).ncard :=
    Set.ncard_preimage_of_injective_subset_range key_injective hsub
  rw [hcard, Set.uIoo, ← Finset.coe_Ioo, Set.ncard_coe_finset, Int.card_Ioo]
  omega

/-- Keys number the patterns of a format in the order of their exact values, `-0` before `+0`, and
the distance of two patterns counts the steps between their keys: none is lost in 64 bits, and each
step but the last ends at a further pattern. -/
theorem ulps_count_patterns (f : Format) :
    Function.Injective (key : Binary f → ℤ) ∧
    Set.range (key : Binary f → ℤ) = Set.Ico (-(f.signWeight : ℤ)) f.signWeight ∧
    (∀ x y : Binary f, x.isNaN = false → y.isNaN = false →
      (x.key < y.key ↔ x.number < y.number ∨ x = zero true ∧ y = zero false)) ∧
    (∀ x y : Binary f, (x.ulps y : ℤ) = |x.key - y.key| ∧ |x.key - y.key| < UInt64.size ∧
      x.ulps y = y.ulps x ∧ (x.ulps y = 0 ↔ x.bits = y.bits)) ∧
    (∀ x y z : Binary f, x.ulps z ≤ x.ulps y + y.ulps z) ∧
    ∀ x y : Binary f, x ≠ y → x.ulps y = (between x y).ncard + 1 := by
  refine ⟨key_injective, range_key, ?_, ?_, ulps_triangle, ?_⟩
  · intro x y hx hy
    rw [key_lt_iff, number_lt_iff hx hy]
  · intro x y
    have hsize := natAbs_key_sub_lt_size x y
    rw [← Int.natCast_natAbs, ulps_eq_zero_iff]
    refine ⟨congrArg _ (ulps_eq x y), by exact_mod_cast hsize, ulps_comm x y, ?_⟩
    exact ⟨congrArg bits, fun h => ext_toBits (congrArg BitVec.toNat h)⟩
  · intro x y hne
    have hpos : x.ulps y ≠ 0 := fun h => hne (ulps_eq_zero_iff.mp h)
    rw [ulps_eq] at hpos
    rw [ncard_between, ulps_eq]
    omega

/-- From the greatest to the least double there are almost as many steps as 64 bits can count, and
the zeros are one step apart though their values are equal. -/
theorem ulps_count_patterns_extremes :
    let greatest : Double := greatest .double
    let lowest : Double := greatest.neg
    let minus : Half := zero true
    let plus : Half := zero false
    (greatest.isNaN = false ∧ lowest.isNaN = false) ∧ lowest.number < greatest.number ∧
      greatest.ulps lowest = 0xffdfffffffffffff ∧
      (between greatest lowest).ncard + 1 = 0xffdfffffffffffff ∧
      (minus.isNaN = false ∧ plus.isNaN = false) ∧ minus ≠ plus ∧ minus.key < plus.key ∧
      minus.ulps plus = 1 ∧ (between minus plus).ncard = 0 := by
  intro greatest lowest minus plus
  obtain ⟨-, -, horder, -, -, hbetween⟩ := ulps_count_patterns .double
  obtain ⟨-, -, hzeros, -, -, hnext⟩ := ulps_count_patterns .half
  have hn : greatest.isNaN = false ∧ lowest.isNaN = false := by decide +kernel
  have hz : minus.isNaN = false ∧ plus.isNaN = false := by decide +kernel
  have hkey : lowest.key < greatest.key := by decide +kernel
  have hulps : greatest.ulps lowest = 0xffdfffffffffffff := by decide +kernel
  have hstep : minus.ulps plus = 1 := by decide +kernel
  have hne : greatest ≠ lowest := by decide +kernel
  have hne' : minus ≠ plus := by decide +kernel
  have hcount := hbetween _ _ hne
  have hcount' := hnext _ _ hne'
  refine ⟨hn, ?_, hulps, by omega, hz, hne', ?_, hstep, by omega⟩
  · obtain hlt | ⟨hzero, -⟩ := (horder _ _ hn.2 hn.1).mp hkey
    · exact hlt
    · exact absurd hzero (by decide +kernel)
  · exact (hzeros _ _ hz.1 hz.2).mpr (.inr ⟨rfl, rfl⟩)

end Conformance.Binary
