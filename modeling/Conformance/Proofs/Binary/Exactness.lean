import Mathlib
import Conformance.Binary.Rounding
import Conformance.Proofs.Binary.Pattern

namespace Conformance

theorem roundHalfEven_error (num : Nat) {den : Nat} (hd : 0 < den) :
    2 * (roundHalfEven num den * den) ≤ 2 * num + den ∧
      2 * num ≤ 2 * (roundHalfEven num den * den) + den := by
  have hq := Nat.div_add_mod num den
  have hr := Nat.mod_lt num hd
  have hm : den * (num / den) = num / den * den := Nat.mul_comm _ _
  unfold roundHalfEven
  dsimp only
  split
  · rw [Nat.add_mul]
    omega
  · omega

theorem roundHalfEven_le {num den n : Nat} (hd : 0 < den) (h : num ≤ n * den) :
    roundHalfEven num den ≤ n := by
  by_contra hn
  have hm : (n + 1) * den ≤ roundHalfEven num den * den := Nat.mul_le_mul_right _ (by omega)
  have he := (roundHalfEven_error num hd).1
  have hs : (n + 1) * den = n * den + den := by ring
  omega

theorem le_roundHalfEven {num den n : Nat} (hd : 0 < den) (h : n * den ≤ num) :
    n ≤ roundHalfEven num den := by
  have hq : n ≤ num / den := (Nat.le_div_iff_mul_le hd).mpr h
  unfold roundHalfEven
  dsimp only
  split <;> omega

theorem roundHalfEven_mul (n : Nat) {den : Nat} (hd : 0 < den) :
    roundHalfEven (n * den) den = n :=
  Nat.le_antisymm (roundHalfEven_le hd (le_refl _)) (le_roundHalfEven hd (le_refl _))

theorem roundHalfEven_mul_mul (num den : Nat) {k : Nat} (hk : 0 < k) :
    roundHalfEven (num * k) (den * k) = roundHalfEven num den := by
  have hlt : den * k < 2 * (num % den * k) ↔ den < 2 * (num % den) := by
    rw [← Nat.mul_assoc, Nat.mul_lt_mul_right hk]
  have heq : 2 * (num % den * k) = den * k ↔ 2 * (num % den) = den := by
    rw [← Nat.mul_assoc, Nat.mul_left_inj hk.ne']
  simp only [roundHalfEven, Nat.mul_div_mul_right _ _ hk, Nat.mul_mod_mul_right, hlt, heq]

theorem roundHalfEven_eq_of_near {num den n : Nat} (hl : 2 * (n * den) < 2 * num + den)
    (hu : 2 * num < 2 * (n * den) + den) : roundHalfEven num den = n := by
  have hd : 0 < den := by omega
  obtain ⟨h1, h2⟩ := roundHalfEven_error num hd
  set r := roundHalfEven num den
  have hle : r < n + 1 := by
    by_contra hc
    have hm : (n + 1) * den ≤ r * den := Nat.mul_le_mul_right _ (by omega)
    have hs : (n + 1) * den = n * den + den := by ring
    omega
  have hge : n < r + 1 := by
    by_contra hc
    have hm : (r + 1) * den ≤ n * den := Nat.mul_le_mul_right _ (by omega)
    have hs : (r + 1) * den = r * den + den := by ring
    omega
  omega

namespace Format

variable (f : Format)

theorem units_low {r : Nat} (h : r < f.binade) : f.units r = r := by
  simp [units, significand, shift, Nat.div_eq_of_lt h]

theorem units_binade (e : Nat) {r : Nat} (h : r < f.binade) :
    f.units ((e + 1) * f.binade + r) = (f.binade + r) * 2 ^ e := by
  have hb := f.binade_pos
  have hq : ((e + 1) * f.binade + r) / f.binade = e + 1 := by
    rw [Nat.add_comm, Nat.add_mul_div_right _ _ hb, Nat.div_eq_of_lt h, Nat.zero_add]
  have hr : ((e + 1) * f.binade + r) % f.binade = r := by
    rw [Nat.add_comm, Nat.add_mul_mod_self_right, Nat.mod_eq_of_lt h]
  simp [units, significand, shift, hq, hr, Nat.shiftLeft_eq]

theorem units_lt_succ (c : Nat) : f.units c < f.units (c + 1) := by
  have hb := f.binade_pos
  have hc : c / f.binade * f.binade + c % f.binade = c := by
    rw [Nat.mul_comm]
    exact Nat.div_add_mod c f.binade
  have hr := Nat.mod_lt c hb
  generalize c / f.binade = q at hc
  generalize c % f.binade = r at hc hr
  subst hc
  cases q with
  | zero =>
    rw [Nat.zero_mul, Nat.zero_add, f.units_low hr]
    by_cases hs : r + 1 < f.binade
    · rw [f.units_low hs]
      omega
    · have he : r + 1 = (0 + 1) * f.binade + 0 := by omega
      rw [he, f.units_binade 0 hb]
      omega
  | succ e =>
    rw [f.units_binade e hr]
    have hp : 0 < 2 ^ e := Nat.two_pow_pos e
    by_cases hs : r + 1 < f.binade
    · rw [Nat.add_assoc, f.units_binade e hs]
      exact Nat.mul_lt_mul_of_pos_right (by omega) hp
    · have he : (e + 1) * f.binade + r + 1 = (e + 1 + 1) * f.binade + 0 := by
        rw [Nat.add_mul (e + 1) 1]
        omega
      have ht : (f.binade + 0) * 2 ^ (e + 1) = 2 * f.binade * 2 ^ e := by ring
      rw [he, f.units_binade (e + 1) hb, ht]
      exact Nat.mul_lt_mul_of_pos_right (by omega) hp

theorem units_strictMono : StrictMono f.units := strictMono_nat_of_lt_succ f.units_lt_succ

@[simp]
theorem units_zero : f.units 0 = 0 := f.units_low f.binade_pos

theorem units_eq_zero_iff {c : Nat} : f.units c = 0 ↔ c = 0 := by
  constructor
  · intro h
    apply f.units_strictMono.injective
    rw [h, units_zero]
  · rintro rfl
    exact f.units_zero

/-- A significand `r` behind `e` full binades, also where it carries into the next one. -/
theorem units_shifted {e r : Nat} (hr : r ≤ 2 * f.binade) (he : e = 0 ∨ f.binade ≤ r) :
    f.units (e * f.binade + r) = r * 2 ^ e := by
  have hb := f.binade_pos
  obtain hlow | hhigh := Nat.lt_or_ge r f.binade
  · obtain rfl : e = 0 := by omega
    rw [Nat.zero_mul, Nat.zero_add, f.units_low hlow]
    omega
  · obtain hlt | hge := Nat.lt_or_ge r (2 * f.binade)
    · have hs : e * f.binade + r = (e + 1) * f.binade + (r - f.binade) := by
        rw [Nat.add_mul]
        omega
      rw [hs, f.units_binade e (by omega)]
      congr 1
      omega
    · obtain rfl : r = 2 * f.binade := by omega
      have hs : e * f.binade + 2 * f.binade = (e + 1 + 1) * f.binade + 0 := by ring
      rw [hs, f.units_binade (e + 1) hb]
      ring

theorem shift_significand (c : Nat) :
    f.shift c * f.binade + f.significand c = c ∧ f.significand c < 2 * f.binade ∧
      (f.shift c = 0 ∨ f.binade ≤ f.significand c) := by
  have hr := Nat.mod_lt c f.binade_pos
  have hc := Nat.div_add_mod c f.binade
  rw [shift, significand]
  split_ifs with h
  · rw [h, Nat.mul_zero, Nat.zero_add] at hc
    rw [h]
    omega
  · obtain ⟨e, he⟩ := Nat.exists_eq_succ_of_ne_zero h
    rw [he, Nat.mul_succ, Nat.mul_comm] at hc
    rw [he, Nat.succ_sub_one]
    omega

theorem units_le_gap {c d : Nat} (h : c < d) :
    f.units d ≤ 2 * f.binade * (f.units d - f.units c) := by
  obtain ⟨hc, hs, he⟩ := f.shift_significand c
  set s := f.significand c
  set e := f.shift c
  have hlow : f.units c = s * 2 ^ e := by
    rw [← hc]
    exact f.units_shifted hs.le he
  have hnext : f.units (c + 1) = (s + 1) * 2 ^ e := by
    rw [← hc, Nat.add_assoc]
    exact f.units_shifted hs (he.imp_right fun h => h.trans (Nat.le_succ s))
  have hd : f.units (c + 1) ≤ f.units d := f.units_strictMono.monotone h
  obtain ⟨k, hk⟩ := Nat.le.dest hd
  have hgap : f.units d - f.units c = 2 ^ e + k := by
    rw [← hk, hlow, hnext, Nat.succ_mul, Nat.add_assoc, Nat.add_sub_cancel_left]
  rw [hgap, ← hk, hnext, Nat.mul_add]
  have hb := f.binade_pos
  exact Nat.add_le_add (Nat.mul_le_mul_right _ hs) (Nat.le_mul_of_pos_left k (by omega))

/-- A number of least subnormals whose significand fits. -/
def Represents (n : Nat) : Prop := ∃ s t, s < 2 * f.binade ∧ t ≤ f.maxShift ∧ n = s * 2 ^ t

variable {f}

theorem represents_zero : f.Represents 0 := by
  have hb := f.binade_pos
  exact ⟨0, 0, by omega, Nat.zero_le _, rfl⟩

theorem represents_units {c : Nat} (hc : c < f.infinityCode) : f.Represents (f.units c) := by
  have hb := f.binade_pos
  have hs : c / f.binade * f.binade + c % f.binade = c := by
    rw [Nat.mul_comm]
    exact Nat.div_add_mod c f.binade
  have hr := Nat.mod_lt c hb
  have hq : c / f.binade < f.maxShift + 2 := by
    rw [Nat.div_lt_iff_lt_mul hb, ← f.infinityCode_eq]
    exact hc
  generalize c / f.binade = q at hs hq
  generalize c % f.binade = r at hs hr
  subst hs
  cases q with
  | zero =>
    refine ⟨r, 0, by omega, by omega, ?_⟩
    rw [Nat.zero_mul, Nat.zero_add, f.units_low hr, Nat.pow_zero, Nat.mul_one]
  | succ e =>
    exact ⟨f.binade + r, e, by omega, by omega, f.units_binade e hr⟩

theorem excess_le {n k : Nat} (h : n < 2 * f.binade * 2 ^ k) : f.excess n ≤ k := by
  have hp : n < 2 ^ (f.fractionBits + k + 1) := by
    rw [f.binade_eq] at h
    calc n < 2 * 2 ^ f.fractionBits * 2 ^ k := h
      _ = 2 ^ (f.fractionBits + k + 1) := by ring
  obtain rfl | hn := Nat.eq_zero_or_pos n
  · simp [excess]
  · have hl := (Nat.log2_lt (by omega)).mpr hp
    rw [excess]
    omega

theorem lt_of_excess (n : Nat) : n < 2 * f.binade * 2 ^ f.excess n := by
  obtain rfl | hn := Nat.eq_zero_or_pos n
  · have hb := f.binade_pos
    positivity
  · have hl := (Nat.log2_lt (k := f.fractionBits + f.excess n + 1) (by omega : n ≠ 0)).mp
      (by unfold excess; omega)
    calc n < 2 ^ (f.fractionBits + f.excess n + 1) := hl
      _ = 2 * f.binade * 2 ^ f.excess n := by rw [f.binade_eq]; ring

theorem le_of_excess_pos {n : Nat} (h : 0 < f.excess n) : f.binade * 2 ^ f.excess n ≤ n := by
  unfold excess at h ⊢
  have hn : n ≠ 0 := by
    rintro rfl
    simp at h
  have hl := (Nat.le_log2 (k := n.log2) hn).mp (le_refl _)
  calc f.binade * 2 ^ (n.log2 - f.fractionBits)
      = 2 ^ (f.fractionBits + (n.log2 - f.fractionBits)) := by rw [f.binade_eq, Nat.pow_add]
    _ = 2 ^ n.log2 := by congr 1; omega
    _ ≤ n := hl

/-- The code that rounding chooses before it is cut at infinity. -/
def unboundedCode (f : Format) (num den : Nat) : Nat :=
  f.excess (num / den) * f.binade + roundHalfEven num (den <<< f.excess (num / den))

theorem nearestCode_eq (num den : Nat) :
    f.nearestCode num den = min (f.unboundedCode num den) f.infinityCode := rfl

theorem nearestCode_le (num den : Nat) : f.nearestCode num den ≤ f.infinityCode :=
  Nat.min_le_right _ _

theorem significand_bounds (num : Nat) {den : Nat} (hd : 0 < den) :
    roundHalfEven num (den * 2 ^ f.excess (num / den)) ≤ 2 * f.binade ∧
      (f.excess (num / den) = 0 ∨
        f.binade ≤ roundHalfEven num (den * 2 ^ f.excess (num / den))) := by
  set e := f.excess (num / den) with he
  have hde : 0 < den * 2 ^ e := Nat.mul_pos hd (Nat.two_pow_pos e)
  have hlt : num / den < 2 * f.binade * 2 ^ e := lt_of_excess _
  refine ⟨roundHalfEven_le hde ?_, ?_⟩
  · have h := (Nat.div_lt_iff_lt_mul hd).mp hlt
    calc num ≤ 2 * f.binade * 2 ^ e * den := h.le
      _ = 2 * f.binade * (den * 2 ^ e) := by ring
  · obtain h0 | hpos := Nat.eq_zero_or_pos e
    · exact .inl h0
    · right
      apply le_roundHalfEven hde
      have h := (Nat.le_div_iff_mul_le hd).mp (le_of_excess_pos (he ▸ hpos))
      calc f.binade * (den * 2 ^ e) = f.binade * 2 ^ e * den := by ring
        _ ≤ num := h

theorem units_unboundedCode (num : Nat) {den : Nat} (hd : 0 < den) :
    f.units (f.unboundedCode num den) =
      roundHalfEven num (den * 2 ^ f.excess (num / den)) * 2 ^ f.excess (num / den) := by
  obtain ⟨hle, hge⟩ := significand_bounds (f := f) num hd
  rw [unboundedCode, Nat.shiftLeft_eq]
  exact f.units_shifted hle hge

/-- Rounding is off by at most half a step at the magnitude of the exact quotient. -/
theorem units_unboundedCode_error (num : Nat) {den : Nat} (hd : 0 < den) :
    2 * (f.units (f.unboundedCode num den) * den) ≤ 2 * num + den * 2 ^ f.excess (num / den) ∧
      2 * num ≤ 2 * (f.units (f.unboundedCode num den) * den) + den * 2 ^ f.excess (num / den) := by
  rw [units_unboundedCode num hd]
  set e := f.excess (num / den)
  have h := roundHalfEven_error num (Nat.mul_pos hd (Nat.two_pow_pos e))
  have hc (r : Nat) : r * 2 ^ e * den = r * (den * 2 ^ e) := by ring
  rw [hc]
  exact h

/-- What is at most a representable number is not rounded beyond it. -/
theorem units_unboundedCode_le {n num den : Nat} (h : f.Represents n) (hd : 0 < den)
    (hn : num ≤ n * den) : f.units (f.unboundedCode num den) ≤ n := by
  obtain ⟨s, t, hs, -, rfl⟩ := h
  rw [units_unboundedCode num hd]
  have he : f.excess (num / den) ≤ t := by
    apply excess_le
    calc num / den ≤ s * 2 ^ t := Nat.div_le_of_le_mul (by rwa [Nat.mul_comm])
      _ < 2 * f.binade * 2 ^ t := Nat.mul_lt_mul_of_pos_right hs (Nat.two_pow_pos t)
  set e := f.excess (num / den)
  have hp : s * 2 ^ t = s * 2 ^ (t - e) * 2 ^ e := by
    rw [Nat.mul_assoc, ← Nat.pow_add, Nat.sub_add_cancel he]
  rw [hp]
  apply Nat.mul_le_mul_right
  apply roundHalfEven_le (Nat.mul_pos hd (Nat.two_pow_pos e))
  calc num ≤ s * 2 ^ t * den := hn
    _ = s * 2 ^ (t - e) * (den * 2 ^ e) := by rw [hp]; ring

theorem le_units_unboundedCode {n num den : Nat} (h : f.Represents n) (hd : 0 < den)
    (hn : n * den ≤ num) : n ≤ f.units (f.unboundedCode num den) := by
  obtain ⟨s, t, hs, -, rfl⟩ := h
  rw [units_unboundedCode num hd]
  set e := f.excess (num / den) with he
  have hde : 0 < den * 2 ^ e := Nat.mul_pos hd (Nat.two_pow_pos e)
  obtain hlt | hle := Nat.lt_or_ge t e
  · -- the quotient is above all that a shorter shift gives
    have hb := (Nat.le_div_iff_mul_le hd).mp (le_of_excess_pos (he ▸ Nat.zero_lt_of_lt hlt))
    have hr : f.binade ≤ roundHalfEven num (den * 2 ^ e) := by
      apply le_roundHalfEven hde
      calc f.binade * (den * 2 ^ e) = f.binade * 2 ^ e * den := by ring
        _ ≤ num := hb
    calc s * 2 ^ t ≤ 2 * f.binade * 2 ^ t := Nat.mul_le_mul_right _ hs.le
      _ = f.binade * 2 ^ (t + 1) := by ring
      _ ≤ f.binade * 2 ^ e := Nat.mul_le_mul_left _ (Nat.pow_le_pow_right (by omega) hlt)
      _ ≤ roundHalfEven num (den * 2 ^ e) * 2 ^ e := Nat.mul_le_mul_right _ hr
  · have hp : s * 2 ^ t = s * 2 ^ (t - e) * 2 ^ e := by
      rw [Nat.mul_assoc, ← Nat.pow_add, Nat.sub_add_cancel hle]
    rw [hp]
    apply Nat.mul_le_mul_right
    apply le_roundHalfEven hde
    calc s * 2 ^ (t - e) * (den * 2 ^ e) = s * 2 ^ t * den := by rw [hp]; ring
      _ ≤ num := hn

theorem represents_lt {n : Nat} (h : f.Represents n) : n < f.units f.infinityCode := by
  obtain ⟨s, t, hs, ht, rfl⟩ := h
  have hi : f.infinityCode = (f.maxShift + 1 + 1) * f.binade + 0 := f.infinityCode_eq
  rw [hi, f.units_binade _ f.binade_pos]
  calc s * 2 ^ t < 2 * f.binade * 2 ^ t := Nat.mul_lt_mul_of_pos_right hs (Nat.two_pow_pos t)
    _ ≤ 2 * f.binade * 2 ^ f.maxShift :=
      Nat.mul_le_mul_left _ (Nat.pow_le_pow_right (by omega) ht)
    _ = (f.binade + 0) * 2 ^ (f.maxShift + 1) := by ring

theorem nearestCode_eq_unboundedCode {n num den : Nat} (h : f.Represents n) (hd : 0 < den)
    (hn : num ≤ n * den) : f.nearestCode num den = f.unboundedCode num den := by
  have hle := units_unboundedCode_le h hd hn
  have hlt := represents_lt h
  have hcode : f.unboundedCode num den < f.infinityCode :=
    f.units_strictMono.lt_iff_lt.mp (hle.trans_lt hlt)
  rw [nearestCode_eq, Nat.min_eq_left hcode.le]

theorem units_nearestCode_le {n num den : Nat} (h : f.Represents n) (hd : 0 < den)
    (hn : num ≤ n * den) : f.units (f.nearestCode num den) ≤ n := by
  rw [nearestCode_eq_unboundedCode h hd hn]
  exact units_unboundedCode_le h hd hn

theorem le_units_nearestCode {n num den : Nat} (h : f.Represents n) (hd : 0 < den)
    (hn : n * den ≤ num) : n ≤ f.units (f.nearestCode num den) := by
  obtain hc | hc := Nat.le_total (f.unboundedCode num den) f.infinityCode
  · rw [nearestCode_eq, Nat.min_eq_left hc]
    exact le_units_unboundedCode h hd hn
  · rw [nearestCode_eq, Nat.min_eq_right hc]
    exact (represents_lt h).le

theorem nearestCode_lt {n num den : Nat} (h : f.Represents n) (hd : 0 < den) (hn : num ≤ n * den) :
    f.nearestCode num den < f.infinityCode :=
  f.units_strictMono.lt_iff_lt.mp ((units_nearestCode_le h hd hn).trans_lt (represents_lt h))

theorem units_nearestCode {n k : Nat} (h : f.Represents n) (hk : 0 < k) :
    f.units (f.nearestCode (n * k) k) = n :=
  Nat.le_antisymm (units_nearestCode_le h hk (le_refl _)) (le_units_nearestCode h hk (le_refl _))

/-- The first whole number behind those with a short significand is a power of two. -/
theorem represents_whole {n : Nat} (hn : n ≤ 2 * f.binade) : f.Represents (n * f.unity) := by
  have hb := f.binade_pos
  obtain hlt | rfl := Nat.lt_or_eq_of_le hn
  · refine ⟨n, f.scale, hlt, ?_, by rw [f.unity_eq]⟩
    cases f <;> decide
  · refine ⟨f.binade, f.scale + 1, by omega, ?_, by rw [f.unity_eq]; ring⟩
    cases f <;> decide

theorem unity_eq_mul : f.unity = 2 * f.binade * 2 ^ (f.scale - 1 - f.fractionBits) := by
  rw [f.unity_eq, f.binade_eq, ← Nat.pow_succ', ← Nat.pow_add]
  congr 1
  cases f <;> rfl

theorem represents_unity : f.Represents f.unity := by
  have hb := f.binade_pos
  simpa using represents_whole (f := f) (n := 1) (by omega)

theorem nearestCode_units {c k : Nat} (hc : c < f.infinityCode) (hk : 0 < k) :
    f.nearestCode (f.units c * k) k = c :=
  f.units_strictMono.injective (units_nearestCode (represents_units hc) hk)

end Format

end Conformance
