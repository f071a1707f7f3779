import Mathlib
import Conformance.Proofs.Decimal.Written
import Conformance.Proofs.Text.Hex

namespace Conformance

theorem Format.printDigits_enough (f : Format) :
    0 < f.printDigits ∧ f.printDigits ≤ Binary.exactDigits ∧
      2 * f.binade ≤ 10 ^ (f.printDigits - 1) := by
  cases f <;> decide

namespace Binary

variable {f : Format} {x y : Binary f} {count : Nat}

theorem fraction_of_isNaN (h : x.isNaN) : x.toBits % f.binade = x.code - f.infinityCode := by
  have hlow : f.infinityCode < x.code := of_decide_eq_true h
  have hhigh := x.code_lt
  rw [← f.infinityCode_add_binade] at hhigh
  have hdvd : f.binade ∣ f.signWeight := by
    rw [← f.infinityCode_add_binade, f.infinityCode_eq]
    exact ⟨f.maxShift + 3, by ring⟩
  have hsplit : x.code = x.code - f.infinityCode + f.binade * (f.maxShift + 2) := by
    rw [Nat.mul_comm, ← f.infinityCode_eq]
    omega
  calc x.toBits % f.binade = x.code % f.binade := (Nat.mod_mod_of_dvd _ hdvd).symm
    _ = (x.code - f.infinityCode) % f.binade := by
      conv_lhs => rw [hsplit]
      rw [Nat.add_mul_mod_self_left]
    _ = x.code - f.infinityCode := Nat.mod_eq_of_lt (by omega)

theorem code_of_isNaN (h : x.isNaN) :
    x.code = f.infinityCode + (x.payload + if x.isQuiet then f.quietWeight else 0) := by
  have hlow : f.infinityCode < x.code := of_decide_eq_true h
  have hbinade : f.binade = f.quietWeight * 2 := by cases f <;> rfl
  have hquiet : (if x.isQuiet then f.quietWeight else 0) =
      f.quietWeight * (x.toBits / f.quietWeight % 2) := by
    rw [isQuiet, h, Bool.true_and, Nat.testBit_eq_decide_div_mod_eq, ← Nat.one_shiftLeft]
    change (if decide (x.toBits / f.quietWeight % 2 = 1) then _ else _) = _
    obtain h0 | h1 := Nat.mod_two_eq_zero_or_one (x.toBits / f.quietWeight)
    · simp [h0]
    · simp [h1]
  rw [hquiet, payload, ← Nat.mod_mul, ← hbinade, fraction_of_isNaN h]
  omega

theorem signChar_eq (x : Binary f) : x.signChar = '-' ∨ x.signChar = '+' := by
  rw [signChar]
  split_ifs
  exacts [.inl rfl, .inr rfl]

theorem signChar_inj (h : x.signChar = y.signChar) : x.isNegative = y.isNegative := by
  rw [signChar, signChar] at h
  cases hx : x.isNegative <;> cases hy : y.isNegative <;> simp_all

theorem countedText_of_isNaN (h : x.isNaN) :
    x.countedText count =
      x.signChar :: (if x.isQuiet then 'Q' else 'S') :: 'N' :: 'A' :: 'N' :: '(' :: '0' :: 'x' ::
        (Text.hexDigits 1 x.payload ++ [')']) := by
  rw [countedText, if_pos h]
  rfl

theorem countedText_of_isInfinite (h : x.isInfinite) :
    x.countedText count = [x.signChar, 'I', 'N', 'F'] := by
  rw [countedText, if_neg (by simp [isNaN_of_isInfinite h]), if_pos h]

theorem countedText_of_isFinite (h : x.isFinite) (hc : 0 < count) :
    x.countedText count = x.roundedText count := by
  rw [countedText, if_neg (by simp [isNaN_of_isFinite h]),
    if_neg (by simp [isInfinite_of_isFinite h]), Nat.max_eq_right hc]

variable (hc : 0 < count) (hk : count ≤ exactDigits)

include hc hk

theorem countedText_chars :
    ∀ c ∈ x.countedText count, c.isAlphanum ∨ c ∈ ['-', '+', '.', '(', ')'] := by
  have hsign : x.signChar ∈ ['-', '+', '.', '(', ')'] := by
    obtain hs | hs := x.signChar_eq <;> rw [hs] <;> decide
  obtain hx | hx | hx := x.nan_or_infinite_or_finite
  · have hkind : (if x.isQuiet then 'Q' else 'S').isAlphanum := by split_ifs <;> rfl
    have hpayload : ∀ c ∈ Text.hexDigits 1 x.payload,
        c.isAlphanum ∨ c ∈ ['-', '+', '.', '(', ')'] := fun c h =>
      .inl (Text.isAlphanum_of_isHexDigit (Text.isHexDigit_of_mem_hexDigits h))
    rw [countedText_of_isNaN hx]
    simp only [List.forall_mem_cons, List.forall_mem_append]
    exact ⟨.inr hsign, .inl hkind, .inl rfl, .inl rfl, .inl rfl, .inr (by decide),
      .inl rfl, .inl rfl, hpayload, .inr (by decide), by simp⟩
  · rw [countedText_of_isInfinite hx]
    simp only [List.forall_mem_cons]
    exact ⟨.inr hsign, .inl rfl, .inl rfl, .inl rfl, by simp⟩
  · intro c h
    rw [countedText_of_isFinite hx hc] at h
    obtain hd | rfl | rfl | rfl := mem_roundedText hc hk h
    · exact .inl (by simp [Char.isAlphanum, hd])
    · exact .inr (by decide)
    · exact .inl rfl
    · exact .inr (by decide)

/-- Parentheses stand in the texts of NaNs only, and this capital in those of finite data never. -/
theorem countedText_class :
    ('(' ∈ x.countedText count ↔ x.isNaN) ∧ ('N' ∈ x.countedText count ↔ x.isFinite = false) := by
  obtain hx | hx | hx := x.nan_or_infinite_or_finite
  · rw [countedText_of_isNaN hx, hx, isFinite_of_isNaN hx]
    simp
  · have hsign : x.signChar ≠ '(' := by
      obtain hs | hs := x.signChar_eq <;> rw [hs] <;> decide
    rw [countedText_of_isInfinite hx, isNaN_of_isInfinite hx, isFinite_of_isInfinite hx]
    simp [hsign.symm]
  · have hopen : '(' ∉ x.roundedText count := fun h =>
      absurd (mem_roundedText hc hk h) (by decide)
    have hletter : 'N' ∉ x.roundedText count := fun h =>
      absurd (mem_roundedText hc hk h) (by decide)
    rw [countedText_of_isFinite hx hc, isNaN_of_isFinite hx, hx]
    simp [hopen, hletter]

/-- Enough digits tell all data apart. -/
theorem countedText_inj (hf : 2 * f.binade ≤ 10 ^ (count - 1))
    (h : x.countedText count = y.countedText count) : x = y := by
  obtain ⟨hnx, hfx⟩ := countedText_class (x := x) hc hk
  obtain ⟨hny, hfy⟩ := countedText_class (x := y) hc hk
  rw [h] at hnx hfx
  have hnan : x.isNaN ↔ y.isNaN := hnx.symm.trans hny
  have hfinite : x.isFinite = false ↔ y.isFinite = false := hfx.symm.trans hfy
  obtain hx | hx | hx := x.nan_or_infinite_or_finite
  · have hy := hnan.mp hx
    rw [countedText_of_isNaN hx, countedText_of_isNaN hy] at h
    simp only [List.cons.injEq, List.append_cancel_right_eq, true_and] at h
    obtain ⟨hsign, hkind, hdigits⟩ := h
    have hpayload := congrArg Text.ofHexDigits hdigits
    rw [Text.ofHexDigits_hexDigits, Text.ofHexDigits_hexDigits] at hpayload
    have hquiet : x.isQuiet = y.isQuiet := by
      cases hqx : x.isQuiet <;> cases hqy : y.isQuiet <;> simp_all
    refine ext_code (signChar_inj hsign) ?_
    rw [code_of_isNaN hx, code_of_isNaN hy, hpayload, hquiet]
  · have hy : y.isInfinite := by
      obtain hy | hy | hy := y.nan_or_infinite_or_finite
      · exact absurd (hnan.mpr hy) (by simp [isNaN_of_isInfinite hx])
      · exact hy
      · exact absurd (hfinite.mp (isFinite_of_isInfinite hx)) (by simp [hy])
    rw [countedText_of_isInfinite hx, countedText_of_isInfinite hy] at h
    refine ext_code (signChar_inj (List.cons.inj h).1) ?_
    exact (of_decide_eq_true hx).trans (of_decide_eq_true hy).symm
  · have hy : y.isFinite := by
      rw [← Bool.not_eq_false, ← hfinite, hx]
      decide
    rw [countedText_of_isFinite hx hc, countedText_of_isFinite hy hc] at h
    exact roundedText_inj hc hk hf h

end Binary

end Conformance
