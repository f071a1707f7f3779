import Mathlib
import Conformance.Image.Texel
import Conformance.Proofs.Returns
import Conformance.Proofs.Value.Lanes

namespace Conformance.Texel

variable {n : Nat} {bytes : List UInt8}

/-- The smallest of the types `u8`, `u16`, `u32`, `u64` and `u128` that has room for `n` bytes. -/
structure IsContainer (s : Scalar) (n : Nat) : Prop where
  unsigned : s.kind = .unsigned
  room : n ≤ s.size
  smallest : ∀ t : Scalar, t.kind = .unsigned → n ≤ t.size → s.size ≤ t.size

/-- A value with a texel of `n` bytes in it, and zeros above the texel. -/
structure Holds (v : Value) (n : Nat) : Prop where
  type : ∃ s, v.ty = .scalar s ∧ IsContainer s n
  zeros : v.toNat < 256 ^ n

theorem scalar_size_mem (s : Scalar) : s.size ∈ [1, 2, 4, 8, 16] := by
  cases s <;> decide

theorem exists_container? (h0 : 0 < n) (h : n ≤ 16) :
    ∃ s, container? n = some s ∧ IsContainer s n := by
  have hr : ¬(n = 0 ∨ 16 < n) := by omega
  have hsmallest : ∀ {s : Scalar}, (∀ m ∈ [1, 2, 4, 8, 16], n ≤ m → s.size ≤ m) →
      ∀ t : Scalar, t.kind = .unsigned → n ≤ t.size → s.size ≤ t.size :=
    fun hs t _ hn => hs t.size (scalar_size_mem t) hn
  rw [container?, if_neg hr]
  split_ifs with h1 h2 h4 h8
  · exact ⟨.u8, rfl, rfl, h1.le, hsmallest (by simp [Scalar.size])⟩
  · exact ⟨.u16, rfl, rfl, h2.le, hsmallest (by simp [Scalar.size]; omega)⟩
  · exact ⟨.u32, rfl, rfl, h4, hsmallest (by simp [Scalar.size]; omega)⟩
  · exact ⟨.u64, rfl, rfl, h8, hsmallest (by simp [Scalar.size]; omega)⟩
  · exact ⟨.u128, rfl, rfl, h, hsmallest (by simp [Scalar.size]; omega)⟩

theorem toValue_returns (h0 : 0 < bytes.length) (h : bytes.length ≤ 16) :
    Returns (toValue bytes) fun v => Holds v bytes.length := by
  obtain ⟨s, hs, hc⟩ := exists_container? h0 h
  rw [toValue, hs]
  exact .ok ⟨⟨s, rfl, hc⟩, Value.toNat_ofBytes_lt _ _⟩

theorem le_size_of_container? {s : Scalar} (h : container? n = some s) : n ≤ s.size := by
  rw [container?] at h
  split_ifs at h <;> (obtain rfl := Option.some.inj h; simp only [Scalar.size]; omega)

theorem ofNat_toValue {v : Value} (h : toValue bytes = .ok v) :
    Bytes.ofNat bytes.length v.toNat = bytes := by
  rw [toValue] at h
  cases hs : container? bytes.length with
  | none => simp [hs] at h
  | some s =>
    have hroom : bytes.length ≤ (ValueType.scalar s).size := by
      rw [ValueType.size_scalar]
      exact le_size_of_container? hs
    obtain rfl : Value.ofBytes (.scalar s) bytes = v := by simpa [hs] using h
    have hlt : Bytes.toNat bytes < 256 ^ (ValueType.scalar s).size :=
      (Bytes.toNat_lt bytes).trans_le (Nat.pow_le_pow_right (by decide) hroom)
    rw [Value.ofBytes, List.take_of_length_le hroom, Value.toNat_ofNat, Nat.mod_eq_of_lt hlt,
      Bytes.ofNat_toNat]

end Conformance.Texel
