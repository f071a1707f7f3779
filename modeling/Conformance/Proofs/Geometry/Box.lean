import Mathlib

namespace Conformance

theorem step_le {a n s t : Nat} (h : a < n) (hs : s * n ≤ t) : a * s + s ≤ t := by
  calc a * s + s = s * (a + 1) := by ring
    _ ≤ s * n := Nat.mul_le_mul_left s h
    _ ≤ t := hs

theorem digits {a n r : Nat} (h : r < n) : (a * n + r) / n = a ∧ (a * n + r) % n = r := by
  constructor
  · rw [Nat.mul_comm, Nat.mul_add_div (by omega), Nat.div_eq_of_lt h, Nat.add_zero]
  · rw [Nat.mul_comm, Nat.mul_add_mod, Nat.mod_eq_of_lt h]

abbrev Axes := Fin 3 → Nat

-- the numerals of the axes below rest on this one instance
local instance three_axes : NeZero 3 := ⟨by decide⟩

namespace Axes

def volume (e : Axes) : Nat := e 0 * e 1 * e 2

def Inside (p e : Axes) : Prop := ∀ d, p d < e d

def flatten (e p : Axes) : Nat := p 0 + p 1 * e 0 + p 2 * e 0 * e 1

def unflatten (e : Axes) (n : Nat) : Axes :=
  ![n % (e 0 * e 1) % e 0, n % (e 0 * e 1) / e 0, n / (e 0 * e 1)]

/-- The order of places, in which the last axis counts first. -/
def Before (p q : Axes) : Prop :=
  p 2 < q 2 ∨ p 2 = q 2 ∧ (p 1 < q 1 ∨ p 1 = q 1 ∧ p 0 < q 0)

variable {e p q : Axes} {m n : Nat}

theorem flatten_eq (e p : Axes) : flatten e p = p 2 * (e 0 * e 1) + (p 1 * e 0 + p 0) := by
  rw [flatten, Nat.mul_assoc]
  omega

theorem row_lt (h : Inside p e) : p 1 * e 0 + p 0 < e 0 * e 1 := by
  have hx := h 0
  have hy := step_le (h 1) (le_refl (e 0 * e 1))
  omega

theorem flatten_lt (h : Inside p e) : flatten e p < volume e := by
  have hrow := row_lt h
  have hz := step_le (h 2) (le_refl (volume e))
  rw [flatten_eq]
  omega

theorem flatten_unflatten (e : Axes) (n : Nat) : flatten e (unflatten e n) = n := by
  rw [flatten_eq]
  change n / (e 0 * e 1) * (e 0 * e 1) + (n % (e 0 * e 1) / e 0 * e 0 + n % (e 0 * e 1) % e 0) = n
  rw [Nat.div_add_mod', Nat.div_add_mod']

theorem unflatten_flatten (h : Inside p e) : unflatten e (flatten e p) = p := by
  obtain ⟨hz, hrow⟩ := digits (a := p 2) (row_lt h)
  obtain ⟨hy, hx⟩ := digits (a := p 1) (h 0)
  rw [flatten_eq, unflatten, hz, hrow, hy, hx]
  funext d
  fin_cases d <;> rfl

theorem flatten_injOn (hp : Inside p e) (hq : Inside q e) (h : flatten e p = flatten e q) :
    p = q := by
  rw [← unflatten_flatten hp, ← unflatten_flatten hq, h]

theorem inside_unflatten (h : n < volume e) : Inside (unflatten e n) e := by
  have h01 : 0 < e 0 * e 1 := Nat.pos_of_mul_pos_right (Nat.zero_lt_of_lt h)
  have h0 : 0 < e 0 := Nat.pos_of_mul_pos_right h01
  intro d
  fin_cases d
  · exact Nat.mod_lt _ h0
  · exact Nat.div_lt_of_lt_mul (Nat.mod_lt _ h01)
  · exact Nat.div_lt_of_lt_mul h

/-- What one digit does not decide is left to the digits below it. -/
theorem div_lt_or_mod_lt (h : m < n) (b : Nat) : m / b < n / b ∨ m / b = n / b ∧ m % b < n % b := by
  obtain hlt | heq := (Nat.div_le_div_right (c := b) h.le).lt_or_eq
  · exact .inl hlt
  · have hm := Nat.div_add_mod m b
    have hn := Nat.div_add_mod n b
    rw [heq] at hm
    exact .inr ⟨heq, by omega⟩

theorem before_irrefl (p : Axes) : ¬Before p p := by
  simp [Before]

theorem unflatten_before (h : m < n) : Before (unflatten e m) (unflatten e n) := by
  obtain hz | ⟨hz, hrow⟩ := div_lt_or_mod_lt h (e 0 * e 1)
  · exact .inl hz
  · exact .inr ⟨hz, div_lt_or_mod_lt hrow (e 0)⟩

end Axes

end Conformance
