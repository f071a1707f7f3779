import Mathlib

namespace Conformance

variable {α β : Type} {l : List α} {f : α → List β} {n : Nat}

theorem length_flatMap_block (hn : ∀ a ∈ l, (f a).length = n) :
    (l.flatMap f).length = l.length * n := by
  induction l with
  | nil => simp
  | cons a rest ih =>
    have ha : (f a).length = n := hn a (by simp)
    rw [List.flatMap_cons, List.length_append, ha, ih fun b hb => hn b (by simp [hb]),
      List.length_cons, Nat.succ_mul, Nat.add_comm]

theorem drop_flatMap_block (hn : ∀ a ∈ l, (f a).length = n) (k : Nat) :
    (l.flatMap f).drop (k * n) = (l.drop k).flatMap f := by
  induction k generalizing l with
  | zero => simp
  | succ k ih =>
    cases l with
    | nil => simp
    | cons a rest =>
      have ha : (f a).length = n := hn a (by simp)
      rw [List.flatMap_cons, Nat.succ_mul, Nat.add_comm, ← List.drop_drop, ← ha, List.drop_left, ha,
        ih fun b hb => hn b (by simp [hb])]
      rfl

theorem take_drop_flatMap_block (hn : ∀ a ∈ l, (f a).length = n) {k : Nat} {a : α}
    (hk : l[k]? = some a) : ((l.flatMap f).drop (k * n)).take n = f a := by
  obtain ⟨hlt, rfl⟩ := List.getElem?_eq_some_iff.mp hk
  have hl : (f l[k]).length = n := hn _ (List.getElem_mem hlt)
  rw [drop_flatMap_block hn, List.drop_eq_getElem_cons hlt, List.flatMap_cons, ← hl, List.take_left]

/-- An element of equal blocks, by block and place in it. -/
theorem getElem?_flatMap_block (hn : ∀ a ∈ l, (f a).length = n) (k : Nat) {j : Nat} (hj : j < n) :
    (l.flatMap f)[k * n + j]? = l[k]?.bind fun a => (f a)[j]? := by
  cases hk : l[k]? with
  | none =>
    have hle : l.length * n ≤ k * n := Nat.mul_le_mul_right _ (List.getElem?_eq_none_iff.mp hk)
    rw [List.getElem?_eq_none (by rw [length_flatMap_block hn]; omega), Option.bind_none]
  | some a =>
    rw [← List.getElem?_drop, ← List.getElem?_take_of_lt hj, take_drop_flatMap_block hn hk,
      Option.bind_some]

theorem set_append_drop {written places : List α} (hw : written.length = n) (hn : n < places.length)
    (a : α) : (written ++ places.drop n).set n a = written ++ [a] ++ places.drop (n + 1) := by
  rw [List.set_append_right _ _ hw.le, hw, Nat.sub_self, List.drop_eq_getElem_cons hn,
    List.set_cons_zero, List.append_assoc, List.singleton_append]

end Conformance
