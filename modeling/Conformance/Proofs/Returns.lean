import Mathlib

namespace Conformance

variable {ε α β : Type} {x : Except ε α} {f : α → Except ε β} {P : α → Prop} {Q : β → Prop}

/-- The computation does not fail and its result satisfies `P`. -/
def Returns (x : Except ε α) (P : α → Prop) : Prop := ∃ a, x = .ok a ∧ P a

theorem Returns.ok {a : α} (h : P a) : Returns (.ok a : Except ε α) P := ⟨a, rfl, h⟩

theorem Returns.bind (hx : Returns x P) (hf : ∀ a, P a → Returns (f a) Q) :
    Returns (x >>= f) Q := by
  obtain ⟨a, rfl, ha⟩ := hx
  exact hf a ha

theorem Returns.mapM {l : List α} (h : ∀ a ∈ l, Returns (f a) Q) :
    Returns (l.mapM f) fun bs => ∀ b ∈ bs, Q b := by
  induction l with
  | nil => exact .ok (by simp)
  | cons a rest ih =>
    rw [List.mapM_cons]
    refine (h a (by simp)).bind fun b hb =>
      (ih fun c hc => h c (by simp [hc])).bind fun bs hbs => ?_
    exact .ok (by simpa using ⟨hb, hbs⟩)

theorem exists_of_bind {b : β} (h : x >>= f = .ok b) : ∃ a, x = .ok a ∧ f a = .ok b := by
  cases x with
  | error e => cases h
  | ok a => exact ⟨a, rfl, h⟩

theorem mapM_eq_ok_of_forall₂ {l : List α} {bs : List β}
    (h : List.Forall₂ (fun a b => f a = .ok b) l bs) : l.mapM f = .ok bs := by
  induction h with
  | nil => rfl
  | cons ha _ ih =>
    rw [List.mapM_cons, ha, ih]
    rfl

theorem mapM_eq_ok {l : List α} {g : α → β} (h : ∀ a ∈ l, f a = .ok (g a)) :
    l.mapM f = .ok (l.map g) := by
  apply mapM_eq_ok_of_forall₂
  rw [List.forall₂_map_right_iff, List.forall₂_same]
  exact h

theorem mapM_eq_ok_iff {l : List α} {bs : List β} :
    l.mapM f = .ok bs ↔ List.Forall₂ (fun a b => f a = .ok b) l bs := by
  refine ⟨fun h => ?_, mapM_eq_ok_of_forall₂⟩
  induction l generalizing bs with
  | nil =>
    obtain rfl := Except.ok.inj h
    exact .nil
  | cons a rest ih =>
    rw [List.mapM_cons] at h
    obtain ⟨b, hb, h⟩ := exists_of_bind h
    obtain ⟨cs, hcs, h⟩ := exists_of_bind h
    obtain rfl := Except.ok.inj h
    exact .cons hb (ih hcs)

theorem mapM_congr {g : α → Except ε β} {l : List α} (h : ∀ a ∈ l, f a = g a) :
    l.mapM f = l.mapM g := by
  induction l with
  | nil => rfl
  | cons a rest ih =>
    rw [List.mapM_cons, List.mapM_cons, h a (by simp), ih fun b hb => h b (by simp [hb])]

theorem mapM_mapError {η : Type} (f : α → Except ε β) (g : ε → η) (l : List α) :
    (l.mapM fun a => (f a).mapError g) = (l.mapM f).mapError g := by
  induction l with
  | nil => rfl
  | cons a rest ih =>
    rw [List.mapM_cons, List.mapM_cons, ih]
    cases f a with
    | error e => rfl
    | ok b => cases rest.mapM f <;> rfl

theorem mapM_eq_error {before after : List α} {a : α} {e : ε}
    (hb : ∀ b ∈ before, ∃ c, f b = .ok c) (ha : f a = .error e) :
    (before ++ a :: after).mapM f = .error e := by
  induction before with
  | nil =>
    rw [List.nil_append, List.mapM_cons, ha]
    rfl
  | cons b before ih =>
    obtain ⟨c, hc⟩ := hb b (by simp)
    rw [List.cons_append, List.mapM_cons, hc, ih fun x hx => hb x (by simp [hx])]
    rfl

/-- The first failure ends the run. -/
theorem mapM_eq_error_iff {l : List α} {e : ε} :
    l.mapM f = .error e ↔ ∃ before a after, l = before ++ a :: after ∧
      (∀ b ∈ before, ∃ c, f b = .ok c) ∧ f a = .error e := by
  refine ⟨fun h => ?_, ?_⟩
  · induction l with
    | nil => cases h
    | cons a rest ih =>
      rw [List.mapM_cons] at h
      cases ha : f a with
      | error d =>
        rw [ha] at h
        obtain rfl := Except.error.inj h
        exact ⟨[], a, rest, rfl, by simp, ha⟩
      | ok c =>
        rw [ha] at h
        cases hrest : rest.mapM f with
        | ok bs =>
          rw [hrest] at h
          cases h
        | error d =>
          rw [hrest] at h
          obtain rfl := Except.error.inj h
          obtain ⟨before, b, after, rfl, hbefore, hb⟩ := ih hrest
          exact ⟨a :: before, b, after, rfl, by simpa using ⟨⟨c, ha⟩, hbefore⟩, hb⟩
  · rintro ⟨before, a, after, rfl, hb, ha⟩
    exact mapM_eq_error hb ha

end Conformance
