import Mathlib
import Conformance.Proofs.Binary.Text
import Conformance.Proofs.Value.RoundTrip

namespace Conformance

theorem ValueType.isPacked_packed (p : Packed) : (ValueType.packed p).isPacked := by
  cases p <;> rfl

theorem Scalar.two_signWeight {s : Scalar} {f : Format} (h : s.kind = .float f) :
    256 ^ s.size = 2 * f.signWeight := by
  cases s <;> cases h <;> rfl

namespace Value

variable {v w : Value} {s : Scalar} {f : Format}

theorem ext_toNat (ht : v.ty = w.ty) (h : v.toNat = w.toNat) : v = w := by
  rw [← v.ofNat_toNat, ← w.ofNat_toNat, ht, h]

/-- The lanes are listed, in parentheses if there are several. -/
theorem chars_eq (detailed : Bool) (v : Value) :
    v.chars detailed =
      if v.ty.isPacked then '(' :: listText (v.lanes.map (laneText detailed)) ++ [')']
      else listText (v.lanes.map (laneText detailed)) := by
  obtain ⟨t, bits⟩ := v
  cases t with
  | scalar s => rw [lanes_scalar]; rfl
  | packed p =>
    have hp := ValueType.isPacked_packed p
    rw [chars, if_pos hp, if_pos hp]

theorem listText_cons (t : List Char) {rest : List (List Char)} (h : rest ≠ []) :
    listText (t :: rest) = t ++ ',' :: ' ' :: listText rest := by
  obtain ⟨u, more, rfl⟩ := List.exists_cons_of_ne_nil h
  rfl

/-- A text before a separator ends where that first occurs. -/
theorem append_cons_inj {c : Char} {t u a b : List Char} (ht : c ∉ t) (hu : c ∉ u)
    (h : t ++ c :: a = u ++ c :: b) : t = u ∧ a = b := by
  obtain ⟨more, hmore, htail⟩ | ⟨more, hmore, htail⟩ := List.append_eq_append_iff.mp h
  · obtain - | ⟨d, more⟩ := more
    · exact ⟨by rw [hmore, List.append_nil], (List.cons.inj htail).2⟩
    · obtain ⟨rfl, -⟩ := List.cons.inj htail
      exact absurd (by rw [hmore]; simp) hu
  · obtain - | ⟨d, more⟩ := more
    · exact ⟨by rw [hmore, List.append_nil], (List.cons.inj htail).2.symm⟩
    · obtain ⟨rfl, -⟩ := List.cons.inj htail
      exact absurd (by rw [hmore]; simp) ht

theorem listText_inj {ts us : List (List Char)} (hl : ts.length = us.length)
    (ht : ∀ t ∈ ts, ',' ∉ t) (hu : ∀ u ∈ us, ',' ∉ u) (h : listText ts = listText us) :
    ts = us := by
  induction ts generalizing us with
  | nil => exact (List.eq_nil_of_length_eq_zero hl.symm).symm
  | cons t ts ih =>
    obtain - | ⟨u, us⟩ := us
    · simp at hl
    have htl : ts.length = us.length := Nat.succ.inj hl
    by_cases hnil : ts = []
    · subst hnil
      obtain rfl := List.eq_nil_of_length_eq_zero htl.symm
      exact congrArg (· :: []) h
    · have hnil' : us ≠ [] := by
        rintro rfl
        exact hnil (List.eq_nil_of_length_eq_zero htl)
      rw [listText_cons t hnil, listText_cons u hnil'] at h
      obtain ⟨rfl, hrest⟩ := append_cons_inj (ht t List.mem_cons_self) (hu u List.mem_cons_self) h
      have hblank := (List.cons.inj hrest).2
      rw [ih htl (fun a ha => ht a (List.mem_cons_of_mem _ ha))
        (fun a ha => hu a (List.mem_cons_of_mem _ ha)) hblank]

theorem toBits_toBinary (hs : s.kind = .float f) (hv : v.ty = .scalar s) :
    (v.toBinary f).toBits = v.toNat := by
  have hlt := v.toNat_lt
  rw [hv, ValueType.size_scalar, Scalar.two_signWeight hs] at hlt
  exact Binary.toBits_ofBits hlt

theorem toBinary_inj (hs : s.kind = .float f) (hv : v.ty = .scalar s) (hw : w.ty = .scalar s)
    (h : v.toBinary f = w.toBinary f) : v = w := by
  refine ext_toNat (hv.trans hw.symm) ?_
  rw [← toBits_toBinary hs hv, ← toBits_toBinary hs hw, h]

theorem laneText_float (detailed : Bool) (hs : s.kind = .float f) (hv : v.ty = .scalar s) :
    v.laneText detailed = (v.toBinary f).valueText detailed f.printDigits := by
  rw [laneText, hv, ValueType.lane_scalar, hs]

theorem plainText_float (hs : s.kind = .float f) (hv : v.ty = .scalar s) :
    v.laneText false = (v.toBinary f).countedText f.printDigits := by
  rw [laneText_float false hs hv]
  exact List.append_nil _

theorem laneText_inj (hs : s.kind = .float f) (hv : v.ty = .scalar s) (hw : w.ty = .scalar s)
    (h : v.laneText false = w.laneText false) : v = w := by
  obtain ⟨hc, hk, hf⟩ := f.printDigits_enough
  rw [plainText_float hs hv, plainText_float hs hw] at h
  exact toBinary_inj hs hv hw (Binary.countedText_inj hc hk hf h)

theorem comma_notMem_laneText (hs : s.kind = .float f) (hv : v.ty = .scalar s) :
    ',' ∉ v.laneText false := by
  obtain ⟨hc, hk, -⟩ := f.printDigits_enough
  rw [plainText_float hs hv]
  intro h
  exact absurd (Binary.countedText_chars hc hk _ h) (by decide)

theorem exists_format (h : v.ty.isFloat) : ∃ f, v.ty.lane.kind = .float f := by
  rw [ValueType.isFloat, ValueType.format?] at h
  split at h
  · exact ⟨_, ‹_›⟩
  · exact absurd h (by decide)

/-- Floating-point values of one type, packed or not, have the same text only if they have the same
bits. -/
theorem text_eq_iff (ht : v.ty = w.ty) (hf : v.ty.isFloat) : v.text = w.text ↔ v = w := by
  refine ⟨fun h => ?_, fun h => congrArg text h⟩
  obtain ⟨f, hs⟩ := exists_format hf
  have hlv : ∀ u ∈ v.lanes, u.ty = .scalar v.ty.lane := fun u hu => ty_of_mem_lanes hu
  have hlw : ∀ u ∈ w.lanes, u.ty = .scalar v.ty.lane := fun u hu => ht ▸ ty_of_mem_lanes hu
  have hlist : listText (v.lanes.map (laneText false)) =
      listText (w.lanes.map (laneText false)) := by
    have hchars : v.chars false = w.chars false := String.ofList_injective h
    rw [chars_eq, chars_eq, ← ht] at hchars
    split_ifs at hchars
    · exact List.append_cancel_right (List.cons.inj hchars).2
    · exact hchars
  have htexts := listText_inj (by simp [ht])
    (List.forall_mem_map.mpr fun u hu => comma_notMem_laneText hs (hlv u hu))
    (List.forall_mem_map.mpr fun u hu => comma_notMem_laneText hs (hlw u hu)) hlist
  have hlanes : v.lanes = w.lanes := by
    refine List.ext_getElem (by simp [ht]) fun i hi hj => ?_
    have htext : v.lanes[i].laneText false = w.lanes[i].laneText false := by
      have hi' := List.getElem_of_eq htexts (i := i) (by simpa using hi)
      rwa [List.getElem_map, List.getElem_map] at hi'
    exact laneText_inj hs (hlv _ (List.getElem_mem hi)) (hlw _ (List.getElem_mem hj)) htext
  rw [← v.joined_lanes, ← w.joined_lanes, hlanes, ht]

theorem text_eq_iff_signaling :
    let v := ofNat (.packed .f16x2) 0x7c018000
    let w := ofNat (.packed .f16x2) 0x7c028000
    v.ty = w.ty ∧ v.ty.isFloat ∧ v ≠ w ∧ v.text ≠ w.text := by
  intro v w
  have hne : v ≠ w := by decide
  exact ⟨rfl, by decide, hne, (text_eq_iff (v := v) (w := w) rfl (by decide)).not.mpr hne⟩

example : (ofNat (.packed .f16x2) 0x7c018000).text = "(-0.0000e0, +SNAN(0x1))" := by
  decide +kernel

end Value

end Conformance
