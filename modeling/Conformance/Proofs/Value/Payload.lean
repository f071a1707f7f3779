import Mathlib
import Conformance.Proofs.Blocks
import Conformance.Proofs.Value.RoundTrip

namespace Conformance

/-- The elements of a value; a scalar has one. -/
abbrev Payload (ty : ValueType) := Fin ty.laneCount → BitVec ty.laneWidth

namespace Payload

variable {ty : ValueType}

def toBytes (p : Payload ty) : List UInt8 :=
  (List.ofFn p).flatMap fun e => Bytes.ofNat ty.lane.size e.toNat

def value (p : Payload ty) : Value := .ofBytes ty p.toBytes

theorem length_toBytes (p : Payload ty) : p.toBytes.length = ty.size := by
  have hblock : ∀ e ∈ List.ofFn p, (Bytes.ofNat ty.lane.size e.toNat).length = ty.lane.size :=
    fun e _ => Bytes.length_ofNat _ _
  rw [toBytes, length_flatMap_block hblock, List.length_ofFn, Nat.mul_comm]
  rfl

theorem element_lt (p : Payload ty) (i : Fin ty.laneCount) : (p i).toNat < 256 ^ ty.lane.size := by
  rw [← ty.two_pow_laneWidth]
  exact (p i).isLt

theorem element_bytes (p : Payload ty) (i : Fin ty.laneCount) :
    (p.toBytes.drop (i * ty.lane.size)).take ty.lane.size =
      Bytes.ofNat ty.lane.size (p i).toNat := by
  have hblock : ∀ e ∈ List.ofFn p, (Bytes.ofNat ty.lane.size e.toNat).length = ty.lane.size :=
    fun e _ => Bytes.length_ofNat _ _
  have hget : (List.ofFn p)[(i : Nat)]? = some (p i) := by simp
  exact take_drop_flatMap_block hblock hget

/-- The lane behind a shift of the whole value is the element. -/
theorem laneAt_value (p : Payload ty) (i : Fin ty.laneCount) :
    p.value.laneAt i = .ofNat (.scalar ty.lane) (p i).toNat := by
  have hsize : (ValueType.scalar ty.lane).size ≤ ty.lane.size := by rw [ValueType.size_scalar]
  rw [value, Value.laneAt_ofBytes p.length_toBytes, element_bytes, Value.ofBytes_ofNat hsize]

theorem toNat_laneAt_value (p : Payload ty) (i : Fin ty.laneCount) :
    (p.value.laneAt i).toNat = (p i).toNat := by
  rw [laneAt_value, Value.toNat_ofNat, ValueType.size_scalar, Nat.mod_eq_of_lt (p.element_lt i)]

theorem value_injective : Function.Injective (value : Payload ty → Value) := by
  intro p q h
  funext i
  apply BitVec.eq_of_toNat_eq
  rw [← toNat_laneAt_value, h, toNat_laneAt_value]

def ofValue (v : Value) : Payload v.ty := fun i => BitVec.ofNat _ (v.laneAt i).toNat

theorem toNat_ofValue (v : Value) (i : Fin v.ty.laneCount) :
    (ofValue v i).toNat = (v.laneAt i).toNat := by
  have hlt := (v.laneAt i).toNat_lt
  have hty : (v.laneAt i).ty = .scalar v.ty.lane := rfl
  rw [hty, ValueType.size_scalar, ← ValueType.two_pow_laneWidth] at hlt
  rw [ofValue, BitVec.toNat_ofNat, Nat.mod_eq_of_lt hlt]

theorem value_ofValue (v : Value) : (ofValue v).value = v := by
  have hlanes : (ofValue v).value.lanes = v.lanes := by
    apply List.map_congr_left
    intro i hi
    have hlt : i < v.ty.laneCount := List.mem_range.mp hi
    have hlane := laneAt_value (ofValue v) ⟨i, hlt⟩
    rw [toNat_ofValue] at hlane
    rw [hlane]
    exact (v.laneAt i).ofNat_toNat
  rw [← Value.joined_lanes (ofValue v).value, hlanes]
  exact Value.joined_lanes v

end Payload

namespace Value

variable {v : Value}

theorem lane_eq {i : Nat} (h : i < v.ty.laneCount) : v.lane i = .ok (v.laneAt i) := by
  rw [lane, if_pos h]

theorem getElem?_lanes {i : Nat} (h : i < v.ty.laneCount) : v.lanes[i]? = some (v.laneAt i) := by
  simp [lanes, h]

theorem read_lane {i : Nat} (h : i < v.ty.laneCount) :
    read (.scalar v.ty.lane) (v.toBytes.drop (i * v.ty.lane.size)) = .ok (v.laneAt i) := by
  have hl : v.toBytes.length = v.ty.size := v.length_toBytes
  have hend := ValueType.lane_end h
  have hroom : (ValueType.scalar v.ty.lane).size ≤
      (v.toBytes.drop (i * v.ty.lane.size)).length := by
    rw [ValueType.size_scalar, List.length_drop]
    omega
  have hlane := laneAt_ofBytes hl i
  rw [ofBytes_toBytes] at hlane
  rw [read_eq hroom, hlane, ofBytes, ofBytes, ValueType.size_scalar, List.take_take, Nat.min_self]

/-- Lanes, elements and bytes agree: a lane is the scalar with the bits of the element in its place
and what is read where its bytes begin. Taking a value apart and putting lanes together are inverse
to each other. -/
theorem lanes_exact :
    (∀ v : Value, ∃! p : Payload v.ty, p.value = v) ∧
    (∀ ty (p : Payload ty) (i : Fin ty.laneCount), ∃ w,
      p.value.lane i = .ok w ∧ w.ty = .scalar ty.lane ∧ w.toNat = (p i).toNat ∧
        p.value.lanes[(i : Nat)]? = some w ∧
        read (.scalar ty.lane) (p.value.toBytes.drop (i * ty.lane.size)) = .ok w) ∧
    (∀ (v : Value) s, v.ty = .scalar s → v.lane 0 = .ok v) ∧
    (∀ v, ofLanes v.ty v.lanes = .ok v) ∧
    ∀ ty (l : List Value), l.length = ty.laneCount → (∀ w ∈ l, w.ty = .scalar ty.lane) →
      ∃ v, ofLanes ty l = .ok v ∧ v.ty = ty ∧ v.lanes = l := by
  refine ⟨?_, ?_, ?_, ofLanes_lanes, ?_⟩
  · intro v
    refine ⟨Payload.ofValue v, Payload.value_ofValue v, fun p hp => ?_⟩
    exact Payload.value_injective (hp.trans (Payload.value_ofValue v).symm)
  · intro ty p i
    exact ⟨p.value.laneAt i, lane_eq i.isLt, rfl, p.toNat_laneAt_value i, getElem?_lanes i.isLt,
      read_lane (v := p.value) i.isLt⟩
  · rintro ⟨ty, bits⟩ s rfl
    have hlanes := lanes_scalar s bits
    rw [lanes, ValueType.laneCount, List.range_one, List.map_singleton,
      List.singleton_inj] at hlanes
    rw [lane_eq Nat.one_pos, hlanes]
  · intro ty l hl ht
    exact ⟨joined ty l, ofLanes_eq hl ht, rfl, lanes_joined hl ht⟩

theorem lanes_exact_halves :
    let l : List Value := [ofNat (.scalar .f16) 0x7c01, ofNat (.scalar .f16) 0x8000]
    l.length = (ValueType.packed .f16x2).laneCount ∧
      (∀ w ∈ l, w.ty = .scalar (ValueType.packed .f16x2).lane) ∧
      ofLanes (.packed .f16x2) l = .ok (ofNat (.packed .f16x2) 0x80007c01) ∧
      (ofNat (.packed .f16x2) 0x80007c01).lanes = l ∧
      (ofNat (.scalar .s8) 0xfe).ty = .scalar .s8 ∧
      (ofNat (.scalar .s8) 0xfe).lane 0 = .ok (ofNat (.scalar .s8) 0xfe) := by
  intro l
  have hl : l.length = (ValueType.packed .f16x2).laneCount := rfl
  have ht : ∀ w ∈ l, w.ty = .scalar (ValueType.packed .f16x2).lane := by decide
  obtain ⟨v, hv, -, hlanes⟩ := lanes_exact.2.2.2.2 (.packed .f16x2) l hl ht
  have hjoined : ofLanes (.packed .f16x2) l = .ok (ofNat (.packed .f16x2) 0x80007c01) := by decide
  obtain rfl := Except.ok.inj (hv.symm.trans hjoined)
  exact ⟨hl, ht, hjoined, hlanes, rfl, lanes_exact.2.2.1 _ .s8 rfl⟩

end Value

end Conformance
