import Mathlib
import Conformance.Proofs.Value.Lanes

namespace Conformance

namespace Bytes

theorem flatten_pieces (size count : Nat) (bytes : List UInt8) :
    (pieces size count bytes).flatten = bytes.take (size * count) := by
  induction count generalizing bytes with
  | zero => simp [pieces]
  | succ count ih =>
    rw [pieces, List.flatten_cons, ih, Nat.mul_succ, Nat.add_comm, List.take_add]

theorem toNat_append_zeros (bytes : List UInt8) (count : Nat) :
    toNat (bytes ++ List.replicate count 0) = toNat bytes := by
  induction bytes with
  | nil =>
    rw [List.nil_append]
    induction count with
    | zero => rfl
    | succ count ih => simp [List.replicate_succ, toNat, ih]
  | cons b rest ih => rw [List.cons_append, toNat, toNat, ih]

end Bytes

namespace ValueType

theorem size_le (ty : ValueType) : ty.size ≤ 16 := by
  cases ty with
  | scalar s => cases s <;> decide
  | packed p => cases p <;> decide

end ValueType

namespace Value

variable {ty : ValueType} {v w : Value} {bytes out : List UInt8}

@[simp]
theorem length_toBytes (v : Value) : v.toBytes.length = v.ty.size := Bytes.length_ofNat _ _

theorem toNat_toBytes (v : Value) : Bytes.toNat v.toBytes = v.toNat := by
  rw [toBytes, Bytes.toNat_ofNat]
  exact Nat.mod_eq_of_lt v.toNat_lt

theorem toBytes_inj (ht : v.ty = w.ty) (h : v.toBytes = w.toBytes) : v = w := by
  have hn : v.toNat = w.toNat := by rw [← v.toNat_toBytes, h, w.toNat_toBytes]
  rw [← v.ofNat_toNat, ht, hn, w.ofNat_toNat]

theorem toBytes_ofBytes (h : ty.size ≤ bytes.length) :
    (ofBytes ty bytes).toBytes = bytes.take ty.size := by
  have hl : (bytes.take ty.size).length = ty.size := List.length_take_of_le h
  have ht : (ofBytes ty bytes).toNat = Bytes.toNat (bytes.take ty.size) := by
    rw [← toNat_ofBytes hl, ofBytes, ofBytes, List.take_take, Nat.min_self]
  apply Bytes.toNat_inj
  · rw [length_toBytes, hl]
    rfl
  · rw [toNat_toBytes, ht]

theorem ofBytes_toBytes_append (v : Value) (rest : List UInt8) :
    ofBytes v.ty (v.toBytes ++ rest) = v := by
  rw [ofBytes, List.take_left' v.length_toBytes, toNat_toBytes, ofNat_toNat]

theorem ofBytes_toBytes (v : Value) : ofBytes v.ty v.toBytes = v := by
  have h := ofBytes_toBytes_append v []
  rwa [List.append_nil] at h

theorem ofBytes_ofNat {count : Nat} (h : ty.size ≤ count) (n : Nat) :
    ofBytes ty (Bytes.ofNat count n) = ofNat ty n := by
  apply ofNat_congr
  rw [Bytes.take_ofNat h, Bytes.toNat_ofNat, Nat.mod_mod]

theorem read_eq (h : ty.size ≤ bytes.length) : read ty bytes = .ok (ofBytes ty bytes) := by
  rw [read, if_neg (Nat.not_lt.mpr h)]

theorem write_eq (h : v.size ≤ out.length) : write v out = .ok (v.toBytes ++ out.drop v.size) := by
  rw [write, if_neg (Nat.not_lt.mpr h)]

/-- The lanes in a buffer, each behind the one before it. -/
def lanesIn (ty : ValueType) (bytes : List UInt8) : List Value :=
  (List.range ty.laneCount).map fun i => ofBytes (.scalar ty.lane) (bytes.drop (i * ty.lane.size))

theorem lanes_ofBytes_take (h : ty.size ≤ bytes.length) :
    (ofBytes ty bytes).lanes = lanesIn ty bytes := by
  have hl : (bytes.take ty.size).length = ty.size := List.length_take_of_le h
  have hb : ofBytes ty bytes = ofBytes ty (bytes.take ty.size) := by
    rw [ofBytes, ofBytes, List.take_take, Nat.min_self]
  rw [hb, lanes, lanesIn]
  apply List.map_congr_left
  intro i hi
  rw [laneAt_ofBytes hl, ofBytes, ofBytes, ValueType.size_scalar, List.take_take, Nat.min_self]
  have hend : i * ty.lane.size + ty.lane.size ≤ ty.size := ValueType.lane_end (List.mem_range.mp hi)
  rw [List.drop_take, List.take_take, Nat.min_eq_left (by omega)]

theorem flatMap_toBytes_lanes (v : Value) : v.lanes.flatMap toBytes = v.toBytes := by
  have hl : v.toBytes.length = v.ty.size := length_toBytes v
  have hlanes := lanes_ofBytes hl
  rw [ofBytes_toBytes] at hlanes
  have hpiece : ∀ piece ∈ Bytes.pieces v.ty.lane.size v.ty.laneCount v.toBytes,
      (ofBytes (.scalar v.ty.lane) piece).toBytes = piece := by
    intro piece hp
    have hs : piece.length = v.ty.lane.size := Bytes.length_of_mem_pieces hl.ge hp
    rw [toBytes_ofBytes (by rw [ValueType.size_scalar, hs]), ValueType.size_scalar, ← hs,
      List.take_length]
  rw [hlanes, List.flatMap_map, List.flatMap_congr hpiece, List.flatMap_id', Bytes.flatten_pieces,
    ← ValueType.size, ← hl, List.take_length]

theorem joined_lanes (v : Value) : joined v.ty v.lanes = v := by
  have hl : (joined v.ty v.lanes).lanes = v.lanes :=
    lanes_joined v.length_lanes fun w hw => ty_of_mem_lanes hw
  refine toBytes_inj (v := joined v.ty v.lanes) (w := v) rfl ?_
  rw [← flatMap_toBytes_lanes, hl, flatMap_toBytes_lanes]

/-- Lanes of the right number and type are joined. -/
theorem ofLanes_eq {lanes : List Value} (hl : lanes.length = ty.laneCount)
    (ht : ∀ w ∈ lanes, w.ty = .scalar ty.lane) : ofLanes ty lanes = .ok (joined ty lanes) := by
  have hnone : lanes.findIdx? (fun w => decide (w.ty ≠ .scalar ty.lane)) = none := by
    rw [List.findIdx?_eq_none_iff]
    intro w hw
    simp [ht w hw]
  rw [ofLanes, if_neg (not_not.mpr hl), hnone]

theorem ofLanes_lanes (v : Value) : ofLanes v.ty v.lanes = .ok v := by
  rw [ofLanes_eq v.length_lanes fun w hw => ty_of_mem_lanes hw, joined_lanes]

/-- Reading and writing are inverse to each other and touch the bytes of the value only. Both go
lane by lane, and numbers of 128 bits are read and written as their bytes are. -/
theorem read_write_exact :
    (∀ ty (bytes out : List UInt8), ty.size ≤ bytes.length → ty.size ≤ out.length →
      ∃ v, read ty bytes = .ok v ∧ v.ty = ty ∧ ofLanes ty (lanesIn ty bytes) = .ok v ∧
        write v out = .ok (bytes.take ty.size ++ out.drop ty.size)) ∧
    (∀ v (out : List UInt8), v.size ≤ out.length →
      write v out = .ok (v.lanes.flatMap toBytes ++ out.drop v.size) ∧
      ∃ written, write v out = .ok written ∧ read v.ty written = .ok v) ∧
    (∀ ty n, read ty (Bytes.ofNat 16 n) = .ok (ofNat ty n) ∧
      (ofNat ty n).toNat = n % 2 ^ ty.width) ∧
    ∀ v, (∃ written, write v (List.replicate 16 0) = .ok written ∧
      Bytes.toNat written = v.toNat) ∧ ofNat v.ty v.toNat = v := by
  refine ⟨?_, ?_, ?_, ?_⟩
  · intro ty bytes out hb ho
    replace ho : (ofBytes ty bytes).size ≤ out.length := ho
    refine ⟨ofBytes ty bytes, read_eq hb, rfl, ?_, ?_⟩
    · rw [← lanes_ofBytes_take hb]
      exact ofLanes_lanes (ofBytes ty bytes)
    · rw [write_eq ho, toBytes_ofBytes hb]
      rfl
  · intro v out ho
    refine ⟨by rw [write_eq ho, flatMap_toBytes_lanes], _, write_eq ho, ?_⟩
    rw [read_eq (by simp), ofBytes_toBytes_append]
  · intro ty n
    have hs : ty.size ≤ (Bytes.ofNat 16 n).length := by
      rw [Bytes.length_ofNat]
      exact ty.size_le
    rw [read_eq hs, ofBytes_ofNat ty.size_le, toNat_ofNat, ty.two_pow_width]
    exact ⟨rfl, rfl⟩
  · intro v
    have hs : v.size ≤ (List.replicate 16 (0 : UInt8)).length := by
      rw [List.length_replicate]
      exact v.ty.size_le
    refine ⟨⟨_, write_eq hs, ?_⟩, v.ofNat_toNat⟩
    rw [List.drop_replicate, Bytes.toNat_append_zeros, toNat_toBytes]

theorem read_write_exact_floats :
    (ValueType.packed .f32x2).size ≤ [1, 0, 128, 127, 0, 0, 0, 128].length ∧
      (ValueType.packed .f32x2).size ≤ [9, 9, 9, 9, 9, 9, 9, 9, 7].length ∧
      ∃ v, read (.packed .f32x2) [1, 0, 128, 127, 0, 0, 0, 128] = .ok v ∧
        write v [9, 9, 9, 9, 9, 9, 9, 9, 7] = .ok [1, 0, 128, 127, 0, 0, 0, 128, 7] := by
  have hb : (ValueType.packed .f32x2).size ≤ [1, 0, 128, 127, 0, 0, 0, 128].length := by decide
  have ho : (ValueType.packed .f32x2).size ≤ [9, 9, 9, 9, 9, 9, 9, 9, 7].length := by decide
  obtain ⟨v, hr, -, -, hw⟩ := read_write_exact.1 (.packed .f32x2)
    [1, 0, 128, 127, 0, 0, 0, 128] [9, 9, 9, 9, 9, 9, 9, 9, 7] hb ho
  exact ⟨hb, ho, v, hr, hw⟩

end Value

end Conformance
