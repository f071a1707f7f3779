import Mathlib
import Conformance.Value.Buffer
import Conformance.Value.Lanes
import Conformance.Proofs.Bytes

namespace Conformance

namespace ValueType

@[simp]
theorem lane_scalar (s : Scalar) : (ValueType.scalar s).lane = s := rfl

@[simp]
theorem size_scalar (s : Scalar) : (ValueType.scalar s).size = s.size := Nat.mul_one _

theorem two_pow_width (ty : ValueType) : 2 ^ ty.width = 256 ^ ty.size := by
  rw [width, Nat.pow_mul]

theorem two_pow_laneWidth (ty : ValueType) : 2 ^ ty.laneWidth = 256 ^ ty.lane.size := by
  rw [laneWidth, Nat.pow_mul]

theorem lane_end {ty : ValueType} {i : Nat} (h : i < ty.laneCount) :
    i * ty.lane.size + ty.lane.size ≤ ty.size := by
  rw [← Nat.succ_mul, size, Nat.mul_comm ty.lane.size]
  exact Nat.mul_le_mul_right _ h

theorem scalar_size_pos (s : Scalar) : 0 < s.size := by
  cases s <;> decide

theorem laneCount_pos (ty : ValueType) : 0 < ty.laneCount := by
  cases ty with
  | scalar s => exact Nat.one_pos
  | packed p => cases p <;> decide

theorem size_pos (ty : ValueType) : 0 < ty.size := Nat.mul_pos (scalar_size_pos _) ty.laneCount_pos

end ValueType

namespace Value

theorem toNat_lt (v : Value) : v.toNat < 256 ^ v.ty.size := by
  rw [← v.ty.two_pow_width]
  exact v.bits.isLt

@[simp]
theorem ty_ofNat (ty : ValueType) (n : Nat) : (ofNat ty n).ty = ty := rfl

theorem toNat_ofNat (ty : ValueType) (n : Nat) : (ofNat ty n).toNat = n % 256 ^ ty.size := by
  rw [← ty.two_pow_width]
  exact BitVec.toNat_ofNat n _

theorem ofNat_toNat (v : Value) : ofNat v.ty v.toNat = v := by
  cases v with
  | mk ty bits => simp [ofNat, toNat]

theorem ofNat_congr {ty : ValueType} {m n : Nat} (h : m % 256 ^ ty.size = n % 256 ^ ty.size) :
    ofNat ty m = ofNat ty n := by
  rw [← ofNat_toNat (ofNat ty m), ← ofNat_toNat (ofNat ty n), toNat_ofNat, toNat_ofNat, h]
  rfl

theorem toNat_ofBytes {ty : ValueType} {bytes : List UInt8} (h : bytes.length = ty.size) :
    (ofBytes ty bytes).toNat = Bytes.toNat bytes := by
  have hlt := Bytes.toNat_lt bytes
  rw [h] at hlt
  rw [ofBytes, toNat_ofNat, ← h, List.take_length, h, Nat.mod_eq_of_lt hlt]

theorem toNat_ofBytes_lt (ty : ValueType) (bytes : List UInt8) :
    (ofBytes ty bytes).toNat < 256 ^ bytes.length := by
  have htake : (bytes.take ty.size).length ≤ bytes.length := List.length_take_le' _ _
  calc (ofBytes ty bytes).toNat
      = Bytes.toNat (bytes.take ty.size) % 256 ^ ty.size := toNat_ofNat _ _
    _ ≤ Bytes.toNat (bytes.take ty.size) := Nat.mod_le _ _
    _ < 256 ^ (bytes.take ty.size).length := Bytes.toNat_lt _
    _ ≤ 256 ^ bytes.length := Nat.pow_le_pow_right (by decide) htake

theorem lanes_scalar (s : Scalar) (bits : BitVec (ValueType.scalar s).width) :
    (Value.mk (.scalar s) bits).lanes = [⟨.scalar s, bits⟩] := by
  have h := ofNat_toNat ⟨.scalar s, bits⟩
  simpa [lanes, laneAt, ValueType.laneCount] using h

@[simp]
theorem length_lanes (v : Value) : v.lanes.length = v.ty.laneCount := by
  simp [lanes]

theorem ty_of_mem_lanes {v w : Value} (h : w ∈ v.lanes) : w.ty = .scalar v.ty.lane := by
  obtain ⟨i, -, rfl⟩ := List.mem_map.mp h
  rfl

theorem laneAt_ofBytes {ty : ValueType} {bytes : List UInt8}
    (h : bytes.length = ty.size) (i : Nat) :
    (ofBytes ty bytes).laneAt i =
      ofBytes (.scalar ty.lane) ((bytes.drop (i * ty.lane.size)).take ty.lane.size) := by
  apply ofNat_congr
  have hp : 2 ^ (i * (8 * ty.lane.size)) = 256 ^ (i * ty.lane.size) := by
    rw [show i * (8 * ty.lane.size) = 8 * (i * ty.lane.size) by ring, Nat.pow_mul]
  rw [toNat_ofBytes h, ValueType.size_scalar]
  simp only [ty_ofNat, ofBytes, ValueType.size_scalar, ValueType.laneWidth]
  rw [List.take_take, Nat.min_self, Bytes.toNat_take, Bytes.toNat_drop, Nat.mod_mod,
    Nat.shiftRight_eq_div_pow, hp]

theorem lanes_ofBytes {ty : ValueType} {bytes : List UInt8} (h : bytes.length = ty.size) :
    (ofBytes ty bytes).lanes =
      (Bytes.pieces ty.lane.size ty.laneCount bytes).map (ofBytes (.scalar ty.lane)) := by
  rw [Bytes.pieces_eq_map, List.map_map]
  exact List.map_congr_left fun i _ => laneAt_ofBytes h i

theorem joinBits_lt {width : Nat} {vs : List Value} (h : ∀ v ∈ vs, v.toNat < 2 ^ width) :
    joinBits width vs < 2 ^ (width * vs.length) := by
  induction vs with
  | nil => simp [joinBits]
  | cons v rest ih =>
    have hv := h v (by simp)
    have hr := ih fun w hw => h w (by simp [hw])
    rw [joinBits, Nat.shiftLeft_eq, List.length_cons, Nat.mul_succ, Nat.pow_add]
    calc v.toNat + joinBits width rest * 2 ^ width
        < 2 ^ width + joinBits width rest * 2 ^ width := by omega
      _ = (joinBits width rest + 1) * 2 ^ width := by ring
      _ ≤ 2 ^ (width * rest.length) * 2 ^ width := Nat.mul_le_mul_right _ hr

theorem joinBits_digit {width : Nat} {vs : List Value} (h : ∀ v ∈ vs, v.toNat < 2 ^ width) {i : Nat}
    (hi : i < vs.length) : joinBits width vs / 2 ^ (i * width) % 2 ^ width = vs[i].toNat := by
  induction vs generalizing i with
  | nil => simp at hi
  | cons v rest ih =>
    have hv := h v (by simp)
    rw [joinBits, Nat.shiftLeft_eq]
    cases i with
    | zero => simp [Nat.mod_eq_of_lt hv]
    | succ i =>
      have hd : (v.toNat + joinBits width rest * 2 ^ width) / 2 ^ width = joinBits width rest := by
        rw [Nat.add_mul_div_right _ _ (Nat.two_pow_pos _), Nat.div_eq_of_lt hv, Nat.zero_add]
      rw [Nat.succ_mul, Nat.add_comm (i * width), Nat.pow_add, ← Nat.div_div_eq_div_mul, hd]
      exact ih (fun w hw => h w (by simp [hw])) (by simpa using hi)

theorem lanes_joined {ty : ValueType} {vs : List Value} (hl : vs.length = ty.laneCount)
    (ht : ∀ v ∈ vs, v.ty = .scalar ty.lane) : (joined ty vs).lanes = vs := by
  have hw := ty.two_pow_laneWidth
  have hlt : ∀ v ∈ vs, v.toNat < 2 ^ ty.laneWidth := by
    intro v hv
    have h := v.toNat_lt
    rwa [ht v hv, ValueType.size_scalar, ← hw] at h
  have hn : (joined ty vs).toNat = joinBits ty.laneWidth vs := by
    have hj := joinBits_lt hlt
    rw [hl, Nat.pow_mul, hw, ← Nat.pow_mul] at hj
    rw [joined, toNat_ofNat, ValueType.size, Nat.mod_eq_of_lt hj]
  apply List.ext_getElem
  · simp [joined, hl]
  · intro i h1 h2
    have hd := joinBits_digit hlt h2
    have hlow := hlt _ (List.getElem_mem h2)
    have hv := ofNat_toNat vs[i]
    rw [ht _ (List.getElem_mem h2)] at hv
    simp only [lanes, List.getElem_map, List.getElem_range, laneAt]
    rw [hn, ← hv]
    apply ofNat_congr
    rw [ValueType.size_scalar]
    change joinBits ty.laneWidth vs >>> (i * ty.laneWidth) % 256 ^ ty.lane.size = _
    rw [Nat.shiftRight_eq_div_pow, ← hw, hd]
    rw [hw] at hlow
    exact (Nat.mod_eq_of_lt hlow).symm

/-- The values that a buffer of whole values holds. -/
def split (ty : ValueType) (bytes : List UInt8) : List Value :=
  (Bytes.pieces ty.size (bytes.length / ty.size) bytes).map (ofBytes ty)

theorem readAll_eq {ty : ValueType} {bytes : List UInt8} (h : bytes.length % ty.size = 0) :
    readAll ty bytes = .ok (split ty bytes) := by
  simp [readAll, split, h]

theorem ty_of_mem_split {ty : ValueType} {bytes : List UInt8} {v : Value} (h : v ∈ split ty bytes) :
    v.ty = ty := by
  obtain ⟨piece, -, rfl⟩ := List.mem_map.mp h
  rfl

/-- A buffer holds the same lanes, whichever of the two types it is read with. -/
theorem split_lane {ty : ValueType} {bytes : List UInt8} (h : bytes.length % ty.size = 0) :
    split (.scalar ty.lane) bytes = (split ty bytes).flatMap lanes := by
  have hsize : ty.size = ty.lane.size * ty.laneCount := rfl
  obtain ⟨count, hcount⟩ := Nat.dvd_of_mod_eq_zero h
  have hdiv : bytes.length / ty.size = count := by
    rw [hcount, Nat.mul_div_cancel_left _ ty.size_pos]
  have hlane : bytes.length / ty.lane.size = ty.laneCount * count := by
    rw [hcount, hsize, Nat.mul_assoc, Nat.mul_div_cancel_left _ (ValueType.scalar_size_pos _)]
  have hpieces : ∀ piece ∈ Bytes.pieces ty.size count bytes,
      (ofBytes ty piece).lanes =
        (Bytes.pieces ty.lane.size ty.laneCount piece).map (ofBytes (.scalar ty.lane)) :=
    fun piece hp => lanes_ofBytes (Bytes.length_of_mem_pieces hcount.ge hp)
  rw [split, split, ValueType.size_scalar, hlane, hdiv, List.flatMap_map,
    List.flatMap_congr hpieces, ← List.map_flatMap, hsize, Bytes.flatMap_pieces]

end Value

end Conformance
