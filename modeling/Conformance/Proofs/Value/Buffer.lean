import Mathlib
import Conformance.Proofs.Blocks
import Conformance.Proofs.Value.RoundTrip

namespace Conformance.Value

variable {ty : ValueType} {values : List Value} {bytes out : List UInt8}

theorem length_flatMap_toBytes (values : List Value) :
    (values.flatMap toBytes).length = (values.map size).sum := by
  have hlength : values.map (List.length ∘ toBytes) = values.map size :=
    List.map_congr_left fun v _ => length_toBytes v
  rw [List.length_flatMap, ← hlength]
  rfl

theorem writeEach_cons {v : Value} {rest : List Value} (h : v.size ≤ out.length) :
    writeEach (v :: rest) out = (v.toBytes ++ ·) <$> writeEach rest (out.drop v.size) := by
  have hl : v.toBytes.length = v.size := length_toBytes v
  have htake : (v.toBytes ++ out.drop v.size).take v.size = v.toBytes := List.take_left' hl
  have hdrop : (v.toBytes ++ out.drop v.size).drop v.size = out.drop v.size := List.drop_left' hl
  rw [writeEach, write_eq h]
  change (writeEach rest ((v.toBytes ++ out.drop v.size).drop v.size) >>= fun tail =>
    pure ((v.toBytes ++ out.drop v.size).take v.size ++ tail)) = _
  rw [htake, hdrop, map_eq_pure_bind]

theorem writeEach_eq (h : totalSize values ≤ out.length) :
    writeEach values out = .ok (values.flatMap toBytes ++ out.drop (totalSize values)) := by
  induction values generalizing out with
  | nil => rfl
  | cons v rest ih =>
    rw [totalSize] at h ⊢
    have hrest : totalSize rest ≤ (out.drop v.size).length := by
      rw [List.length_drop]
      omega
    rw [writeEach_cons (by omega), ih hrest, List.drop_drop, List.flatMap_cons, List.append_assoc]
    rfl

theorem writeAll_eq (values : List Value) : writeAll values = .ok (values.flatMap toBytes) := by
  have hl : (List.replicate (totalSize values) (0 : UInt8)).length = totalSize values :=
    List.length_replicate
  rw [writeAll, writeEach_eq hl.ge, List.drop_of_length_le hl.le, List.append_nil]

theorem length_split (ty : ValueType) (bytes : List UInt8) :
    (split ty bytes).length = bytes.length / ty.size := by
  simp [split, Bytes.pieces_eq_map]

theorem flatMap_toBytes_split (h : bytes.length % ty.size = 0) :
    (split ty bytes).flatMap toBytes = bytes := by
  have hall : ty.size * (bytes.length / ty.size) = bytes.length :=
    Nat.mul_div_cancel' (Nat.dvd_of_mod_eq_zero h)
  have hpiece : ∀ piece ∈ Bytes.pieces ty.size (bytes.length / ty.size) bytes,
      (ofBytes ty piece).toBytes = piece := by
    intro piece hp
    have hs : piece.length = ty.size := Bytes.length_of_mem_pieces hall.le hp
    rw [toBytes_ofBytes hs.ge, ← hs, List.take_length]
  rw [split, List.flatMap_map, List.flatMap_congr hpiece, List.flatMap_id', Bytes.flatten_pieces,
    hall, List.take_length]

theorem length_flatMap_toBytes_typed (h : ∀ v ∈ values, v.ty = ty) :
    (values.flatMap toBytes).length = values.length * ty.size :=
  length_flatMap_block fun v hv => by rw [length_toBytes, h v hv]

theorem split_flatMap_toBytes (h : ∀ v ∈ values, v.ty = ty) :
    split ty (values.flatMap toBytes) = values := by
  have hblock : ∀ v ∈ values, v.toBytes.length = ty.size := by
    intro v hv
    rw [length_toBytes, h v hv]
  rw [split, length_flatMap_toBytes_typed h, Nat.mul_div_cancel _ ty.size_pos, Bytes.pieces_eq_map,
    List.map_map]
  apply List.ext_getElem
  · simp
  · intro i h1 h2
    have hget : values[i]? = some values[i] := List.getElem?_eq_getElem h2
    have hty : values[i].ty = ty := h _ (List.getElem_mem h2)
    have hread := ofBytes_toBytes values[i]
    rw [hty] at hread
    simpa [take_drop_flatMap_block hblock hget] using hread

/-- Writing never fails and puts every value behind those before it; reading takes a buffer of whole
values apart again, and both ways lead back. -/
theorem buffers_exact :
    (∀ values, ∃ bytes, writeAll values = .ok bytes ∧ bytes = values.flatMap toBytes ∧
      bytes.length = (values.map size).sum ∧
      ∀ before v after, values = before ++ v :: after →
        (bytes.drop (before.map size).sum).take v.size = v.toBytes) ∧
    (∀ v, write v (List.replicate v.size 0) = .ok v.toBytes) ∧
    (∀ ty (bytes : List UInt8), bytes.length % ty.size = 0 →
      ∃ values, readAll ty bytes = .ok values ∧ values.length = bytes.length / ty.size ∧
        (∀ v ∈ values, v.ty = ty) ∧ writeAll values = .ok bytes) ∧
    ∀ ty (values : List Value), (∀ v ∈ values, v.ty = ty) →
      ∃ bytes, writeAll values = .ok bytes ∧ readAll ty bytes = .ok values := by
  refine ⟨?_, ?_, ?_, ?_⟩
  · intro values
    refine ⟨_, writeAll_eq values, rfl, length_flatMap_toBytes values, ?_⟩
    rintro before v after rfl
    have hl : (before.flatMap toBytes).length = (before.map size).sum :=
      length_flatMap_toBytes before
    rw [List.flatMap_append, List.drop_left' hl, List.flatMap_cons]
    exact List.take_left' (length_toBytes v)
  · intro v
    have hl : (List.replicate v.size (0 : UInt8)).length = v.size := List.length_replicate
    rw [write_eq hl.ge, List.drop_of_length_le hl.le, List.append_nil]
  · intro ty bytes h
    refine ⟨split ty bytes, readAll_eq h, length_split ty bytes, fun v hv => ty_of_mem_split hv, ?_⟩
    rw [writeAll_eq, flatMap_toBytes_split h]
  · intro ty values h
    refine ⟨_, writeAll_eq values, ?_⟩
    have hm : (values.flatMap toBytes).length % ty.size = 0 := by
      rw [length_flatMap_toBytes_typed h, Nat.mul_mod_left]
    rw [readAll_eq hm, split_flatMap_toBytes h]

theorem buffers_exact_halves :
    let values : List Value := [ofNat (.scalar .f16) 0x7c01, ofNat (.scalar .f16) 0xfc01]
    let bytes : List UInt8 := [1, 2, 3, 4, 5, 6, 7, 8]
    (∀ v ∈ values, v.ty = .scalar .f16) ∧ bytes.length % (ValueType.packed .s16x2).size = 0 ∧
      readAll (.scalar .f16) [0x01, 0x7c, 0x01, 0xfc] = .ok values ∧
      ∃ pairs, readAll (.packed .s16x2) bytes = .ok pairs ∧ pairs.length = 2 ∧
        writeAll pairs = .ok bytes := by
  intro values bytes
  have hty : ∀ v ∈ values, v.ty = .scalar .f16 := by decide
  have hm : bytes.length % (ValueType.packed .s16x2).size = 0 := by decide
  obtain ⟨written, hw, hr⟩ := buffers_exact.2.2.2 (.scalar .f16) values hty
  have hbytes : writeAll values = .ok [0x01, 0x7c, 0x01, 0xfc] := by decide
  obtain rfl := Except.ok.inj (hw.symm.trans hbytes)
  obtain ⟨pairs, hp, hlen, -, hback⟩ := buffers_exact.2.2.1 (.packed .s16x2) bytes hm
  exact ⟨hty, hm, hr, pairs, hp, hlen.trans (by decide), hback⟩

end Conformance.Value
