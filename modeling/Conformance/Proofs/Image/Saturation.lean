import Mathlib
import Conformance.Proofs.Image.TexelColor

namespace Conformance.Texel

def saturatedSigned (bits : Nat) (n : Int) : Int :=
  max (-2 ^ (bits - 1)) (min n (2 ^ (bits - 1) - 1))

def saturatedUnsigned (bits n : Nat) : Nat := min n (2 ^ bits - 1)

/-- What a texel of integer channels keeps of a color that is written. -/
structure Saturates (order : ChannelOrder) (type : ChannelType) (color loaded : Color) : Prop where
  signed : ∀ bits c, type.encoding = .signed bits → color = .signed c →
    ∃ kept, loaded = .signed kept ∧ ∀ ch, (kept.get ch).toInt =
      if some ch ∈ order.slots then saturatedSigned bits (c.get ch).toInt
      else if ch = .alpha then 1 else 0
  unsigned : ∀ bits c, type.encoding = .unsigned bits → color = .unsigned c →
    ∃ kept, loaded = .unsigned kept ∧ ∀ ch, (kept.get ch).toNat =
      if some ch ∈ order.slots then saturatedUnsigned bits (c.get ch).toNat
      else if ch = .alpha then 1 else 0

theorem saturatedSigned_bounds (bits : Nat) (n : Int) :
    -2 ^ (bits - 1) ≤ saturatedSigned bits n ∧ saturatedSigned bits n < 2 ^ (bits - 1) := by
  have hp : (0 : Int) < 2 ^ (bits - 1) := by positivity
  rw [saturatedSigned]
  omega

/-- A word whose low bits are those of a number in range stands for that number. -/
theorem signedWord_eq {bits word : Nat} (hb : 0 < bits) {n : Int} (hl : -2 ^ (bits - 1) ≤ n)
    (hu : n < 2 ^ (bits - 1)) (hw : (word : Int) = n % 2 ^ bits) : signedWord bits word = n := by
  have hp : (2 : Int) ^ bits = 2 * 2 ^ (bits - 1) := (mul_pow_sub_one (by omega) 2).symm
  have hcast : ((2 ^ bits : Nat) : Int) = 2 ^ bits := by push_cast; rfl
  rw [signedWord, BitVec.toInt_ofNat', hw, ← hcast, Int.emod_bmod]
  apply Int.bmod_eq_of_le_mul_two <;> rw [hcast] <;> omega

theorem decode_encodeSigned {size : Nat} (h0 : 0 < size) (hs : size ≤ 4) (v : Int32) :
    (decodeSigned (8 * size) (encodeSigned (8 * size) v % 256 ^ size)).toInt =
      saturatedSigned (8 * size) v.toInt := by
  obtain ⟨hl, hu⟩ := saturatedSigned_bounds (8 * size) v.toInt
  set n := saturatedSigned (8 * size) v.toInt with hn
  have hencode : encodeSigned (8 * size) v = (n % UInt32.size).toNat := by
    have hlow : -(2 ^ (8 * size - 1) - 1 : Int) - 1 = -2 ^ (8 * size - 1) := by ring
    rw [encodeSigned, natCast_maxCode, hlow, hn, saturatedSigned]
  have hword : ((encodeSigned (8 * size) v % 256 ^ size : Nat) : Int) = n % 2 ^ (8 * size) := by
    rw [hencode, ← two_pow_bytes]
    exact toNat_emod_word (by omega) n
  have hpow : (2 : Int) ^ (8 * size - 1) ≤ 2 ^ 31 := pow_le_pow_right₀ (by norm_num) (by omega)
  rw [decodeSigned, signedWord_eq (by omega) hl hu hword]
  exact Int32.toInt_ofInt_of_le (by omega) (by omega)

theorem decode_encodeUnsigned (size : Nat) (v : UInt32) :
    (decodeUnsigned (8 * size) (encodeUnsigned (8 * size) v % 256 ^ size)).toNat =
      saturatedUnsigned (8 * size) v.toNat := by
  have hpos := Nat.two_pow_pos (8 * size)
  have hlt : saturatedUnsigned (8 * size) v.toNat < 2 ^ (8 * size) := by
    rw [saturatedUnsigned]
    omega
  have hword : saturatedUnsigned (8 * size) v.toNat < UInt32.size :=
    (Nat.min_le_left _ _).trans_lt v.toNat_lt
  rw [encodeUnsigned, maxCode_eq, ← saturatedUnsigned, decodeUnsigned, unsignedWord_eq,
    ← two_pow_bytes, Nat.mod_mod, Nat.mod_eq_of_lt hlt, UInt32.toNat_ofNat_of_lt' hword]

section Slots

variable {α : Type} {order : ChannelOrder} {size : Nat} {encode : α → Nat} {c : Rgba α}
  {ch : Channel}

theorem wordAt_toSlots {i : Nat} (hi : order.slots[i]? = some (some ch)) :
    wordAt (toSlots order size encode c) (i * size) size = encode (c.get ch) % 256 ^ size := by
  refine (congrArg Bytes.toNat (take_drop_flatMap_block ?_ hi)).trans (Bytes.toNat_ofNat _ _)
  intro slot _
  cases slot <;> simp

/-- In an order that repeats no channel, a channel is read from the slot that it is written to. -/
theorem get_ofSlots_toSlots {decode : Nat → α} {missing : Channel → α} (hs : order.source ch = ch) :
    (ofSlots order size (toSlots order size encode c) decode missing).get ch =
      if some ch ∈ order.slots then decode (encode (c.get ch) % 256 ^ size) else missing ch := by
  rw [get_ofSlots]
  cases hslot : order.slot? ch with
  | some i =>
    have hi := ChannelOrder.getElem?_of_slot? hslot
    rw [hs] at hi
    rw [if_pos (List.mem_of_getElem? hi)]
    dsimp only
    rw [wordAt_toSlots hi]
  | none =>
    have hnone : some ch ∉ order.slots := by
      intro hmem
      rw [ChannelOrder.slot?, List.findIdx?_eq_none_iff, hs] at hslot
      simpa using hslot _ hmem
    rw [if_neg hnone]

end Slots

variable {order : ChannelOrder} {type : ChannelType}

/-- Only orders of normalized and floating-point channels repeat a channel. -/
theorem source_eq_of_integer (hf : order.allows type) (hk : type.kind ≠ .float) (ch : Channel) :
    order.source ch = ch := by
  cases order <;> try rfl
  all_goals cases type <;> simp_all [ChannelOrder.allows, ChannelType.kind, ChannelType.encoding]

theorem ne_depthStencil_of_integer (hf : order.allows type) (hk : type.kind ≠ .float) :
    order ≠ .depthStencil := by
  rintro rfl
  obtain ⟨e, he⟩ := encoding_of_allows_depthStencil hf
  simp [ChannelType.kind, he] at hk

theorem length_toSlots_of_integer {α : Type} (hf : order.allows type) (hk : type.kind ≠ .float)
    (encode : α → Nat) (c : Rgba α) :
    (toSlots order type.size encode c).length = texelSize order type := by
  have hp : type.isPacked = false := by
    cases type <;> first | rfl | exact absurd rfl hk
  rw [length_toSlots, texelSize_of_slots (ne_depthStencil_of_integer hf hk) hp]

variable {color : Color}

theorem saturates_decode (hf : order.allows type) {bytes : List UInt8}
    (hb : channelBytes? order type color = some bytes) :
    Saturates order type color (decode order type (Bytes.fit (texelSize order type) bytes)) where
  signed := by
    rintro bits c he rfl
    have hk : type.kind ≠ .float := by simp [ChannelType.kind, he]
    obtain ⟨rfl, h0, hs⟩ := signed_bits he
    obtain rfl : toSlots order type.size (encodeSigned (8 * type.size)) c = bytes := by
      simpa [channelBytes?, he] using hb
    rw [Bytes.fit_eq_self (length_toSlots_of_integer hf hk _ c)]
    refine ⟨_, by rw [decode, if_neg (ne_depthStencil_of_integer hf hk), he], fun ch => ?_⟩
    rw [get_ofSlots_toSlots (source_eq_of_integer hf hk ch)]
    split_ifs with hstored ha
    · exact decode_encodeSigned h0 hs _
    · simp [absent, ha]
    · simp [absent, ha]
  unsigned := by
    rintro bits c he rfl
    have hk : type.kind ≠ .float := by simp [ChannelType.kind, he]
    obtain ⟨rfl, -⟩ := unsigned_bits he
    obtain rfl : toSlots order type.size (encodeUnsigned (8 * type.size)) c = bytes := by
      simpa [channelBytes?, he] using hb
    rw [Bytes.fit_eq_self (length_toSlots_of_integer hf hk _ c)]
    refine ⟨_, by rw [decode, if_neg (ne_depthStencil_of_integer hf hk), he], fun ch => ?_⟩
    rw [get_ofSlots_toSlots (source_eq_of_integer hf hk ch)]
    split_ifs with hstored ha
    · exact decode_encodeUnsigned _ _
    · simp [absent, ha]
    · simp [absent, ha]

theorem decode_toBytes {v : Value} (h : texelSize order type ≤ v.size) :
    decode order type v.toBytes =
      decode order type (Bytes.ofNat (texelSize order type) v.toNat) := by
  have htake : v.toBytes.take (texelSize order type) = Bytes.ofNat (texelSize order type) v.toNat :=
    Bytes.take_ofNat h _
  have hl : (Bytes.ofNat (texelSize order type) v.toNat).length = texelSize order type :=
    Bytes.length_ofNat _ _
  rw [← List.take_append_drop (texelSize order type) v.toBytes, htake, decode_append hl]

theorem encode_saturates {v : Value} (hf : order.allows type)
    (h : encode order type color = .ok v) :
    Saturates order type color
      (decode order type (Bytes.ofNat (texelSize order type) v.toNat)) := by
  rw [encode] at h
  cases hb : channelBytes? order type color with
  | none => simp [hb] at h
  | some bytes =>
    simp only [hb] at h
    have hbytes := ofNat_toValue h
    rw [Bytes.length_fit] at hbytes
    rw [hbytes]
    exact saturates_decode hf hb

end Conformance.Texel
