import Mathlib
import Conformance.Proofs.Blocks
import Conformance.Proofs.Image.ChannelWord
import Conformance.Proofs.Image.TexelValue

namespace Conformance

namespace ChannelOrder

variable {o : ChannelOrder} {c : Channel} {i : Nat}

theorem slot?_of_getElem? (h : o.slots[i]? = some (some c)) : o.slot? c = some i := by
  have hall : ∀ p ∈ o.slots.zipIdx, ∀ c ∈ p.1, o.slot? c = some p.2 := by
    cases o <;> decide
  exact hall (some c, i) (List.mk_mem_zipIdx_iff_getElem?.mpr h) c rfl

theorem getElem?_of_slot? (h : o.slot? c = some i) : o.slots[i]? = some (some (o.source c)) := by
  obtain ⟨hi, hc, -⟩ := List.findIdx?_eq_some_iff_getElem.mp h
  rw [List.getElem?_eq_getElem hi]
  simpa using hc

end ChannelOrder

namespace Texel

theorem wordAt_lt (bytes : List UInt8) (start count : Nat) :
    wordAt bytes start count < 256 ^ count := by
  refine (Bytes.toNat_lt _).trans_le (Nat.pow_le_pow_right (by decide) ?_)
  exact List.length_take_le _ _

section Slots

def canonicalSlot (size : Nat) (canonical : Nat → Nat) (bytes : List UInt8) :
    Option Channel × Nat → List UInt8
  | (some _, i) => Bytes.ofNat size (canonical (wordAt bytes (i * size) size))
  | (none, _) => List.replicate size 0

def canonicalSlots (order : ChannelOrder) (size : Nat) (canonical : Nat → Nat)
    (bytes : List UInt8) :
    List UInt8 :=
  order.slots.zipIdx.flatMap (canonicalSlot size canonical bytes)

variable {α : Type} {order : ChannelOrder} {size : Nat} {decode : Nat → α} {encode : α → Nat}
  {canonical : Nat → Nat} {bytes : List UInt8} {missing : Channel → α}

theorem length_canonicalSlot (p : Option Channel × Nat) :
    (canonicalSlot size canonical bytes p).length = size := by
  obtain ⟨slot, i⟩ := p
  cases slot <;> simp [canonicalSlot]

theorem length_canonicalSlots :
    (canonicalSlots order size canonical bytes).length = order.channelCount * size := by
  rw [canonicalSlots, length_flatMap_block fun p _ => length_canonicalSlot p, List.length_zipIdx,
    ChannelOrder.channelCount]

theorem get_ofSlots (c : Channel) :
    (ofSlots order size bytes decode missing).get c =
      match order.slot? c with
      | some i => decode (wordAt bytes (i * size) size)
      | none => missing c := by
  cases c <;> rfl

theorem toSlots_ofSlots (h : Recovers size decode encode canonical) :
    toSlots order size encode (ofSlots order size bytes decode missing) =
      canonicalSlots order size canonical bytes := by
  have hslots : order.slots = order.slots.zipIdx.map Prod.fst := (List.zipIdx_map_fst 0 _).symm
  rw [toSlots, hslots, List.flatMap_map, canonicalSlots]
  apply List.flatMap_congr
  rintro ⟨slot, i⟩ hp
  cases slot with
  | none => rfl
  | some c =>
    have hi := ChannelOrder.slot?_of_getElem? (List.mk_mem_zipIdx_iff_getElem?.mp hp)
    have hw := wordAt_lt bytes (i * size) size
    simp only [canonicalSlot, get_ofSlots, hi]
    apply Bytes.ofNat_congr
    rw [h.encode_decode _ hw, Nat.mod_eq_of_lt (h.canonical_lt hw)]

theorem wordAt_canonicalSlots (h : Recovers size decode encode canonical) {c : Channel} {i : Nat}
    (hi : order.slots[i]? = some (some c)) :
    wordAt (canonicalSlots order size canonical bytes) (i * size) size =
      canonical (wordAt bytes (i * size) size) := by
  have hz : order.slots.zipIdx[i]? = some (some c, i) := by
    simp [List.getElem?_zipIdx, hi]
  have hw := h.canonical_lt (wordAt_lt bytes (i * size) size)
  rw [wordAt, canonicalSlots, take_drop_flatMap_block (fun p _ => length_canonicalSlot p) hz,
    canonicalSlot, Bytes.toNat_ofNat, Nat.mod_eq_of_lt hw]

theorem ofSlots_canonicalSlots (h : Recovers size decode encode canonical) :
    ofSlots order size (canonicalSlots order size canonical bytes) decode missing =
      ofSlots order size bytes decode missing := by
  rw [ofSlots]
  congr 1
  funext c
  cases hs : order.slot? c with
  | none => rfl
  | some i =>
    dsimp only
    rw [wordAt_canonicalSlots h (ChannelOrder.getElem?_of_slot? hs),
      h.decode_canonical _ (wordAt_lt bytes (i * size) size)]

end Slots

/-- The texel that is written for what a texel is read as. -/
def canonical (order : ChannelOrder) (type : ChannelType) (bytes : List UInt8) : List UInt8 :=
  if order = .depthStencil then
    Bytes.fit (texelSize order type)
      (Bytes.ofNat 4 ((stencilDepth type).canonical (wordAt bytes 0 4)))
  else
    match type.encoding with
    | .float e => canonicalSlots order type.size e.canonical bytes
    | .packed red _ _ => Bytes.ofNat type.size (canonicalPacked red (wordAt bytes 0 type.size))
    | .signed _ | .unsigned _ => canonicalSlots order type.size id bytes

variable {order : ChannelOrder} {type : ChannelType} {bytes : List UInt8}

theorem isPacked_eq (type : ChannelType) :
    type.isPacked = match type.encoding with
      | .packed _ _ _ => true
      | _ => false := by
  cases type <;> rfl

theorem texelSize_of_packed {red green blue : PackedField} (ho : order ≠ .depthStencil)
    (h : type.encoding = .packed red green blue) : texelSize order type = type.size := by
  simp [texelSize, ho, isPacked_eq, h]

theorem texelSize_of_slots (ho : order ≠ .depthStencil) (h : type.isPacked = false) :
    texelSize order type = order.channelCount * type.size := by
  simp [texelSize, ho, h]

theorem length_canonical (order : ChannelOrder) (type : ChannelType) (bytes : List UInt8) :
    (canonical order type bytes).length = texelSize order type := by
  rw [canonical]
  split_ifs with ho
  · exact Bytes.length_fit _ _
  · have hp := isPacked_eq type
    cases he : type.encoding <;> simp only [he] at hp ⊢
    case packed => rw [Bytes.length_ofNat, texelSize_of_packed ho he]
    all_goals rw [length_canonicalSlots, texelSize_of_slots ho hp]

theorem texelSize_bounds (order : ChannelOrder) (type : ChannelType) :
    0 < texelSize order type ∧ texelSize order type ≤ 16 := by
  have hc : 0 < order.channelCount ∧ order.channelCount ≤ 4 := by cases order <;> decide
  have hs : 0 < type.size ∧ type.size ≤ 4 := by cases type <;> decide
  have hpos := Nat.mul_pos hc.1 hs.1
  have hle := Nat.mul_le_mul hc.2 hs.2
  rw [texelSize]
  split_ifs <;> omega

theorem exists_toValue (h0 : 0 < bytes.length) (h : bytes.length ≤ 16) :
    ∃ value, toValue bytes = .ok value := by
  obtain ⟨value, hv, -⟩ := toValue_returns h0 h
  exact ⟨value, hv⟩

theorem wordAt_ofNat {count n : Nat} (h : n < 256 ^ count) :
    wordAt (Bytes.ofNat count n) 0 count = n := by
  have ht : (Bytes.ofNat count n).take count = Bytes.ofNat count n :=
    List.take_of_length_le (Bytes.length_ofNat count n).le
  rw [wordAt, List.drop_zero, ht, Bytes.toNat_ofNat, Nat.mod_eq_of_lt h]

theorem wordAt_fit {count size : Nat} (hb : size ≤ bytes.length) (hc : size ≤ count) :
    wordAt (Bytes.fit count bytes) 0 size = wordAt bytes 0 size := by
  rw [wordAt, wordAt, List.drop_zero, List.drop_zero, Bytes.take_fit hb hc]

theorem four_le_texelSize (type : ChannelType) : 4 ≤ texelSize .depthStencil type := by
  rw [texelSize, if_pos rfl]
  split_ifs <;> decide

theorem wordAt_canonical_depth (type : ChannelType) (bytes : List UInt8) :
    wordAt (canonical .depthStencil type bytes) 0 4 =
      (stencilDepth type).canonical (wordAt bytes 0 4) := by
  have hw := (recovers_depth type).canonical_lt (wordAt_lt bytes 0 4)
  rw [canonical, if_pos rfl, wordAt_fit (Bytes.length_ofNat _ _).ge (four_le_texelSize type),
    wordAt_ofNat hw]

/-- The canonical texel is read as the same color. -/
theorem decode_canonical (order : ChannelOrder) (type : ChannelType) (bytes : List UInt8) :
    decode order type (canonical order type bytes) = decode order type bytes := by
  by_cases ho : order = .depthStencil
  · subst ho
    have hd := (recovers_depth type).decode_canonical _ (wordAt_lt bytes 0 4)
    rw [decode, decode, if_pos rfl, if_pos rfl, wordAt_canonical_depth, hd]
  · rw [decode, decode, canonical, if_neg ho, if_neg ho, if_neg ho]
    cases he : type.encoding with
    | float e => simp only [ofSlots_canonicalSlots (recovers_float_channel he)]
    | signed bits => simp only [ofSlots_canonicalSlots (recovers_signed_channel he)]
    | unsigned bits => simp only [ofSlots_canonicalSlots (recovers_unsigned_channel he)]
    | packed red green blue =>
      obtain ⟨hc, hb⟩ := contiguous_of_encoding he
      have hw : canonicalPacked red (wordAt bytes 0 type.size) < 256 ^ type.size := by
        rw [← two_pow_bytes]
        exact (Nat.mod_lt _ (Nat.two_pow_pos _)).trans_le (Nat.pow_le_pow_right (by decide) hb)
      simp only [wordAt_ofNat hw, unpackWord_canonical hc]

theorem encoding_of_allows_depthStencil (h : ChannelOrder.depthStencil.allows type) :
    ∃ e, type.encoding = .float e := by
  simp only [ChannelOrder.allows, decide_eq_true_eq, List.mem_cons, List.not_mem_nil, or_false] at h
  obtain rfl | rfl := h
  · exact ⟨_, rfl⟩
  · exact ⟨_, rfl⟩

theorem channelBytes?_decode (hf : order.allows type) (hs : order.isSrgb = false)
    (bytes : List UInt8) :
    ∃ b, channelBytes? order type (decode order type bytes) = some b ∧
      Bytes.fit (texelSize order type) b = canonical order type bytes := by
  by_cases ho : order = .depthStencil
  · subst ho
    obtain ⟨e, he⟩ := encoding_of_allows_depthStencil hf
    have hd := (recovers_depth type).encode_decode _ (wordAt_lt bytes 0 4)
    refine ⟨depthBytes type (decodeFloat (stencilDepth type) (wordAt bytes 0 4)), ?_, ?_⟩
    · simp [decode, channelBytes?, he, ofDepth]
    · rw [canonical, if_pos rfl, ← hd]
      congr 1
      exact Bytes.ofNat_congr (Nat.mod_mod _ _).symm
  · refine ⟨canonical order type bytes, ?_, Bytes.fit_eq_self (length_canonical ..)⟩
    rw [decode, canonical, if_neg ho, if_neg ho]
    cases he : type.encoding with
    | float e =>
      simp only [hs, channelBytes?, he, ho, floatBytes, Bool.false_eq_true, if_false,
        toSlots_ofSlots (recovers_float_channel he)]
    | signed bits => simp only [channelBytes?, he, toSlots_ofSlots (recovers_signed_channel he)]
    | unsigned bits => simp only [channelBytes?, he, toSlots_ofSlots (recovers_unsigned_channel he)]
    | packed red green blue =>
      simp only [channelBytes?, he, ho, if_false, packWord_unpackWord (contiguous_of_encoding he).1]

theorem allows_of_checkFormat {kind : ImageKind} (h : checkFormat kind order type = .ok ()) :
    order.allows type := by
  rw [checkFormat] at h
  split_ifs at h with _ ha
  simpa using ha

/-- A texel that is read and written back is the canonical one, which is read as the same color. -/
theorem read_encode (order : ChannelOrder) (type : ChannelType) (bytes : List UInt8)
    (hf : ∃ kind, checkFormat kind order type = .ok ()) (hs : order.isSrgb = false)
    (hl : bytes.length = texelSize order type) :
    ∃ color value, read order type bytes = .ok color ∧ encode order type color = .ok value ∧
      toValue (canonical order type bytes) = .ok value ∧
      read order type (canonical order type bytes) = .ok color := by
  obtain ⟨kind, hk⟩ := hf
  have hc := length_canonical order type bytes
  obtain ⟨hpos, hle⟩ := texelSize_bounds order type
  obtain ⟨value, hv⟩ := exists_toValue (hc ▸ hpos) (hc ▸ hle)
  obtain ⟨b, hb, hfit⟩ := channelBytes?_decode (allows_of_checkFormat hk) hs bytes
  refine ⟨decode order type bytes, value, ?_, ?_, hv, ?_⟩
  · rw [read, if_neg (by omega)]
  · rw [encode, hb]
    simp only [hfit, hv]
  · rw [read, if_neg (by omega), decode_canonical]

theorem read_encode_lowest :
    (∃ kind, checkFormat kind .rx .snormInt8 = .ok ()) ∧ ChannelOrder.rx.isSrgb = false ∧
      [128, 85].length = texelSize .rx .snormInt8 ∧
      canonical .rx .snormInt8 [128, 85] = [129, 0] ∧
      ∃ color value, read .rx .snormInt8 [128, 85] = .ok color ∧
        encode .rx .snormInt8 color = .ok value ∧ toValue [129, 0] = .ok value ∧
        read .rx .snormInt8 [129, 0] = .ok color :=
  ⟨⟨.plane, rfl⟩, rfl, rfl, by decide,
    read_encode .rx .snormInt8 [128, 85] ⟨.plane, rfl⟩ rfl rfl⟩

end Texel

end Conformance
