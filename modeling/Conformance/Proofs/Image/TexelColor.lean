import Mathlib
import Conformance.Proofs.Geometry.Box
import Conformance.Proofs.Image.TexelRoundTrip

namespace Conformance

theorem ChannelOrder.slot_end {o : ChannelOrder} {c : Channel} {i : Nat} (h : o.slot? c = some i)
    (size : Nat) : i * size + size ≤ o.channelCount * size := by
  obtain ⟨hlt, -⟩ := List.getElem?_eq_some_iff.mp (getElem?_of_slot? h)
  exact step_le hlt (Nat.mul_comm _ _).le

namespace Color

variable {color : Color}

theorem exists_float (h : color.kind = .float) : ∃ c, color = .float c := by
  cases color <;> first | exact ⟨_, rfl⟩ | cases h

theorem exists_signed (h : color.kind = .signed) : ∃ c, color = .signed c := by
  cases color <;> first | exact ⟨_, rfl⟩ | cases h

theorem exists_unsigned (h : color.kind = .unsigned) : ∃ c, color = .unsigned c := by
  cases color <;> first | exact ⟨_, rfl⟩ | cases h

end Color

namespace Texel

variable {order : ChannelOrder} {type : ChannelType} {color : Color} {bytes : List UInt8}

theorem kind_decode (hf : order.allows type) (bytes : List UInt8) :
    (decode order type bytes).kind = type.kind := by
  by_cases ho : order = .depthStencil
  · subst ho
    obtain ⟨e, he⟩ := encoding_of_allows_depthStencil hf
    rw [decode, if_pos rfl, ChannelType.kind, he]
    rfl
  · rw [decode, if_neg ho, ChannelType.kind]
    cases type.encoding <;> rfl

theorem wordAt_append {start count : Nat} (h : start + count ≤ bytes.length) (rest : List UInt8) :
    wordAt (bytes ++ rest) start count = wordAt bytes start count := by
  have hd : count ≤ (bytes.drop start).length := by
    rw [List.length_drop]
    omega
  rw [wordAt, wordAt, List.drop_append_of_le_length (by omega), List.take_append_of_le_length hd]

theorem ofSlots_append {α : Type} {size : Nat} {decode : Nat → α} {missing : Channel → α}
    (hl : bytes.length = order.channelCount * size) (rest : List UInt8) :
    ofSlots order size (bytes ++ rest) decode missing =
      ofSlots order size bytes decode missing := by
  rw [ofSlots]
  congr 1
  funext c
  cases hs : order.slot? c with
  | none => rfl
  | some i =>
    dsimp only
    rw [wordAt_append (hl ▸ ChannelOrder.slot_end hs size)]

theorem decode_append (hl : bytes.length = texelSize order type) (rest : List UInt8) :
    decode order type (bytes ++ rest) = decode order type bytes := by
  by_cases ho : order = .depthStencil
  · subst ho
    have h4 := four_le_texelSize type
    rw [decode, decode, if_pos rfl, if_pos rfl, wordAt_append (by omega)]
  · rw [decode, decode, if_neg ho, if_neg ho]
    have hp := isPacked_eq type
    cases he : type.encoding <;> simp only [he] at hp ⊢
    case packed =>
      rw [texelSize_of_packed ho he] at hl
      rw [wordAt_append (by omega)]
    all_goals
      rw [texelSize_of_slots ho hp] at hl
      rw [ofSlots_append hl]

theorem length_toSlots {α : Type} (order : ChannelOrder) (size : Nat) (encode : α → Nat)
    (c : Rgba α) :
    (toSlots order size encode c).length = order.channelCount * size := by
  apply length_flatMap_block
  intro slot _
  cases slot <;> simp

theorem exists_channelBytes? (hf : order.allows type) (hk : color.kind = type.kind) :
    ∃ b, channelBytes? order type color = some b ∧ b.length ≤ texelSize order type := by
  rw [ChannelType.kind] at hk
  by_cases ho : order = .depthStencil
  · subst ho
    obtain ⟨e, he⟩ := encoding_of_allows_depthStencil hf
    rw [he] at hk
    obtain ⟨c, rfl⟩ := Color.exists_float hk
    refine ⟨depthBytes type c.r, by simp [channelBytes?, he], ?_⟩
    rw [depthBytes, Bytes.length_ofNat]
    exact four_le_texelSize type
  · have hp := isPacked_eq type
    cases he : type.encoding with
    | float e =>
      rw [he] at hk hp
      obtain ⟨c, rfl⟩ := Color.exists_float hk
      refine ⟨floatBytes order type e c, by simp [channelBytes?, he, ho], ?_⟩
      rw [floatBytes, length_toSlots, texelSize_of_slots ho hp]
    | packed red green blue =>
      rw [he] at hk
      obtain ⟨c, rfl⟩ := Color.exists_float hk
      refine ⟨Bytes.ofNat type.size (packWord red green blue c),
        by simp [channelBytes?, he, ho], ?_⟩
      rw [Bytes.length_ofNat, texelSize_of_packed ho he]
    | signed bits =>
      rw [he] at hk hp
      obtain ⟨c, rfl⟩ := Color.exists_signed hk
      refine ⟨toSlots order type.size (encodeSigned bits) c, by simp [channelBytes?, he], ?_⟩
      rw [length_toSlots, texelSize_of_slots ho hp]
    | unsigned bits =>
      rw [he] at hk hp
      obtain ⟨c, rfl⟩ := Color.exists_unsigned hk
      refine ⟨toSlots order type.size (encodeUnsigned bits) c, by simp [channelBytes?, he], ?_⟩
      rw [length_toSlots, texelSize_of_slots ho hp]

theorem encode_returns (hf : order.allows type) (hk : color.kind = type.kind) :
    Returns (encode order type color) fun v => Holds v (texelSize order type) := by
  obtain ⟨b, hb, -⟩ := exists_channelBytes? hf hk
  obtain ⟨hpos, hle⟩ := texelSize_bounds order type
  have hv := @toValue_returns (Bytes.fit (texelSize order type) b)
  rw [Bytes.length_fit] at hv
  rw [encode, hb]
  exact hv hpos hle

end Texel

end Conformance
