import Mathlib
import Conformance.Proofs.Image.NormalizedCode
import Conformance.Proofs.Value.RoundTrip

namespace Conformance

open Texel

/-- The bits of a texel that hold the code of a normalized channel. -/
structure NormalizedField where
  channel : Channel
  shift : Nat
  bits : Nat
  signed : Bool
deriving DecidableEq

namespace NormalizedField

variable (f : NormalizedField)

def Spans (i : Nat) : Prop := f.shift ≤ i ∧ i < f.shift + f.bits

def lowest : ℚ := if f.signed then -1 else 0

def largest : Nat := maxCode (if f.signed then f.bits - 1 else f.bits)

def code (texel : Nat) : ℤ :=
  if f.signed then signedWord f.bits (texel >>> f.shift)
  else unsignedWord f.bits (texel >>> f.shift)

def word (v : Single) : Nat := if f.signed then toSnorm f.bits v else toUnorm f.bits v

end NormalizedField

namespace Texel

def slotFields (order : ChannelOrder) (size bits : Nat) (signed : Bool) : List NormalizedField :=
  order.slots.zipIdx.filterMap fun (slot, i) => slot.map fun c => ⟨c, 8 * (i * size), bits, signed⟩

def packedFields (red green blue : PackedField) : List NormalizedField :=
  [⟨.red, red.shift, red.bits, false⟩, ⟨.green, green.shift, green.bits, false⟩,
    ⟨.blue, blue.shift, blue.bits, false⟩]

def normalizedFields (order : ChannelOrder) (type : ChannelType) : List NormalizedField :=
  if order = .depthStencil then [⟨.red, 0, 24, false⟩]
  else
    match type.encoding with
    | .float (.snorm bits) => slotFields order type.size bits true
    | .float (.unorm bits) => slotFields order type.size bits false
    | .packed red green blue => packedFields red green blue
    | _ => []

/-- A texel consists of its fields: each holds its own word, and all other bits are zero. -/
structure Lays (fields : List NormalizedField) (word : NormalizedField → Nat) (texel : Nat) :
    Prop where
  inside : ∀ f ∈ fields, (texel >>> f.shift) % 2 ^ f.bits = word f % 2 ^ f.bits
  outside : ∀ i, (∀ f ∈ fields, ¬f.Spans i) → texel.testBit i = false

def Apart (fields : List NormalizedField) : Prop :=
  ∀ f ∈ fields, ∀ g ∈ fields, ∀ i, f.Spans i → g.Spans i → f = g

namespace Lays

variable {fields : List NormalizedField} {word other : NormalizedField → Nat} {texel : Nat}

theorem congr (h : Lays fields word texel) (heq : ∀ f ∈ fields, word f = other f) :
    Lays fields other texel where
  inside := fun f hf => heq f hf ▸ h.inside f hf
  outside := h.outside

theorem lt (h : Lays fields word texel) {n : Nat} (hn : ∀ f ∈ fields, f.shift + f.bits ≤ n) :
    texel < 2 ^ n := by
  apply Nat.lt_pow_two_of_testBit
  intro i hi
  apply h.outside
  rintro f hf ⟨-, hlt⟩
  exact absurd (hn f hf) (by omega)

end Lays

section Slots

variable {α : Type} {order : ChannelOrder} {size bits : Nat} {signed : Bool} {f : NormalizedField}

theorem mem_slotFields :
    f ∈ slotFields order size bits signed ↔
      ∃ i c, order.slots[i]? = some (some c) ∧ f = ⟨c, 8 * (i * size), bits, signed⟩ := by
  simp only [slotFields, List.mem_filterMap, Prod.exists, List.mk_mem_zipIdx_iff_getElem?,
    Option.map_eq_some_iff]
  constructor
  · rintro ⟨slot, i, hi, c, rfl, rfl⟩
    exact ⟨i, c, hi, rfl⟩
  · rintro ⟨i, c, hi, rfl⟩
    exact ⟨some c, i, hi, c, rfl, rfl⟩

theorem wordAt_eq_shiftRight (bytes : List UInt8) (start count : Nat) :
    wordAt bytes start count = (Bytes.toNat bytes >>> (8 * start)) % 2 ^ (8 * count) := by
  rw [wordAt, Bytes.toNat_take, Bytes.toNat_drop, Nat.shiftRight_eq_div_pow, two_pow_bytes,
    two_pow_bytes]

theorem wordAt_toSlots_eq_zero {encode : α → Nat} {c : Rgba α} {i : Nat}
    (hi : ∀ ch, order.slots[i]? ≠ some (some ch)) :
    wordAt (toSlots order size encode c) (i * size) size = 0 := by
  cases hslot : order.slots[i]? with
  | none =>
    have hle : (toSlots order size encode c).length ≤ i * size := by
      rw [length_toSlots]
      exact Nat.mul_le_mul_right _ (List.getElem?_eq_none_iff.mp hslot)
    rw [wordAt, List.drop_eq_nil_of_le hle, List.take_nil, Bytes.toNat]
  | some slot =>
    cases slot with
    | some ch => exact absurd hslot (hi ch)
    | none =>
      refine (congrArg Bytes.toNat (take_drop_flatMap_block ?_ hslot)).trans
        (Bytes.toNat_append_zeros [] size)
      intro slot _
      cases slot <;> simp

theorem index_of_bit {c : Channel} {i k : Nat} (hb : bits ≤ 8 * size)
    (h : (⟨c, 8 * (k * size), bits, signed⟩ : NormalizedField).Spans i) : k = i / (8 * size) := by
  obtain ⟨hle, hlt⟩ := h
  dsimp only at hle hlt
  refine (Nat.div_eq_of_lt_le ?_ ?_).symm
  · linarith
  · linarith

theorem apart_slotFields (hb : bits ≤ 8 * size) : Apart (slotFields order size bits signed) := by
  intro f hf g hg i hfi hgi
  obtain ⟨k, c, hk, rfl⟩ := mem_slotFields.mp hf
  obtain ⟨l, d, hl, rfl⟩ := mem_slotFields.mp hg
  have hk' := index_of_bit hb hfi
  have hl' := index_of_bit hb hgi
  obtain rfl : k = l := hk'.trans hl'.symm
  obtain rfl : c = d := by simpa [hk] using hl
  rfl

/-- Words of slots are fields, if no bits are set above those that count. -/
theorem lays_toSlots {encode : Single → Nat} (c : Rgba Single) (h0 : 0 < size)
    (hb : bits ≤ 8 * size)
    (hlow : ∀ v, encode v % 256 ^ size < 2 ^ bits) :
    Lays (slotFields order size bits signed) (fun f => encode (c.get f.channel))
      (Bytes.toNat (toSlots order size encode c)) where
  inside := by
    intro f hf
    obtain ⟨i, ch, hi, rfl⟩ := mem_slotFields.mp hf
    have hword : wordAt (toSlots order size encode c) (i * size) size =
        encode (c.get ch) % 256 ^ size := wordAt_toSlots hi
    have hdvd : 2 ^ bits ∣ 2 ^ (8 * size) := Nat.pow_dvd_pow 2 hb
    rw [wordAt_eq_shiftRight, ← two_pow_bytes] at hword
    dsimp only
    rw [← Nat.mod_mod_of_dvd _ hdvd, hword, Nat.mod_mod_of_dvd _ hdvd]
  outside := by
    intro i hout
    -- bit `i` of the texel is bit `r` of slot `k`
    set k := i / (8 * size) with hk
    set r := i % (8 * size) with hr
    have hi : i = 8 * (k * size) + r := by
      rw [Nat.mul_left_comm, Nat.mul_comm k]
      exact (Nat.div_add_mod i (8 * size)).symm
    have hrlt : r < 8 * size := Nat.mod_lt _ (by omega)
    have hbit : (Bytes.toNat (toSlots order size encode c)).testBit i =
        (wordAt (toSlots order size encode c) (k * size) size).testBit r := by
      rw [wordAt_eq_shiftRight, Nat.testBit_mod_two_pow, Nat.testBit_shiftRight, ← hi]
      simp [hrlt]
    rw [hbit]
    by_cases hslot : ∃ ch, order.slots[k]? = some (some ch)
    · obtain ⟨ch, hch⟩ := hslot
      have hspan := hout _ (mem_slotFields.mpr ⟨k, ch, hch, rfl⟩)
      rw [wordAt_toSlots hch]
      simp only [NormalizedField.Spans] at hspan
      exact Nat.testBit_lt_two_pow ((hlow _).trans_le (Nat.pow_le_pow_right (by decide) (by omega)))
    · rw [wordAt_toSlots_eq_zero (by simpa using hslot), Nat.zero_testBit]

end Slots

section Packed

variable {fs gs : List NormalizedField} {word : NormalizedField → Nat} {f : NormalizedField}
  {a b : Nat}

theorem Lays.field (word : NormalizedField → Nat) (hw : word f < 2 ^ f.bits) :
    Lays [f] word (word f <<< f.shift) where
  inside := by
    intro g hg
    obtain rfl := List.mem_singleton.mp hg
    rw [Nat.shiftLeft_shiftRight]
  outside := by
    intro i hout
    have hspan := hout f (by simp)
    rw [NormalizedField.Spans] at hspan
    rw [Nat.testBit_shiftLeft]
    by_cases hi : f.shift ≤ i
    · have hhigh : (word f).testBit (i - f.shift) = false :=
        Nat.testBit_lt_two_pow (hw.trans_le (Nat.pow_le_pow_right (by decide) (by omega)))
      rw [hhigh, Bool.and_false]
    · simp [hi]

theorem shiftRight_mod_eq_zero (h : ∀ i, f.Spans i → a.testBit i = false) :
    (a >>> f.shift) % 2 ^ f.bits = 0 := by
  apply Nat.eq_of_testBit_eq
  intro i
  rw [Nat.testBit_mod_two_pow, Nat.testBit_shiftRight, Nat.zero_testBit]
  by_cases hi : i < f.bits
  · rw [h (f.shift + i) ⟨by omega, by omega⟩, Bool.and_false]
  · simp [hi]

/-- Fields apart from each other do not disturb each other. -/
theorem Lays.or (ha : Lays fs word a) (hb : Lays gs word b)
    (hd : ∀ f ∈ fs, ∀ g ∈ gs, ∀ i, f.Spans i → ¬g.Spans i) : Lays (fs ++ gs) word (a ||| b) where
  inside := by
    intro f hf
    rw [Nat.shiftRight_or_distrib, Nat.or_mod_two_pow]
    obtain hf | hf := List.mem_append.mp hf
    · have hzero : (b >>> f.shift) % 2 ^ f.bits = 0 :=
        shiftRight_mod_eq_zero fun i hi => hb.outside i fun g hg => hd f hf g hg i hi
      rw [hzero, Nat.or_zero, ha.inside f hf]
    · have hzero : (a >>> f.shift) % 2 ^ f.bits = 0 :=
        shiftRight_mod_eq_zero fun i hi => ha.outside i fun g hg hg' => hd g hg f hf i hg' hi
      rw [hzero, Nat.zero_or, hb.inside f hf]
  outside := by
    intro i hout
    rw [Nat.testBit_or, ha.outside i fun g hg => hout g (by simp [hg]),
      hb.outside i fun g hg => hout g (by simp [hg]), Bool.or_false]

variable {red green blue : PackedField}

theorem apart_packedFields (h : Contiguous red green blue) :
    Apart (packedFields red green blue) := by
  have hb := h.blue_shift
  have hg := h.green_shift
  have hr := h.red_shift
  intro f hf g hg i hfi hgi
  simp only [packedFields, List.mem_cons, List.not_mem_nil, or_false] at hf hg
  obtain rfl | rfl | rfl := hf <;> obtain rfl | rfl | rfl := hg <;>
    first | rfl | (simp only [NormalizedField.Spans] at hfi hgi; omega)

theorem lays_packWord (h : Contiguous red green blue) (c : Rgba Single) :
    Lays (packedFields red green blue) (fun f => f.word (c.get f.channel))
      (packWord red green blue c) := by
  have hb := h.blue_shift
  have hg := h.green_shift
  have hr := h.red_shift
  obtain ⟨hr0, hg0, hb0⟩ := h.pos
  obtain ⟨hr', hg', hb'⟩ := h.le
  let word (f : NormalizedField) : Nat := f.word (c.get f.channel)
  have hred := Lays.field (f := ⟨.red, red.shift, red.bits, false⟩) word (toUnorm_lt c.r hr0 hr')
  have hgreen := Lays.field (f := ⟨.green, green.shift, green.bits, false⟩) word
    (toUnorm_lt c.g hg0 hg')
  have hblue := Lays.field (f := ⟨.blue, blue.shift, blue.bits, false⟩) word
    (toUnorm_lt c.b hb0 hb')
  refine (hred.or hgreen ?_).or hblue ?_
  · simp only [List.mem_singleton, NormalizedField.Spans]
    rintro _ rfl _ rfl i
    dsimp only
    omega
  · simp only [List.mem_append, List.mem_singleton, NormalizedField.Spans]
    rintro _ (rfl | rfl) _ rfl i <;> dsimp only <;> omega

end Packed

/-- What a texel holds of a color with normalized channels. -/
structure HoldsCodes (order : ChannelOrder) (type : ChannelType) (c : Rgba Single) (texel : Nat) :
    Prop where
  codes : ∀ f ∈ normalizedFields order type, (order.isSrgb → f.channel = .alpha) →
    IsCode f.lowest f.largest (c.get f.channel) (f.code texel)
  largest : ∀ f ∈ normalizedFields order type,
    f.largest ∈ [31, 63, 127, 255, 1023, 32767, 65535, 2 ^ 24 - 1]
  apart : Apart (normalizedFields order type)
  rest : ∀ i, (∀ f ∈ normalizedFields order type, ¬f.Spans i) → texel.testBit i = false

variable {order : ChannelOrder} {type : ChannelType} {c : Rgba Single}

/-- Widths of fields for which codes are exact. -/
structure IsField (f : NormalizedField) : Prop where
  least : if f.signed then 1 < f.bits else 0 < f.bits
  most : f.bits ≤ 24
  largest : f.largest ∈ [31, 63, 127, 255, 1023, 32767, 65535, 2 ^ 24 - 1]

theorem isField_of_mem (h : type.isNormalized) {f : NormalizedField}
    (hf : f ∈ normalizedFields order type) : IsField f := by
  rw [normalizedFields] at hf
  split_ifs at hf
  · obtain rfl := List.mem_singleton.mp hf
    constructor <;> decide
  · cases type <;> simp only [ChannelType.encoding] at hf <;> try exact absurd h (by decide)
    case unormShort555 | unormShort565 | unormInt101010 =>
      simp only [packedFields, List.mem_cons, List.not_mem_nil, or_false] at hf
      obtain rfl | rfl | rfl := hf <;> constructor <;> decide
    all_goals
      obtain ⟨i, ch, -, rfl⟩ := mem_slotFields.mp hf
      constructor <;> simp [NormalizedField.largest, maxCode_eq]

theorem IsField.isCode {f : NormalizedField} (hf : IsField f) {texel : Nat} {v : Single}
    (h : (texel >>> f.shift) % 2 ^ f.bits = f.word v % 2 ^ f.bits) :
    IsCode f.lowest f.largest v (f.code texel) := by
  have hleast := hf.least
  cases hs : f.signed with
  | true =>
    have hcode := isCode_signedWord v (by simpa [hs] using hleast) hf.most
    rw [NormalizedField.word, if_pos hs] at h
    rwa [NormalizedField.lowest, NormalizedField.largest, NormalizedField.code,
      if_pos hs, if_pos hs, if_pos hs, ← signedWord_mod, h, signedWord_mod]
  | false =>
    have hn : ¬f.signed = true := by simp [hs]
    have hcode := isCode_unsignedWord v (by simpa [hs] using hleast) hf.most
    rw [NormalizedField.word, if_neg hn] at h
    rwa [NormalizedField.lowest, NormalizedField.largest, NormalizedField.code,
      if_neg hn, if_neg hn, if_neg hn, unsignedWord_eq, h, ← unsignedWord_eq]

/-- The color that is stored: orders that are nonlinear convert the channels of slots first. -/
def storedColor (order : ChannelOrder) (type : ChannelType) (c : Rgba Single) : Rgba Single :=
  if order.isSrgb ∧ type.isPacked = false then c.ofLinear else c

theorem get_storedColor (type : ChannelType) {ch : Channel} (h : order.isSrgb → ch = .alpha) :
    (storedColor order type c).get ch = c.get ch := by
  rw [storedColor]
  split_ifs with hs
  · rw [h hs.1]
    rfl
  · rfl

theorem snorm_bits {bits : Nat} (h : type.encoding = .float (.snorm bits)) :
    bits = 8 * type.size ∧ 0 < type.size := by
  cases type <;> simp only [ChannelType.encoding, reduceCtorEq, ChannelEncoding.float.injEq,
    FloatEncoding.snorm.injEq] at h <;> (subst h; decide)

theorem unorm_bits {bits : Nat} (h : type.encoding = .float (.unorm bits)) :
    0 < bits ∧ bits ≤ 24 ∧ bits ≤ 8 * type.size ∧ 0 < type.size := by
  cases type <;> simp only [ChannelType.encoding, reduceCtorEq, ChannelEncoding.float.injEq,
    FloatEncoding.unorm.injEq] at h <;> (subst h; decide)

theorem normalizedFields_of_encoding (ho : order ≠ .depthStencil) :
    normalizedFields order type = match type.encoding with
      | .float (.snorm bits) => slotFields order type.size bits true
      | .float (.unorm bits) => slotFields order type.size bits false
      | .packed red green blue => packedFields red green blue
      | _ => [] := by
  rw [normalizedFields, if_neg ho]

theorem apart_normalizedFields (order : ChannelOrder) (type : ChannelType) :
    Apart (normalizedFields order type) := by
  by_cases ho : order = .depthStencil
  · rw [normalizedFields, if_pos ho]
    simp [Apart]
  · rw [normalizedFields, if_neg ho]
    split
    · next he => exact apart_slotFields (snorm_bits he).1.le
    · next he => exact apart_slotFields (unorm_bits he).2.2.1
    · next he => exact apart_packedFields (contiguous_of_encoding he).1
    · simp [Apart]

theorem lays_depthBytes (hne : type ≠ .float) :
    Lays (normalizedFields .depthStencil type) (fun f => f.word (c.get f.channel))
      (Bytes.toNat (depthBytes type c.r)) := by
  have hlt := toUnorm_lt c.r (by decide : 0 < 24) le_rfl
  rw [depthBytes, stencilDepth, if_neg hne, encodeFloat, Bytes.toNat_ofNat,
    Nat.mod_eq_of_lt (hlt.trans (by decide)), normalizedFields, if_pos rfl]
  exact Lays.field (f := ⟨.red, 0, 24, false⟩) _ hlt

theorem lays_floatBytes (ho : order ≠ .depthStencil) {e : FloatEncoding}
    (he : type.encoding = .float e) (h : type.isNormalized) :
    Lays (normalizedFields order type) (fun f => f.word ((storedColor order type c).get f.channel))
      (Bytes.toNat (floatBytes order type e c)) := by
  have hp : type.isPacked = false := by rw [isPacked_eq, he]
  have hstored : storedColor order type c = if order.isSrgb then c.ofLinear else c := by
    simp [storedColor, hp]
  rw [floatBytes, ← hstored, normalizedFields_of_encoding ho, he]
  cases e with
  | half => simp [ChannelType.isNormalized, he] at h
  | single => simp [ChannelType.isNormalized, he] at h
  | snorm bits =>
    obtain ⟨rfl, h0⟩ := snorm_bits he
    have hlow (v : Single) : toSnorm (8 * type.size) v % 256 ^ type.size < 2 ^ (8 * type.size) := by
      rw [two_pow_bytes]
      exact Nat.mod_lt _ (by positivity)
    refine (lays_toSlots _ h0 le_rfl hlow).congr ?_
    intro f hf
    obtain ⟨i, ch, -, rfl⟩ := mem_slotFields.mp hf
    rfl
  | unorm bits =>
    obtain ⟨hb, hs, hle, h0⟩ := unorm_bits he
    have hlow (v : Single) : toUnorm bits v % 256 ^ type.size < 2 ^ bits :=
      (Nat.mod_le _ _).trans_lt (toUnorm_lt v hb hs)
    refine (lays_toSlots _ h0 hle hlow).congr ?_
    intro f hf
    obtain ⟨i, ch, -, rfl⟩ := mem_slotFields.mp hf
    rfl

theorem lays_packedBytes (ho : order ≠ .depthStencil) {red green blue : PackedField}
    (he : type.encoding = .packed red green blue) :
    Lays (normalizedFields order type) (fun f => f.word ((storedColor order type c).get f.channel))
      (Bytes.toNat (Bytes.ofNat type.size (packWord red green blue c))) := by
  obtain ⟨hc, hb⟩ := contiguous_of_encoding he
  have hp : type.isPacked := by rw [isPacked_eq, he]
  have hlays := lays_packWord hc c
  have hlt : packWord red green blue c < 256 ^ type.size := by
    rw [← two_pow_bytes]
    have h1 := hc.blue_shift
    have h2 := hc.green_shift
    have h3 := hc.red_shift
    refine hlays.lt fun f hf => ?_
    simp only [packedFields, List.mem_cons, List.not_mem_nil, or_false] at hf
    obtain rfl | rfl | rfl := hf <;> dsimp only <;> omega
  rw [Bytes.toNat_ofNat, Nat.mod_eq_of_lt hlt, storedColor, if_neg (by simp [hp]),
    normalizedFields_of_encoding ho, he]
  exact hlays

theorem exists_channelBytes?_normalized (order : ChannelOrder) (h : type.isNormalized)
    (c : Rgba Single) :
    ∃ bytes, channelBytes? order type (.float c) = some bytes ∧
      bytes.length = texelSize order type ∧
      Lays (normalizedFields order type)
        (fun f => f.word ((storedColor order type c).get f.channel))
        (Bytes.toNat bytes) := by
  by_cases ho : order = .depthStencil
  · subst ho
    have hne : type ≠ .float := by
      rintro rfl
      exact absurd h (by decide)
    refine ⟨depthBytes type c.r, ?_, ?_, lays_depthBytes hne⟩
    · cases type <;> first | rfl | exact absurd h (by decide)
    · rw [depthBytes, Bytes.length_ofNat, texelSize, if_pos rfl, if_neg hne]
  · cases he : type.encoding with
    | signed bits => simp [ChannelType.isNormalized, he] at h
    | unsigned bits => simp [ChannelType.isNormalized, he] at h
    | packed red green blue =>
      refine ⟨_, by simp [channelBytes?, he, ho], ?_, lays_packedBytes ho he⟩
      rw [Bytes.length_ofNat, texelSize_of_packed ho he]
    | float e =>
      refine ⟨_, by simp [channelBytes?, he, ho], ?_, lays_floatBytes ho he h⟩
      rw [floatBytes, length_toSlots, texelSize_of_slots ho (by rw [isPacked_eq, he])]

/-- Every texel of normalized channels holds the nearest codes of its color, each in its own
field. -/
theorem encode_normalized (order : ChannelOrder) (type : ChannelType) (h : type.isNormalized)
    (c : Rgba Single) :
    ∃ value, encode order type (.float c) = .ok value ∧ HoldsCodes order type c value.toNat := by
  obtain ⟨bytes, hbytes, hlength, hlays⟩ := exists_channelBytes?_normalized order h c
  obtain ⟨hpos, hle⟩ := texelSize_bounds order type
  obtain ⟨value, hvalue, hholds⟩ := toValue_returns (hlength ▸ hpos) (hlength ▸ hle)
  have htexel : value.toNat = Bytes.toNat bytes := by
    have h := congrArg Bytes.toNat (ofNat_toValue hvalue)
    rwa [Bytes.toNat_ofNat, Nat.mod_eq_of_lt hholds.zeros] at h
  refine ⟨value, ?_, ?_, fun f hf => (isField_of_mem h hf).largest,
    apart_normalizedFields order type, ?_⟩
  · rw [encode, hbytes]
    dsimp only
    rw [Bytes.fit_eq_self hlength, hvalue]
  · intro f hf hs
    rw [← get_storedColor type hs, htexel]
    exact (isField_of_mem h hf).isCode (hlays.inside f hf)
  · rw [htexel]
    exact hlays.outside

/-- Two ties, to an even code each, above the zero of a NaN. -/
theorem encode_normalized_ties :
    let c : Rgba Single := ⟨.ofRatio .single 1 2, .ofRatio .single 1 2, .quietNaN true, .zero false⟩
    ChannelType.unormShort565.isNormalized ∧
      ∃ value, encode .rgb .unormShort565 (.float c) = .ok value ∧
        HoldsCodes .rgb .unormShort565 c value.toNat ∧ value.toNat = 16 * 2 ^ 11 + 32 * 2 ^ 5 := by
  have hcodes : encode .rgb .unormShort565
      (.float ⟨.ofRatio .single 1 2, .ofRatio .single 1 2, .quietNaN true, .zero false⟩) =
        .ok (.ofNat (.scalar .u16) (16 * 2 ^ 11 + 32 * 2 ^ 5)) := by decide +kernel
  intro c
  have hnormalized : ChannelType.unormShort565.isNormalized := rfl
  obtain ⟨value, hvalue, hholds⟩ := encode_normalized .rgb .unormShort565 hnormalized c
  obtain rfl := Except.ok.inj (hvalue.symm.trans hcodes)
  exact ⟨hnormalized, _, hvalue, hholds, by decide⟩

end Texel

end Conformance
