import Mathlib
import Conformance.Proofs.Bytes
import Conformance.Proofs.Image.Quantization

namespace Conformance

/-- The word that is written for what a word is read as: bits that do not count are cleared, and the
lowest signed code is replaced by the next, which stands for -1 as well. -/
def FloatEncoding.canonical : FloatEncoding → Nat → Nat
  | snorm bits, word => if word = 2 ^ (bits - 1) then word + 1 else word
  | unorm bits, word => word % 2 ^ bits
  | half, word | single, word => word

namespace Texel

open Binary

/-- Words of `size` bytes are read and written back as `canonical` tells. -/
structure Recovers {α : Type} (size : Nat) (decode : Nat → α) (encode : α → Nat)
    (canonical : Nat → Nat) : Prop where
  encode_decode : ∀ word < 256 ^ size, encode (decode word) % 256 ^ size = canonical word
  decode_canonical : ∀ word < 256 ^ size, decode (canonical word) = decode word

theorem Recovers.canonical_lt {α : Type} {size : Nat} {decode : Nat → α} {encode : α → Nat}
    {canonical : Nat → Nat} (h : Recovers size decode encode canonical) {word : Nat}
    (hw : word < 256 ^ size) : canonical word < 256 ^ size := by
  rw [← h.encode_decode word hw]
  exact Nat.mod_lt _ (by positivity)

theorem signedWord_eq_of_lt {bits word : Nat} (h : word < 2 ^ bits) :
    signedWord bits word = if 2 * word < 2 ^ bits then (word : Int) else word - 2 ^ bits := by
  rw [signedWord, BitVec.toInt_eq_toNat_cond, BitVec.toNat_ofNat, Nat.mod_eq_of_lt h]
  push_cast
  rfl

theorem toNat_emod_word {bits : Nat} (hb : bits ≤ 32) (n : Int) :
    (((n % UInt32.size).toNat % 2 ^ bits : Nat) : Int) = n % 2 ^ bits := by
  have hdvd : (2 : Int) ^ bits ∣ 4294967296 := pow_dvd_pow 2 hb
  push_cast
  rw [Int.toNat_of_nonneg (Int.emod_nonneg _ (by decide))]
  exact Int.emod_emod_of_dvd _ hdvd

theorem low_bits_of_signed {bits word : Nat} (hb : bits ≤ 32) (h : word < 2 ^ bits) :
    (signedWord bits word % UInt32.size).toNat % 2 ^ bits = word := by
  have hz : signedWord bits word % 2 ^ bits = word := by
    rw [signedWord_eq_of_lt h]
    split
    · exact Int.emod_eq_of_lt (by omega) (by exact_mod_cast h)
    · rw [Int.sub_emod_right]
      exact Int.emod_eq_of_lt (by omega) (by exact_mod_cast h)
  have hn := toNat_emod_word hb (signedWord bits word)
  rw [hz] at hn
  exact_mod_cast hn

theorem two_pow_bytes (size : Nat) : 2 ^ (8 * size) = 256 ^ size := Nat.pow_mul 2 8 size

theorem recovers_signed {size : Nat} (h0 : 0 < size) (hs : size ≤ 4) :
    Recovers size (decodeSigned (8 * size)) (encodeSigned (8 * size)) id where
  encode_decode := by
    intro word hw
    rw [← two_pow_bytes] at hw ⊢
    obtain ⟨hl, hu⟩ := signedWord_bounds (by omega : 0 < 8 * size) word
    have hm : maxCode (8 * size - 1) < 2 ^ 31 := by
      have hp : 2 ^ (8 * size - 1) ≤ 2 ^ 31 := Nat.pow_le_pow_right (by omega) (by omega)
      rw [maxCode_eq]
      omega
    have hi : (Int32.ofInt (signedWord (8 * size) word)).toInt = signedWord (8 * size) word :=
      Int32.toInt_ofInt_of_le (by omega) (by omega)
    rw [decodeSigned, encodeSigned, hi, min_eq_left hu, max_eq_right hl]
    exact low_bits_of_signed (by omega) hw
  decode_canonical := fun _ _ => rfl

theorem recovers_unsigned {size : Nat} (hs : size ≤ 4) :
    Recovers size (decodeUnsigned (8 * size)) (encodeUnsigned (8 * size)) id where
  encode_decode := by
    intro word hw
    have hle := unsignedWord_le (8 * size) word
    have hlt : unsignedWord (8 * size) word < 2 ^ 32 := by
      have hp : 2 ^ (8 * size) ≤ 2 ^ 32 := Nat.pow_le_pow_right (by omega) (by omega)
      rw [unsignedWord_eq]
      exact (Nat.mod_lt _ (Nat.two_pow_pos _)).trans_le hp
    rw [decodeUnsigned, encodeUnsigned, UInt32.toNat_ofNat_of_lt' hlt, min_eq_left hle,
      unsignedWord_eq, two_pow_bytes, Nat.mod_mod, Nat.mod_eq_of_lt hw]
    rfl
  decode_canonical := fun _ _ => rfl

theorem recovers_unorm {bits size : Nat} (h0 : 0 < bits) (hb : bits ≤ 24) (hs : bits ≤ 8 * size) :
    Recovers size (decodeFloat (.unorm bits)) (encodeFloat (.unorm bits))
      (FloatEncoding.unorm bits).canonical where
  encode_decode := by
    intro word _
    have hp : 2 ^ bits ≤ 256 ^ size := by
      rw [← two_pow_bytes]
      exact Nat.pow_le_pow_right (by omega) hs
    have hlt := Nat.mod_lt word (Nat.two_pow_pos bits)
    rw [decodeFloat, encodeFloat, toUnorm_ofUnorm h0 hb, Nat.mod_eq_of_lt (hlt.trans_le hp)]
    rfl
  decode_canonical := by
    intro word _
    rw [decodeFloat, decodeFloat, FloatEncoding.canonical, ofUnorm, unsignedWord_eq, Nat.mod_mod,
      ← unsignedWord_eq, ← ofUnorm]

theorem canonical_snorm_lt {bits word : Nat} (hb : 1 < bits) (hw : word < 2 ^ bits) :
    (FloatEncoding.snorm bits).canonical word < 2 ^ bits := by
  have hp : 2 ^ bits = 2 * 2 ^ (bits - 1) := (mul_pow_sub_one (by omega) 2).symm
  have h1 : 1 < 2 ^ (bits - 1) := Nat.one_lt_two_pow (by omega)
  rw [FloatEncoding.canonical]
  split <;> omega

/-- The code of a word is the number in the word that replaces it. -/
theorem signedWord_canonical {bits word : Nat} (hb : 1 < bits) (hw : word < 2 ^ bits) :
    signedWord bits ((FloatEncoding.snorm bits).canonical word) = snormCode bits word := by
  have hc := canonical_snorm_lt hb hw
  have hp : 2 ^ bits = 2 * 2 ^ (bits - 1) := (mul_pow_sub_one (by omega) 2).symm
  have h1 : 1 < 2 ^ (bits - 1) := Nat.one_lt_two_pow (by omega)
  have hpz : (2 : Int) ^ bits = (2 ^ bits : Nat) := by push_cast; rfl
  rw [snormCode, signedWord_eq_of_lt hc, signedWord_eq_of_lt hw, maxCode_eq, hpz]
  rw [FloatEncoding.canonical] at hc ⊢
  generalize 2 ^ (bits - 1) = p at *
  rw [hp] at hw hc ⊢
  split_ifs <;> omega

theorem snormCode_canonical {bits word : Nat} (hb : 1 < bits) (hw : word < 2 ^ bits) :
    snormCode bits ((FloatEncoding.snorm bits).canonical word) = snormCode bits word := by
  rw [snormCode, signedWord_canonical hb hw, max_eq_left]
  exact le_max_right _ _

theorem recovers_snorm {size : Nat} (h0 : 0 < size) (hs : size ≤ 2) :
    Recovers size (decodeFloat (.snorm (8 * size))) (encodeFloat (.snorm (8 * size)))
      (FloatEncoding.snorm (8 * size)).canonical where
  encode_decode := by
    intro word hw
    rw [← two_pow_bytes] at hw ⊢
    rw [decodeFloat, encodeFloat, toSnorm_ofSnorm (by omega) (by omega),
      ← signedWord_canonical (by omega) hw]
    exact low_bits_of_signed (by omega) (canonical_snorm_lt (by omega) hw)
  decode_canonical := by
    intro word hw
    rw [← two_pow_bytes] at hw
    rw [decodeFloat, decodeFloat, ofSnorm_eq (by omega) (by omega),
      ofSnorm_eq (by omega) (by omega), snormCode_canonical (by omega) hw]

theorem recovers_single :
    Recovers 4 (decodeFloat .single) (encodeFloat .single) FloatEncoding.single.canonical where
  encode_decode := by
    intro word hw
    have hbits : (ofBits .single word).toBits = word := toBits_ofBits hw
    rw [decodeFloat, encodeFloat, hbits, Nat.mod_eq_of_lt hw]
    rfl
  decode_canonical := fun _ _ => rfl

theorem recovers_half :
    Recovers 2 (decodeFloat .half) (encodeFloat .half) FloatEncoding.half.canonical where
  encode_decode := by
    intro word hw
    have hbits : (ofBits .half word).toBits = word := toBits_ofBits hw
    rw [decodeFloat, encodeFloat, convert_convert Format.half_embeds_single, hbits,
      Nat.mod_eq_of_lt hw]
    rfl
  decode_canonical := fun _ _ => rfl

variable {type : ChannelType}

theorem recovers_float_channel {e : FloatEncoding} (h : type.encoding = .float e) :
    Recovers type.size (decodeFloat e) (encodeFloat e) e.canonical := by
  cases type <;> simp only [ChannelType.encoding, reduceCtorEq,
    ChannelEncoding.float.injEq] at h <;>
    subst h
  case snormInt8 => exact recovers_snorm (by decide : 0 < 1) (by decide)
  case snormInt16 => exact recovers_snorm (by decide : 0 < 2) (by decide)
  case unormInt8 => exact recovers_unorm (by decide) (by decide) (by decide)
  case unormInt16 => exact recovers_unorm (by decide) (by decide) (by decide)
  case unormInt24 => exact recovers_unorm (by decide) (by decide) (by decide)
  case halfFloat => exact recovers_half
  case float => exact recovers_single

theorem signed_bits {bits : Nat} (h : type.encoding = .signed bits) :
    bits = 8 * type.size ∧ 0 < type.size ∧ type.size ≤ 4 := by
  cases type <;> simp only [ChannelType.encoding, reduceCtorEq,
    ChannelEncoding.signed.injEq] at h <;>
    (subst h; decide)

theorem unsigned_bits {bits : Nat} (h : type.encoding = .unsigned bits) :
    bits = 8 * type.size ∧ type.size ≤ 4 := by
  cases type <;> simp only [ChannelType.encoding, reduceCtorEq,
    ChannelEncoding.unsigned.injEq] at h <;>
    (subst h; decide)

theorem recovers_signed_channel {bits : Nat} (h : type.encoding = .signed bits) :
    Recovers type.size (decodeSigned bits) (encodeSigned bits) id := by
  obtain ⟨rfl, h0, hs⟩ := signed_bits h
  exact recovers_signed h0 hs

theorem recovers_unsigned_channel {bits : Nat} (h : type.encoding = .unsigned bits) :
    Recovers type.size (decodeUnsigned bits) (encodeUnsigned bits) id := by
  obtain ⟨rfl, hs⟩ := unsigned_bits h
  exact recovers_unsigned hs

theorem recovers_depth (type : ChannelType) :
    Recovers 4 (decodeFloat (stencilDepth type)) (encodeFloat (stencilDepth type))
      (stencilDepth type).canonical := by
  rw [stencilDepth]
  split_ifs
  · exact recovers_single
  · exact recovers_unorm (by decide) (by decide) (by decide)

structure Contiguous (red green blue : PackedField) : Prop where
  blue_shift : blue.shift = 0
  green_shift : green.shift = blue.bits
  red_shift : red.shift = green.shift + green.bits
  pos : 0 < red.bits ∧ 0 < green.bits ∧ 0 < blue.bits
  le : red.bits ≤ 24 ∧ green.bits ≤ 24 ∧ blue.bits ≤ 24

variable {red green blue : PackedField}

def canonicalPacked (red : PackedField) (word : Nat) : Nat := word % 2 ^ (red.shift + red.bits)

theorem ofUnorm_congr {bits v w : Nat} (h : v % 2 ^ bits = w % 2 ^ bits) :
    ofUnorm bits v = ofUnorm bits w := by
  rw [ofUnorm, ofUnorm, unsignedWord_eq, unsignedWord_eq, h]

theorem testBit_field (word shift bits i : Nat) :
    (((word >>> shift) % 2 ^ bits) <<< shift).testBit i =
      (decide (shift ≤ i ∧ i < shift + bits) && word.testBit i) := by
  rw [Nat.testBit_shiftLeft, Nat.testBit_mod_two_pow, Nat.testBit_shiftRight]
  by_cases hi : shift ≤ i
  · have hlt : i - shift < bits ↔ i < shift + bits := by omega
    simp [hi, hlt, Nat.add_sub_cancel' hi]
  · simp [hi]

theorem packWord_unpackWord (h : Contiguous red green blue) (word : Nat) :
    packWord red green blue (unpackWord red green blue word) = canonicalPacked red word := by
  obtain ⟨hr, hg, hb⟩ := h.pos
  obtain ⟨hr', hg', hb'⟩ := h.le
  have h1 := h.blue_shift
  have h2 := h.green_shift
  have h3 := h.red_shift
  simp only [packWord, unpackWord, toUnorm_ofUnorm, hr, hg, hb, hr', hg', hb', canonicalPacked]
  apply Nat.eq_of_testBit_eq
  intro i
  simp only [Nat.testBit_or, testBit_field, Nat.testBit_mod_two_pow]
  -- the bits of the three fields are those below the end of the red one
  rw [← Bool.and_or_distrib_right, ← Bool.and_or_distrib_right, ← Bool.decide_or, ← Bool.decide_or]
  congr 1
  rw [decide_eq_decide]
  omega

theorem mod_shiftRight_mod {n shift bits : Nat} (word : Nat) (h : shift + bits ≤ n) :
    ((word % 2 ^ n) >>> shift) % 2 ^ bits = (word >>> shift) % 2 ^ bits := by
  apply Nat.eq_of_testBit_eq
  intro i
  simp only [Nat.testBit_mod_two_pow, Nat.testBit_shiftRight]
  by_cases hi : i < bits
  · have hn : shift + i < n := by omega
    simp [hi, hn]
  · simp [hi]

theorem unpackWord_canonical (h : Contiguous red green blue) (word : Nat) :
    unpackWord red green blue (canonicalPacked red word) = unpackWord red green blue word := by
  have h1 := h.blue_shift
  have h2 := h.green_shift
  have h3 := h.red_shift
  have hfield (p : PackedField) (hp : p.shift + p.bits ≤ red.shift + red.bits) :
      ofUnorm p.bits (canonicalPacked red word >>> p.shift) = ofUnorm p.bits (word >>> p.shift) :=
    ofUnorm_congr (mod_shiftRight_mod word hp)
  simp only [unpackWord, hfield red (by omega), hfield green (by omega), hfield blue (by omega)]

theorem contiguous_of_encoding (h : type.encoding = .packed red green blue) :
    Contiguous red green blue ∧ red.shift + red.bits ≤ 8 * type.size := by
  cases type <;> simp only [ChannelType.encoding, reduceCtorEq,
    ChannelEncoding.packed.injEq] at h <;>
    (obtain ⟨rfl, rfl, rfl⟩ := h; exact ⟨by constructor <;> decide, by decide⟩)

end Texel

end Conformance
