import Conformance.Image.Fault

namespace Conformance.Texel

def signedWord (bits word : Nat) : Int := (BitVec.ofNat bits word).toInt

def unsignedWord (bits word : Nat) : Nat := (BitVec.ofNat bits word).toNat

def maxCode (bits : Nat) : Nat := (BitVec.allOnes bits).toNat

def ofUnorm (bits word : Nat) : Single :=
  .ofNat .single (unsignedWord bits word) / .ofNat .single (maxCode bits)

/-- The fraction that a signed code of `bits` bits stands for; the lowest code is -1 too. -/
def ofSnorm (bits word : Nat) : Single :=
  Binary.larger (.ofInt .single (signedWord bits word) / .ofNat .single (maxCode (bits - 1)))
    (.ofInt .single (-1))

def decodeFloat (encoding : FloatEncoding) (word : Nat) : Single :=
  match encoding with
  | .snorm bits => ofSnorm bits word
  | .unorm bits => ofUnorm bits word
  | .half => (Binary.ofBits .half word).convert .single
  | .single => .ofBits .single word

def decodeSigned (bits word : Nat) : Int32 := Int32.ofInt (signedWord bits word)

def decodeUnsigned (bits word : Nat) : UInt32 := UInt32.ofNat (unsignedWord bits word)

def wordAt (bytes : List UInt8) (start count : Nat) : Nat :=
  Bytes.toNat ((bytes.drop start).take count)

def ofSlots {α : Type} (order : ChannelOrder) (size : Nat) (bytes : List UInt8) (decode : Nat → α)
    (missing : Channel → α) : Rgba α :=
  .ofFn fun c =>
    match order.slot? c with
    | some i => decode (wordAt bytes (i * size) size)
    | none => missing c

def ofDepth (depth : Single) : Color := .float ⟨depth, .zero false, .zero false, .ofNat .single 1⟩

def absent (c : Channel) : Nat := if c = .alpha then 1 else 0

def stencilDepth (type : ChannelType) : FloatEncoding :=
  if type = .float then .single else .unorm 24

def unpackWord (red green blue : PackedField) (word : Nat) : Rgba Single :=
  let field (f : PackedField) : Single := ofUnorm f.bits (word >>> f.shift)
  ⟨field red, field green, field blue, .ofNat .single 1⟩

/-- The color of a texel. Legality of the format is not asked for. -/
def decode (order : ChannelOrder) (type : ChannelType) (bytes : List UInt8) : Color :=
  if order = .depthStencil then ofDepth (decodeFloat (stencilDepth type) (wordAt bytes 0 4))
  else
    match type.encoding with
    | .float e =>
      let color := ofSlots order type.size bytes (decodeFloat e) fun c => .ofNat .single (absent c)
      .float (if order.isSrgb then color.toLinear else color)
    | .packed red green blue => .float (unpackWord red green blue (wordAt bytes 0 type.size))
    | .signed bits =>
      .signed (ofSlots order type.size bytes (decodeSigned bits) fun c => Int32.ofNat (absent c))
    | .unsigned bits =>
      .unsigned (ofSlots order type.size bytes (decodeUnsigned bits) fun c =>
        UInt32.ofNat (absent c))

def read (order : ChannelOrder) (type : ChannelType) (bytes : List UInt8) :
    Except ImageFault Color :=
  if bytes.length < texelSize order type then .error (.shortTexel bytes.length order type)
  else .ok (decode order type bytes)

/-- The whole number nearest to `max` times a finite value, computed in double precision. -/
def quantize (max : Nat) (v : Single) : Int := (v.convert .double * .ofNat .double max).roundInt

/-- The code of a value from 0 to 1; values outside saturate and a NaN has code 0. -/
def toUnorm (bits : Nat) (v : Single) : Nat :=
  if v.isNaN then 0
  else (quantize (maxCode bits) (v.clamp (.zero false) (.ofNat .single 1))).toNat

def toSnorm (bits : Nat) (v : Single) : Nat :=
  if v.isNaN then 0
  else
    let code := quantize (maxCode (bits - 1)) (v.clamp (.ofInt .single (-1)) (.ofNat .single 1))
    (code % UInt32.size).toNat

def encodeFloat (encoding : FloatEncoding) (v : Single) : Nat :=
  match encoding with
  | .snorm bits => toSnorm bits v
  | .unorm bits => toUnorm bits v
  | .half => (v.convert .half).toBits
  | .single => v.toBits

def encodeSigned (bits : Nat) (v : Int32) : Nat :=
  let limit : Int := maxCode (bits - 1)
  (max (-limit - 1) (min v.toInt limit) % UInt32.size).toNat

def encodeUnsigned (bits : Nat) (v : UInt32) : Nat := min v.toNat (maxCode bits)

def toSlots {α : Type} (order : ChannelOrder) (size : Nat) (encode : α → Nat) (c : Rgba α) :
    List UInt8 :=
  order.slots.flatMap fun slot =>
    match slot with
    | some channel => Bytes.ofNat size (encode (c.get channel))
    | none => List.replicate size 0

def packWord (red green blue : PackedField) (c : Rgba Single) : Nat :=
  toUnorm red.bits c.r <<< red.shift ||| toUnorm green.bits c.g <<< green.shift |||
    toUnorm blue.bits c.b <<< blue.shift

def floatBytes (order : ChannelOrder) (type : ChannelType) (e : FloatEncoding) (c : Rgba Single) :
    List UInt8 :=
  toSlots order type.size (encodeFloat e) (if order.isSrgb then c.ofLinear else c)

def depthBytes (type : ChannelType) (depth : Single) : List UInt8 :=
  Bytes.ofNat 4 (encodeFloat (stencilDepth type) depth)

def channelBytes? (order : ChannelOrder) (type : ChannelType) (color : Color) :
    Option (List UInt8) :=
  match type.encoding, color with
  | .float e, .float c =>
    some (if order = .depthStencil then depthBytes type c.r else floatBytes order type e c)
  | .packed red green blue, .float c =>
    some (if order = .depthStencil then depthBytes type c.r
      else Bytes.ofNat type.size (packWord red green blue c))
  | .signed bits, .signed c => some (toSlots order type.size (encodeSigned bits) c)
  | .unsigned bits, .unsigned c => some (toSlots order type.size (encodeUnsigned bits) c)
  | _, _ => none

def container? (length : Nat) : Option Scalar :=
  if length = 0 ∨ 16 < length then none
  else if length = 1 then some .u8
  else if length = 2 then some .u16
  else if length ≤ 4 then some .u32
  else if length ≤ 8 then some .u64
  else some .u128

def toValue (bytes : List UInt8) : Except ImageFault Value :=
  match container? bytes.length with
  | some s => .ok (.ofBytes (.scalar s) bytes)
  | none => .error (.wideTexel bytes.length)

/-- The texel of a color, as a value. What no channel takes up stays zero. -/
def encode (order : ChannelOrder) (type : ChannelType) (color : Color) : Except ImageFault Value :=
  match channelBytes? order type color with
  | some bytes => toValue (Bytes.fit (texelSize order type) bytes)
  | none => .error (.colorKind color.kind type)

end Conformance.Texel
