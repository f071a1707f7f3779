import Conformance.Geometry.ImageShape

namespace Conformance

inductive Channel where
  | red
  | green
  | blue
  | alpha
deriving DecidableEq

inductive ChannelOrder where
  | a | r | rx | rg | rgx | ra | rgb | rgbx | rgba | bgra | argb | abgr
  | srgb | srgbx | srgba | sbgra
  | intensity | luminance
  | depth | depthStencil
deriving DecidableEq

namespace ChannelOrder

def all : List ChannelOrder :=
  [a, r, rx, rg, rgx, ra, rgb, rgbx, rgba, bgra, argb, abgr, srgb, srgbx, srgba, sbgra, intensity,
    luminance, depth, depthStencil]

def name : ChannelOrder → String
  | a => "a"
  | r => "r"
  | rx => "rx"
  | rg => "rg"
  | rgx => "rgx"
  | ra => "ra"
  | rgb => "rgb"
  | rgbx => "rgbx"
  | rgba => "rgba"
  | bgra => "bgra"
  | argb => "argb"
  | abgr => "abgr"
  | srgb => "srgb"
  | srgbx => "srgbx"
  | srgba => "srgba"
  | sbgra => "sbgra"
  | intensity => "intensity"
  | luminance => "luminance"
  | depth => "depth"
  | depthStencil => "depth_stencil"

/-- What each slot in memory holds; an ignored slot and the stencil hold no channel. -/
def slots : ChannelOrder → List (Option Channel)
  | a => [some .alpha]
  | r | intensity | luminance | depth => [some .red]
  | rx | depthStencil => [some .red, none]
  | rg => [some .red, some .green]
  | rgx => [some .red, some .green, none]
  | ra => [some .red, some .alpha]
  | rgb | srgb => [some .red, some .green, some .blue]
  | rgbx | srgbx => [some .red, some .green, some .blue, none]
  | rgba | srgba => [some .red, some .green, some .blue, some .alpha]
  | bgra | sbgra => [some .blue, some .green, some .red, some .alpha]
  | argb => [some .alpha, some .red, some .green, some .blue]
  | abgr => [some .alpha, some .blue, some .green, some .red]

def channelCount (o : ChannelOrder) : Nat := o.slots.length

def source : ChannelOrder → Channel → Channel
  | intensity, _ => .red
  | luminance, .alpha => .alpha
  | luminance, _ => .red
  | _, c => c

def slot? (o : ChannelOrder) (c : Channel) : Option Nat := o.slots.findIdx? (· = some (o.source c))

def hasAlpha : ChannelOrder → Bool
  | a | ra | rgba | bgra | argb | abgr | srgba | sbgra | intensity => true
  | _ => false

def isSrgb : ChannelOrder → Bool
  | srgb | srgbx | srgba | sbgra => true
  | _ => false

def isDepth : ChannelOrder → Bool
  | depth | depthStencil => true
  | _ => false

end ChannelOrder

structure PackedField where
  shift : Nat
  bits : Nat
deriving DecidableEq

inductive FloatEncoding where
  | snorm (bits : Nat)
  | unorm (bits : Nat)
  | half
  | single
deriving DecidableEq

inductive ChannelEncoding where
  | float (e : FloatEncoding)
  | packed (red green blue : PackedField)
  | signed (bits : Nat)
  | unsigned (bits : Nat)
deriving DecidableEq

inductive ColorKind where
  | float
  | signed
  | unsigned
deriving DecidableEq

def ColorKind.name : ColorKind → String
  | float => "Float"
  | signed => "Signed"
  | unsigned => "Unsigned"

inductive ChannelType where
  | snormInt8 | snormInt16
  | unormInt8 | unormInt16 | unormInt24
  | unormShort555 | unormShort565 | unormInt101010
  | signedInt8 | signedInt16 | signedInt32
  | unsignedInt8 | unsignedInt16 | unsignedInt32
  | halfFloat | float
deriving DecidableEq

namespace ChannelType

def all : List ChannelType :=
  [snormInt8, snormInt16, unormInt8, unormInt16, unormInt24, unormShort555, unormShort565,
    unormInt101010, signedInt8, signedInt16, signedInt32, unsignedInt8, unsignedInt16,
    unsignedInt32, halfFloat, float]

def name : ChannelType → String
  | snormInt8 => "snorm_int8"
  | snormInt16 => "snorm_int16"
  | unormInt8 => "unorm_int8"
  | unormInt16 => "unorm_int16"
  | unormInt24 => "unorm_int24"
  | unormShort555 => "unorm_short_555"
  | unormShort565 => "unorm_short_565"
  | unormInt101010 => "unorm_int_101010"
  | signedInt8 => "signed_int8"
  | signedInt16 => "signed_int16"
  | signedInt32 => "signed_int32"
  | unsignedInt8 => "unsigned_int8"
  | unsignedInt16 => "unsigned_int16"
  | unsignedInt32 => "unsigned_int32"
  | halfFloat => "half_float"
  | float => "float"

def encoding : ChannelType → ChannelEncoding
  | snormInt8 => .float (.snorm 8)
  | snormInt16 => .float (.snorm 16)
  | unormInt8 => .float (.unorm 8)
  | unormInt16 => .float (.unorm 16)
  | unormInt24 => .float (.unorm 24)
  | unormShort555 => .packed ⟨10, 5⟩ ⟨5, 5⟩ ⟨0, 5⟩
  | unormShort565 => .packed ⟨11, 5⟩ ⟨5, 6⟩ ⟨0, 5⟩
  | unormInt101010 => .packed ⟨20, 10⟩ ⟨10, 10⟩ ⟨0, 10⟩
  | signedInt8 => .signed 8
  | signedInt16 => .signed 16
  | signedInt32 => .signed 32
  | unsignedInt8 => .unsigned 8
  | unsignedInt16 => .unsigned 16
  | unsignedInt32 => .unsigned 32
  | halfFloat => .float .half
  | float => .float .single

def bits : ChannelType → Nat
  | snormInt8 | unormInt8 | signedInt8 | unsignedInt8 => 8
  | snormInt16 | unormInt16 | signedInt16 | unsignedInt16 | halfFloat | unormShort555
  | unormShort565 => 16
  | unormInt24 => 24
  | signedInt32 | unsignedInt32 | float | unormInt101010 => 32

def size : ChannelType → Nat
  | unormInt24 => 4
  | t => t.bits / 8

def isPacked : ChannelType → Bool
  | unormShort555 | unormShort565 | unormInt101010 => true
  | _ => false

def isNormalized (t : ChannelType) : Bool :=
  match t.encoding with
  | .float (.snorm _) | .float (.unorm _) | .packed _ _ _ => true
  | _ => false

def kind (t : ChannelType) : ColorKind :=
  match t.encoding with
  | .float _ | .packed _ _ _ => .float
  | .signed _ => .signed
  | .unsigned _ => .unsigned

def isFilterable (t : ChannelType) : Bool := decide (t.kind = .float)

end ChannelType

/-- The bytes of a texel. A depth texel with stencil is one word, or two for floating-point
depth. -/
def texelSize (order : ChannelOrder) (type : ChannelType) : Nat :=
  if order = .depthStencil then if type = .float then 8 else 4
  else if type.isPacked then type.size
  else order.channelCount * type.size

def ChannelOrder.allows (o : ChannelOrder) (t : ChannelType) : Bool :=
  match o with
  | depth => decide (t ∈ [ChannelType.unormInt16, .unormInt24, .float])
  | depthStencil => decide (t ∈ [ChannelType.unormInt24, .float])
  | srgb | srgbx | srgba | sbgra => decide (t = .unormInt8)
  | rgb | rgbx => t.isPacked
  | argb | bgra | abgr => decide (t.bits = 8)
  | intensity | luminance =>
    decide (t ∈ [ChannelType.unormInt8, .unormInt16, .snormInt8, .snormInt16, .halfFloat, .float])
  | a | r | rx | rg | rgx | ra | rgba => !t.isPacked && decide (t ≠ .unormInt24)

/-- Whether images of this kind can have texels of this order: depth goes with depth, and a buffer
is never nonlinear. -/
def ImageKind.allows (k : ImageKind) (o : ChannelOrder) : Bool :=
  decide (k.isDepth = o.isDepth) && !(o.isSrgb && decide (k = .lineBuffer))

end Conformance
