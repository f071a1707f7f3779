import Conformance.Image.Color
import Conformance.Image.Sampler

namespace Conformance

/-- A texel by its coordinates; those that an image does not use are 0. -/
structure Position where
  x : UInt32
  y : UInt32
  z : UInt32
deriving DecidableEq

def Position.ofList (coords : List UInt32) : Position :=
  ⟨coords.getD 0 0, coords.getD 1 0, coords.getD 2 0⟩

inductive ImageFault where
  | count (fault : CountFault)
  | capacity
  | rowPitch (pitch width : Nat) (texel : Nat)
  | slicePitch (pitch height row : Nat)
  | range (finish length : Nat)
  | outside (p : Position) (shape : ImageShape)
  | narrow (ty : ValueType) (texel : Nat)
  | shortTexel (length : Nat) (order : ChannelOrder) (type : ChannelType)
  | wideTexel (length : Nat)
  | colorKind (kind : ColorKind) (type : ChannelType)
  | emptyAxis
  | coordinateCount (kind : ImageKind)
  | coordinate (value : UInt32) (axis : Nat) (shape : ImageShape)
  | unfiltered (color : Color)
  | illegal (cause : Illegal)
deriving DecidableEq

def ImageFault.message : ImageFault → String
  | .count fault => fault.message
  | .capacity => "capacity overflow"
  | .rowPitch pitch width texel => s!"row pitch {pitch} cannot hold {width} texels of {texel} bytes"
  | .slicePitch pitch height row => s!"slice pitch {pitch} cannot hold {height} rows of {row} bytes"
  | .range finish length => s!"range end index {finish} out of range for slice of length {length}"
  | .outside p shape => s!"texel ({p.x}, {p.y}, {p.z}) outside {shape.text}"
  | .narrow ty texel => s!"a {ty.name} value cannot hold a {texel}-byte texel"
  | .shortTexel length order type =>
    s!"{length} bytes are too few for a {order.name}/{type.name} texel"
  | .wideTexel length => s!"a {length}-byte texel does not fit a value"
  | .colorKind kind type => s!"cannot store a {kind.name} color in a {type.name} texel"
  | .emptyAxis => "assertion failed: size > 0"
  | .coordinateCount kind => s!"a {kind.name} image takes {kind.coordinateCount} coordinates"
  | .coordinate value axis shape => s!"coordinate {value} on axis {axis} outside {shape.text}"
  | .unfiltered color =>
    s!"internal error: entered unreachable code: linear filtering fetched {color.text}"
  | .illegal cause => s!"illegal image configuration: {cause.message}"

end Conformance
