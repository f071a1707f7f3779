import Conformance.Image.Format
import Conformance.Text.Label

namespace Conformance

inductive AddressingMode where
  /-- The caller sees to it that there are none. -/
  | undefined
  | clampToEdge
  | clampToBorder
  | wrap
  | mirror
deriving DecidableEq

namespace AddressingMode

def all : List AddressingMode := [undefined, clampToEdge, clampToBorder, wrap, mirror]

def name : AddressingMode → String
  | undefined => "undefined"
  | clampToEdge => "clamp_to_edge"
  | clampToBorder => "clamp_to_border"
  | wrap => "repeat"
  | mirror => "mirrored_repeat"

def wraps : AddressingMode → Bool
  | wrap | mirror => true
  | _ => false

end AddressingMode

inductive FilterMode where
  | nearest
  | linear
deriving DecidableEq

namespace FilterMode

def all : List FilterMode := [nearest, linear]

def name : FilterMode → String
  | nearest => "nearest"
  | linear => "linear"

end FilterMode

inductive CoordinateMode where
  | normalized
  | unnormalized
deriving DecidableEq

namespace CoordinateMode

def all : List CoordinateMode := [normalized, unnormalized]

def name : CoordinateMode → String
  | normalized => "normalized"
  | unnormalized => "unnormalized"

end CoordinateMode

structure Sampler where
  addressing : AddressingMode := .clampToEdge
  filter : FilterMode := .nearest
  coordinates : CoordinateMode := .unnormalized
deriving DecidableEq

def Sampler.text (s : Sampler) : String :=
  let addressing := Text.label s.addressing.name
  let filter := Text.label s.filter.name
  let coords := Text.label s.coordinates.name
  s!"SamplerDescriptor \x7b addressing: {addressing}, filter: {filter}, coords: {coords} \x7d"

inductive Illegal where
  | format (order : ChannelOrder) (type : ChannelType)
  | geometry (kind : ImageKind) (order : ChannelOrder)
  | addressing (mode : AddressingMode)
  | filter (type : ChannelType)
deriving DecidableEq

def Illegal.message : Illegal → String
  | .format order type =>
    s!"channel type {type.name} is not supported with channel order {order.name}"
  | .geometry kind order => s!"channel order {order.name} is not supported for {kind.name} images"
  | .addressing mode => s!"addressing mode {mode.name} requires normalized coordinates"
  | .filter type => s!"linear filtering is not supported for channel type {type.name}"

def checkFormat (kind : ImageKind) (order : ChannelOrder) (type : ChannelType) :
    Except Illegal Unit :=
  if !kind.allows order then .error (.geometry kind order)
  else if !order.allows type then .error (.format order type)
  else .ok ()

def checkSampler (s : Sampler) : Except Illegal Unit :=
  if s.addressing.wraps ∧ s.coordinates ≠ .normalized then .error (.addressing s.addressing)
  else .ok ()

def checkFilter (filter : FilterMode) (type : ChannelType) : Except Illegal Unit :=
  if filter = .linear ∧ !type.isFilterable then .error (.filter type) else .ok ()

/-- The whole configuration of an image read: format, sampler and filter, in this order. -/
def checkImage (kind : ImageKind) (order : ChannelOrder) (type : ChannelType) (s : Sampler) :
    Except Illegal Unit := do
  checkFormat kind order type
  checkSampler s
  checkFilter s.filter type

end Conformance
