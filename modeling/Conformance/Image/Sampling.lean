import Conformance.Image.Addressing
import Conformance.Image.Raster
import Conformance.Log

namespace Conformance

abbrev TexelSource := Position → Except ImageFault (List UInt8)

/-- The two texels around a coordinate; the weight of the second is given on axes that blend. -/
structure Taps where
  first : UInt32
  second : UInt32
  weight : Option Single
deriving DecidableEq

namespace Taps

def single (i : UInt32) : Taps := ⟨i, i, none⟩

/-- The coordinates of all corners; along the first axis that blends they alternate. -/
def corners : List Taps → List (List UInt32)
  | [] => [[]]
  | t :: rest =>
    (corners rest).flatMap fun index =>
      if t.weight.isSome then [t.first :: index, t.second :: index] else [t.first :: index]

def weights (taps : List Taps) : List Single := taps.filterMap Taps.weight

end Taps

def blendPairs {α : Type} (lerp : α → α → Single → α) (weight : Single) : List α → List α
  | first :: second :: rest => lerp first second weight :: blendPairs lerp weight rest
  | _ => []

def blend {α : Type} (lerp : α → α → Single → α) (weights : List Single) (corners : List α) :
    List α :=
  weights.foldl (fun cs weight => blendPairs lerp weight cs) corners

/-- The texels around coordinate `c` on an axis. Layers are not blended. -/
def Sampler.taps (s : Sampler) (axis : ImageAxis) (size : UInt32) (c : Single) :
    Except ImageFault Taps :=
  if axis = .layer then .ok (.single (layerIndex c size))
  else
    let u := if s.coordinates = .normalized then c * .ofNat .single size.toNat else c
    match s.filter with
    | .nearest => do return .single (← s.addressing.address u size)
    | .linear => do
      let u := u - oneHalf
      let first ← s.addressing.address u size
      let second ← s.addressing.address (u + .ofNat .single 1) size
      return ⟨first, second, some (u - u.floor)⟩

structure SampledImage where
  shape : ImageShape
  order : ChannelOrder
  type : ChannelType
  sampler : Sampler
  texels : TexelSource

namespace SampledImage

def make (shape : ImageShape) (order : ChannelOrder) (type : ChannelType) (sampler : Sampler)
    (texels : TexelSource) : Except Illegal SampledImage := do
  checkImage shape.kind order type sampler
  return ⟨shape, order, type, sampler, texels⟩

variable (im : SampledImage)

def record : LogRecord :=
  ⟨.trace,
    s!"Image emulator for {im.shape.text} {im.order.name}/{im.type.name}, {im.sampler.text}."⟩

def borderColor : Color :=
  let alpha := if im.order.hasAlpha then 0 else 1
  match im.type.kind with
  | .float => .float (.dark (.ofNat .single alpha))
  | .signed => .signed ⟨0, 0, 0, Int32.ofNat alpha⟩
  | .unsigned => .unsigned ⟨0, 0, 0, UInt32.ofNat alpha⟩

def fetch (p : Position) : Except ImageFault Color := do
  if im.shape.extentAt 0 ≤ p.x ∨ im.shape.extentAt 1 ≤ p.y ∨ im.shape.extentAt 2 ≤ p.z then
    return im.borderColor
  else Texel.read im.order im.type (← im.texels p)

def fetchFloat (p : Position) : Except ImageFault (Rgba Single) := do
  match (← im.fetch p) with
  | .float c => return c
  | color => .error (.unfiltered color)

def checkCount (count : Nat) : Except ImageFault Unit :=
  if count = im.shape.kind.coordinateCount then .ok () else .error (.coordinateCount im.shape.kind)

def checkRange (axis : Nat) : List UInt32 → Except ImageFault Unit
  | [] => .ok ()
  | c :: rest =>
    if c < im.shape.extentAt axis then checkRange (axis + 1) rest
    else .error (.coordinate c axis im.shape)

def position (coords : List UInt32) : Except ImageFault Position := do
  im.checkCount coords.length
  im.checkRange 0 coords
  return .ofList coords

def load (coords : List UInt32) : Except ImageFault Color := do
  im.fetch (← im.position coords)

def taps (coords : List Single) : Except ImageFault (List Taps) :=
  (im.shape.kind.axes.zip coords).mapM fun p => im.sampler.taps p.1 (im.shape.size.along p.1) p.2

/-- The blended color of the corners, with `lerp` as the blend of two colors. -/
def filteredBy (lerp : Rgba Single → Rgba Single → Single → Rgba Single) (taps : List Taps) :
    Except ImageFault Color := do
  let colors ← (Taps.corners taps).mapM fun index => im.fetchFloat (.ofList index)
  return .float ((blend lerp (Taps.weights taps) colors).headD .transparent)

def filtered (taps : List Taps) : Except ImageFault Color := im.filteredBy Rgba.lerp taps

def read (coords : List Single) : Except ImageFault Color := do
  im.checkCount coords.length
  let taps ← im.taps coords
  match im.sampler.filter with
  | .nearest => im.fetch (.ofList (taps.map Taps.first))
  | .linear => im.filtered taps

def write (coords : List UInt32) (color : Color) : Except ImageFault Value := do
  let _ ← im.position coords
  Texel.encode im.order im.type color

end SampledImage

end Conformance
