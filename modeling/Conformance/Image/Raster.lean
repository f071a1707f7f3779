import Conformance.Image.Texel

namespace Conformance

/-- An image in memory: rows of texels and slices of rows, with pitches that may leave bytes between
them. -/
structure Raster where
  shape : ImageShape
  texelSize : Nat
  rowPitch : Nat
  slicePitch : Nat
  /-- What every byte holds; only those below the length belong to the image. -/
  byte : Nat → UInt8

namespace Raster

def extend (a b : Nat) : Except ImageFault Nat :=
  if a * b < UInt64.size then .ok (a * b) else .error (.count .product)

def reserve (length : Nat) : Except ImageFault Nat :=
  if length < UInt64.size / 2 then .ok length else .error .capacity

/-- An image of zeros. Rows have to fit in the row pitch and slices in the slice pitch. -/
def withPitch (shape : ImageShape) (order : ChannelOrder) (type : ChannelType)
    (rowPitch slicePitch : Nat) : Except ImageFault Raster := do
  let texel := Conformance.texelSize order type
  let width := (shape.extentAt 0).toNat
  let height := (shape.extentAt 1).toNat
  if rowPitch < texel * width then .error (.rowPitch rowPitch width texel)
  else if slicePitch < (← extend rowPitch height) then
    .error (.slicePitch slicePitch height rowPitch)
  else
    let _ ← reserve (← extend slicePitch (shape.extentAt 2).toNat)
    return ⟨shape, texel, rowPitch, slicePitch, fun _ => 0⟩

def tight (shape : ImageShape) (order : ChannelOrder) (type : ChannelType) :
    Except ImageFault Raster := do
  let rowPitch := Conformance.texelSize order type * (shape.extentAt 0).toNat
  withPitch shape order type rowPitch (← extend rowPitch (shape.extentAt 1).toNat)

variable (im : Raster)

def contains (p : Position) : Bool :=
  decide (p.x < im.shape.extentAt 0 ∧ p.y < im.shape.extentAt 1 ∧ p.z < im.shape.extentAt 2)

def start (p : Position) : Nat :=
  p.z.toNat * im.slicePitch + p.y.toNat * im.rowPitch + p.x.toNat * im.texelSize

def offset (p : Position) : Except ImageFault Nat :=
  if im.contains p then .ok (im.start p) else .error (.outside p im.shape)

def length : Nat := im.slicePitch * (im.shape.extentAt 2).toNat

def bytesFrom (start count : Nat) : List UInt8 := (List.range' start count).map im.byte

def bytes : List UInt8 := im.bytesFrom 0 im.length

def texelBytes (p : Position) : Except ImageFault (List UInt8) := do
  return im.bytesFrom (← im.offset p) im.texelSize

def overwrite (start : Nat) (patch : Array UInt8) : Raster :=
  { im with byte := fun i => if i < start then im.byte i else patch[i - start]?.getD (im.byte i) }

def setBytes (start : Nat) (patch : Array UInt8) : Except ImageFault Raster :=
  let finish := start + patch.size
  if finish ≤ im.length then .ok (im.overwrite start patch) else .error (.range finish im.length)

def texelOf (v : Value) : Except ImageFault (Array UInt8) :=
  if v.size < im.texelSize then .error (.narrow v.ty im.texelSize)
  else .ok (v.toBytes.take im.texelSize).toArray

def store (p : Position) (v : Value) : Except ImageFault Raster := do
  let texel ← im.texelOf v
  return im.overwrite (← im.offset p) texel

/-- The place of byte `i` in its texel, unless it lies behind a row or a slice. -/
def place? (i : Nat) : Option Nat :=
  let inSlice := i % im.slicePitch
  let inRow := inSlice % im.rowPitch
  if inSlice / im.rowPitch < (im.shape.extentAt 1).toNat ∧
      inRow < im.texelSize * (im.shape.extentAt 0).toNat then
    some (inRow % im.texelSize)
  else none

def fill (v : Value) : Except ImageFault Raster := do
  let texel ← im.texelOf v
  return { im with byte := fun i => ((im.place? i).bind (texel[·]?)).getD (im.byte i) }

end Raster

end Conformance
