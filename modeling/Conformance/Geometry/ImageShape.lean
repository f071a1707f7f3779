import Conformance.Count

namespace Conformance

inductive ImageAxis where
  | width
  | height
  | depth
  | layer
deriving DecidableEq

inductive ImageKind where
  | line
  | plane
  | volume
  | lineArray
  | planeArray
  | lineBuffer
  | planeDepth
  | planeArrayDepth
deriving DecidableEq

namespace ImageKind

def all : List ImageKind :=
  [line, plane, volume, lineArray, planeArray, lineBuffer, planeDepth, planeArrayDepth]

def name : ImageKind → String
  | line => "1d"
  | plane => "2d"
  | volume => "3d"
  | lineArray => "1da"
  | planeArray => "2da"
  | lineBuffer => "1db"
  | planeDepth => "2ddepth"
  | planeArrayDepth => "2dadepth"

def axes : ImageKind → List ImageAxis
  | line | lineBuffer => [.width]
  | plane | planeDepth => [.width, .height]
  | lineArray => [.width, .layer]
  | volume => [.width, .height, .depth]
  | planeArray | planeArrayDepth => [.width, .height, .layer]

def coordinateCount (k : ImageKind) : Nat := k.axes.length

def layerAxis? (k : ImageKind) : Option Nat := k.axes.findIdx? (· = .layer)

def isArray (k : ImageKind) : Bool := k.layerAxis?.isSome

def isDepth : ImageKind → Bool
  | planeDepth | planeArrayDepth => true
  | _ => false

end ImageKind

structure ImageSize where
  width : UInt32
  height : UInt32
  depth : UInt32
  layers : UInt32
deriving DecidableEq

namespace ImageSize

def along (s : ImageSize) : ImageAxis → UInt32
  | .width => s.width
  | .height => s.height
  | .depth => s.depth
  | .layer => s.layers

def count (s : ImageSize) : Except CountFault UInt64 := do
  let plane ← Count.times s.width.toUInt64 s.height.toUInt64
  let volume ← Count.times plane s.depth.toUInt64
  Count.times volume s.layers.toUInt64

def text (s : ImageSize) : String :=
  s!"ImageDim \x7b width: {s.width}, height: {s.height}, depth: {s.depth}, " ++
    s!"array_size: {s.layers} \x7d"

end ImageSize

structure ImageShape where
  kind : ImageKind
  size : ImageSize
deriving DecidableEq

namespace ImageShape

inductive Fault where
  | empty (size : ImageSize)
  | mismatch (size : ImageSize) (kind : ImageKind)
  | axis (n : Nat)
deriving DecidableEq

def Fault.message : Fault → String
  | .empty size => s!"image extent {size.text} has a zero component"
  | .mismatch size kind => s!"image extent {size.text} does not match a {kind.name} image"
  | .axis n => s!"image axis {n} out of range (expected 0..3)"

/-- Nothing is empty, and an extent that the kind does not use is 1. -/
def make (kind : ImageKind) (size : ImageSize) : Except Fault ImageShape :=
  if size.width = 0 ∨ size.height = 0 ∨ size.depth = 0 ∨ size.layers = 0 then .error (.empty size)
  else if [ImageAxis.height, .depth, .layer].all fun a =>
    decide (a ∈ kind.axes ∨ size.along a = 1) then
    .ok ⟨kind, size⟩
  else .error (.mismatch size kind)

variable (s : ImageShape)

def extentAt (n : Nat) : UInt32 :=
  match s.kind.axes[n]? with
  | some a => s.size.along a
  | none => 1

def extent (n : Nat) : Except Fault UInt32 :=
  if n < 3 then .ok (s.extentAt n) else .error (.axis n)

def extents : List UInt32 := [s.extentAt 0, s.extentAt 1, s.extentAt 2]

def text : String :=
  let box := s!"{s.kind.name} {s.size.width}x{s.size.height}x{s.size.depth}"
  if s.kind.isArray then box ++ s!"[{s.size.layers}]" else box

end ImageShape

end Conformance
