import Conformance.Binary.Format

namespace Conformance

inductive Scalar where
  | u8 | s8 | u16 | s16 | u32 | s32 | u64 | s64 | u128
  | f16 | f32 | f64
  | ptr32 | ptr64
deriving DecidableEq

inductive ScalarKind where
  | unsigned
  | signed
  | float (f : Format)
  | pointer
deriving DecidableEq

namespace Scalar

def size : Scalar → Nat
  | u8 | s8 => 1
  | u16 | s16 | f16 => 2
  | u32 | s32 | f32 | ptr32 => 4
  | u64 | s64 | f64 | ptr64 => 8
  | u128 => 16

def kind : Scalar → ScalarKind
  | u8 | u16 | u32 | u64 | u128 => .unsigned
  | s8 | s16 | s32 | s64 => .signed
  | f16 => .float .half
  | f32 => .float .single
  | f64 => .float .double
  | ptr32 | ptr64 => .pointer

/-- The unsigned type that holds the distance of two lanes; other than signed integers hold their
own. -/
def unsigned : Scalar → Scalar
  | s8 => u8
  | s16 => u16
  | s32 => u32
  | s64 => u64
  | s => s

def name : Scalar → String
  | u8 => "u8"
  | s8 => "s8"
  | u16 => "u16"
  | s16 => "s16"
  | u32 => "u32"
  | s32 => "s32"
  | u64 => "u64"
  | s64 => "s64"
  | u128 => "u128"
  | f16 => "f16"
  | f32 => "f32"
  | f64 => "f64"
  | ptr32 => "ptr32"
  | ptr64 => "ptr64"

end Scalar

inductive Packed where
  | u8x4 | u8x8 | s8x4 | s8x8
  | u16x2 | u16x4 | s16x2 | s16x4
  | u32x2 | s32x2
  | f16x2 | f16x4 | f32x2
deriving DecidableEq

namespace Packed

def lane : Packed → Scalar
  | u8x4 | u8x8 => .u8
  | s8x4 | s8x8 => .s8
  | u16x2 | u16x4 => .u16
  | s16x2 | s16x4 => .s16
  | u32x2 => .u32
  | s32x2 => .s32
  | f16x2 | f16x4 => .f16
  | f32x2 => .f32

def laneCount : Packed → Nat
  | u8x8 | s8x8 => 8
  | u8x4 | s8x4 | u16x4 | s16x4 | f16x4 => 4
  | u16x2 | s16x2 | u32x2 | s32x2 | f16x2 | f32x2 => 2

def unsigned : Packed → Packed
  | s8x4 => u8x4
  | s8x8 => u8x8
  | s16x2 => u16x2
  | s16x4 => u16x4
  | s32x2 => u32x2
  | p => p

end Packed

inductive ValueType where
  | scalar (s : Scalar)
  | packed (p : Packed)
deriving DecidableEq

namespace ValueType

def all : List ValueType :=
  [.scalar .u8, .scalar .s8, .scalar .u16, .scalar .s16, .scalar .u32, .scalar .s32, .scalar .u64,
    .scalar .s64, .scalar .u128, .scalar .f16, .scalar .f32, .scalar .f64, .packed .u8x4,
    .packed .u8x8, .packed .s8x4, .packed .s8x8, .packed .u16x2, .packed .u16x4, .packed .s16x2,
    .packed .s16x4, .packed .u32x2, .packed .s32x2, .packed .f16x2, .packed .f16x4, .packed .f32x2,
    .scalar .ptr32, .scalar .ptr64]

def lane : ValueType → Scalar
  | scalar s => s
  | packed p => p.lane

def laneCount : ValueType → Nat
  | scalar _ => 1
  | packed p => p.laneCount

variable (t : ValueType)

def size : Nat := t.lane.size * t.laneCount

def laneWidth : Nat := 8 * t.lane.size

def width : Nat := 8 * t.size

def unsigned : ValueType → ValueType
  | scalar s => scalar s.unsigned
  | packed p => packed p.unsigned

def isPacked : Bool := decide (1 < t.laneCount)

def format? : Option Format :=
  match t.lane.kind with
  | .float f => some f
  | _ => none

def isFloat : Bool := t.format?.isSome

def isSigned : Bool := decide (t.lane.kind = .signed)

def name : String :=
  if t.isPacked then s!"{t.lane.name}x{t.laneCount}" else t.lane.name

end ValueType

end Conformance
