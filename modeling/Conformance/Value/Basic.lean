import Conformance.Binary.Order
import Conformance.Bytes
import Conformance.Value.Type

namespace Conformance

structure Value where
  ty : ValueType
  bits : BitVec ty.width
deriving DecidableEq

namespace Value

inductive Fault where
  | short (length : Nat) (ty : ValueType)
  | ragged (length : Nat) (ty : ValueType)
  | noLane (index : Nat) (ty : ValueType)
  | laneCount (ty : ValueType)
  | laneType (index : Nat) (ty : ValueType)
deriving DecidableEq

def Fault.message : Fault → String
  | .short length ty => s!"{length} bytes are too few for a {ty.name} value"
  | .ragged length ty => s!"a buffer of {length} bytes does not hold whole {ty.name} values"
  | .noLane index ty => s!"lane {index} out of range for a {ty.name} value"
  | .laneCount ty => s!"{ty.name} has {ty.laneCount} lanes"
  | .laneType index ty => s!"lane {index} of a {ty.name} value"

def ofNat (ty : ValueType) (n : Nat) : Value := ⟨ty, BitVec.ofNat ty.width n⟩

def toNat (v : Value) : Nat := v.bits.toNat

def size (v : Value) : Nat := v.ty.size

def toBytes (v : Value) : List UInt8 := Bytes.ofNat v.size v.toNat

/-- The value in the first bytes; bytes that are missing count as zero. -/
def ofBytes (ty : ValueType) (bytes : List UInt8) : Value :=
  ofNat ty (Bytes.toNat (bytes.take ty.size))

def read (ty : ValueType) (bytes : List UInt8) : Except Fault Value :=
  if bytes.length < ty.size then .error (.short bytes.length ty) else .ok (ofBytes ty bytes)

def write (v : Value) (out : List UInt8) : Except Fault (List UInt8) :=
  if out.length < v.size then .error (.short out.length v.ty)
  else .ok (v.toBytes ++ out.drop v.size)

def toBinary (f : Format) (v : Value) : Binary f := .ofBits f v.toNat

def ofBinary {f : Format} (x : Binary f) : Value :=
  match f with
  | .half => ofNat (.scalar .f16) x.toBits
  | .single => ofNat (.scalar .f32) x.toBits
  | .double => ofNat (.scalar .f64) x.toBits

def toInt (v : Value) : Int := if v.ty.isSigned then v.bits.toInt else v.toNat

/-- The nearest double of a scalar number; packed values and pointers are none. -/
def toDouble? (v : Value) : Option Double :=
  match v.ty with
  | .scalar s =>
    match s.kind with
    | .unsigned | .signed => some (.ofInt .double v.toInt)
    | .float f => some ((v.toBinary f).convert .double)
    | .pointer => none
  | .packed _ => none

end Value

end Conformance
