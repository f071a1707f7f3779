import Conformance.Comparison.Verdict
import Conformance.Word

namespace Conformance.Comparison.WordDistance

inductive Fault where
  | lane (ty : ValueType)
  | value (fault : Value.Fault)
deriving DecidableEq

def Fault.message : Fault → String
  | .lane ty => s!"internal error: entered unreachable code: {ty.name} is not an integer lane"
  | .value fault => fault.message

def widened (v : Value) : Except Fault (BitVec 128) :=
  match v.ty with
  | .packed _ | .scalar .u128 => .error (.lane v.ty)
  | .scalar s =>
    match s.kind with
    | .signed => .ok (v.bits.signExtend 128)
    | .unsigned | .pointer => .ok (v.bits.setWidth 128)
    | .float _ => .error (.lane v.ty)

def ofLanes (expected actual : Value) : Except Fault (BitVec 128) :=
  if expected.ty = .scalar .u128 ∧ actual.ty = .scalar .u128 then
    .ok (Word.apart false (expected.bits.setWidth 128) (actual.bits.setWidth 128))
  else do return Word.apart true (← widened expected) (← widened actual)

/-- The distances of all lanes, in the unsigned type of the same shape. Lanes are widened to signed
words of 128 bits, except those that have as many bits themselves. -/
def ofValues (expected actual : Value) : Except Fault Value := do
  let ty := expected.ty.unsigned
  let lanes ← (expected.lanes.zip actual.lanes).mapM fun p => do
    return Value.ofNat (.scalar ty.lane) (← ofLanes p.1 p.2).toNat
  (Value.ofLanes ty lanes).mapError .value

def exact (expected actual : Value) : Except Fault Verdict := do
  let deviation := Deviation.exact (← ofValues expected actual)
  return ⟨deviation.isZero, deviation⟩

end Conformance.Comparison.WordDistance
