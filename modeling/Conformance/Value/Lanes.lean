import Conformance.Value.Basic

namespace Conformance.Value

/-- Lane `index`, or zero bits where the value has ended. -/
def laneAt (v : Value) (index : Nat) : Value :=
  ofNat (.scalar v.ty.lane) (v.toNat >>> (index * v.ty.laneWidth))

def lane (v : Value) (index : Nat) : Except Fault Value :=
  if index < v.ty.laneCount then .ok (v.laneAt index) else .error (.noLane index v.ty)

def lanes (v : Value) : List Value := (List.range v.ty.laneCount).map v.laneAt

def joinBits (width : Nat) : List Value → Nat
  | [] => 0
  | v :: rest => v.toNat + (joinBits width rest <<< width)

def joined (ty : ValueType) (lanes : List Value) : Value := ofNat ty (joinBits ty.laneWidth lanes)

/-- The value with the given lanes. Their count is checked before their types. -/
def ofLanes (ty : ValueType) (lanes : List Value) : Except Fault Value :=
  if lanes.length ≠ ty.laneCount then .error (.laneCount ty)
  else
    match lanes.findIdx? (fun v => decide (v.ty ≠ .scalar ty.lane)) with
    | some index => .error (.laneType index ty)
    | none => .ok (joined ty lanes)

/-- Equality as the lanes see it: singles and doubles are compared as numbers, all else by bits. -/
def same (v w : Value) : Bool :=
  decide (v.ty = w.ty) &&
    match v.ty.format? with
    | some .single => (v.lanes.zip w.lanes).all fun p =>
      (p.1.toBinary .single).same (p.2.toBinary .single)
    | some .double => (v.lanes.zip w.lanes).all fun p =>
      (p.1.toBinary .double).same (p.2.toBinary .double)
    | _ => decide (v = w)

end Conformance.Value
