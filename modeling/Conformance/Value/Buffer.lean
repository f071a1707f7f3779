import Conformance.Value.Basic

namespace Conformance.Value

def readAll (ty : ValueType) (bytes : List UInt8) : Except Fault (List Value) :=
  if bytes.length % ty.size ≠ 0 then .error (.ragged bytes.length ty)
  else .ok ((Bytes.pieces ty.size (bytes.length / ty.size) bytes).map (ofBytes ty))

/-- Writes values into the front of a buffer. Each is handed all that the ones before it
have left. -/
def writeEach : List Value → List UInt8 → Except Fault (List UInt8)
  | [], out => .ok out
  | v :: rest, out => do
    let written ← v.write out
    return written.take v.size ++ (← writeEach rest (written.drop v.size))

def totalSize : List Value → Nat
  | [] => 0
  | v :: rest => v.size + totalSize rest

def writeAll (values : List Value) : Except Fault (List UInt8) :=
  writeEach values (List.replicate (totalSize values) 0)

end Conformance.Value
