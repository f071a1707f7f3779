import Conformance.Value.Text

namespace Conformance.Comparison

inductive Deviation where
  /-- The distances of integer or pointer lanes, in the unsigned type of the same shape. -/
  | exact (distance : Value)
  | error (e : Double)
  | lanes (errors : List Double)
deriving DecidableEq

namespace Deviation

/-- Packed values have at most four floating-point lanes. -/
inductive Fault where
  | lanes
deriving DecidableEq

def Fault.message : Fault → String
  | .lanes => "at most four float lanes"

def ofLanes (errors : List Double) : Except Fault Deviation :=
  if errors.length ≤ 4 then .ok (lanes errors) else .error .lanes

def largest (errors : List Double) : Double := errors.foldl Binary.larger (.zero false)

def magnitude : Deviation → Double
  | exact v => largest (v.lanes.map fun lane => .ofNat .double lane.toNat)
  | error e => e
  | lanes errors => largest errors

def isZero (d : Deviation) : Bool := d.magnitude.same (.zero false)

def errorText (e : Double) : List Char := e.text .scientific

def text : Deviation → String
  | exact v => v.text
  | error e => String.ofList (errorText e)
  | lanes errors => String.ofList ('(' :: Value.listText (errors.map errorText) ++ [')'])

end Deviation

end Conformance.Comparison
