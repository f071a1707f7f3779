import Conformance.Decimal.Basic
import Conformance.Value.Type

namespace Conformance.Comparison

/-- How floating-point results are judged. Integers and pointers are compared exactly, whatever the
method. -/
inductive Method where
  | decimal
  | ulps
  | relative
  /-- Absolute difference of linear intensities. -/
  | image
deriving DecidableEq

namespace Method

def all : List Method := [decimal, ulps, relative, image]

def name : Method → String
  | decimal => "decimal"
  | ulps => "ulps"
  | relative => "relative"
  | image => "image"

end Method

def decimalDigits : Format → Nat
  | .half => 3
  | .single => 6
  | .double => 12

def defaultUlps : Double := .ofNat .double 1

def defaultRelative : Double := .ofRatio .double 1 100

def Method.tolerance (m : Method) (f : Format) : Double :=
  match m with
  | .decimal | .image => .ofRatio .double 1 (Decimal.powerOfTen (decimalDigits f))
  | .ulps => defaultUlps
  | .relative => defaultRelative

/-- The tolerance for a type; types that are compared exactly have none. -/
def Method.defaultPrecision (m : Method) (ty : ValueType) : Option Double :=
  ty.format?.map m.tolerance

end Conformance.Comparison
