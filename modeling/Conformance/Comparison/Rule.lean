import Conformance.Comparison.Method
import Conformance.Transfer

namespace Conformance.Comparison

structure Rule where
  method : Method
  precision : Double
  flush : Bool
  minimum : Option Double
  maximum : Option Double

structure Judgement where
  passed : Bool
  error : Double
deriving DecidableEq

namespace Method

variable {f : Format}

/-- Errors of different patterns, with the powers of a platform. An error of relative method against
an expected zero is twice the actual magnitude; two intensities beyond the largest double are
infinitely far apart. -/
def distanceBy (power : Double → Double → Double) (m : Method) (expected actual : Binary f) :
    Double :=
  let e := expected.convert .double
  let a := actual.convert .double
  match m with
  | decimal => (e - a).abs
  | ulps => .ofNat .double (expected.ulps actual)
  | relative =>
    if expected.isZero then .ofNat .double 2 * a.abs else ((e - a) / e).abs
  | image =>
    let diff := (Transfer.toLinearBy power e - Transfer.toLinearBy power a).abs
    if diff.isNaN then .infinity false else diff

def errorBy (power : Double → Double → Double) (m : Method) (expected actual : Binary f) : Double :=
  if expected = actual then .zero false else m.distanceBy power expected actual

def error (m : Method) (expected actual : Binary f) : Double :=
  m.errorBy Binary.pow expected actual

/-- Whether an error is small enough: for the image method it has to stay below the tolerance. -/
def accepts (m : Method) (error precision : Double) : Bool :=
  match m with
  | image => error.lt precision
  | _ => error.le precision

end Method

namespace Judgement

def clearCut (passed : Bool) : Judgement :=
  ⟨passed, if passed then .zero false else .infinity false⟩

end Judgement

namespace Rule

variable {f : Format}

/-- Only a NaN matches a NaN; the decimal method wants the sign to match too. -/
def matchesNaN (r : Rule) (expected actual : Binary f) : Bool :=
  expected.isNaN && actual.isNaN &&
    (decide (r.method ≠ .decimal) || decide (expected.isNegative = actual.isNegative))

def inRange (r : Rule) (actual : Binary f) : Bool :=
  let value := actual.convert .double
  r.minimum.all (fun limit => limit.le value) && r.maximum.all (fun limit => value.le limit)

def finiteErrorBy (power : Double → Double → Double) (r : Rule) (expected actual : Binary f) :
    Double :=
  let error := r.method.errorBy power expected actual
  if r.flush then error.smaller (r.method.errorBy power expected.flush actual.flush) else error

def finiteError (r : Rule) (expected actual : Binary f) : Double :=
  r.finiteErrorBy Binary.pow expected actual

/-- The judgement of a lane, with the powers of a platform: the one thing about it that platforms
differ in. NaNs and infinities match or fail with an infinite error. All other data pass if the
error is accepted and the actual value is within the limits. -/
def judgeBy (power : Double → Double → Double) (r : Rule) (expected actual : Binary f) :
    Judgement :=
  if expected.isNaN || actual.isNaN then .clearCut (r.matchesNaN expected actual)
  else if expected.isInfinite || actual.isInfinite then .clearCut (decide (expected = actual))
  else
    let error := r.finiteErrorBy power expected actual
    ⟨r.inRange actual && r.method.accepts error r.precision, error⟩

def judge (r : Rule) (expected actual : Binary f) : Judgement :=
  r.judgeBy Binary.pow expected actual

end Rule

end Conformance.Comparison
