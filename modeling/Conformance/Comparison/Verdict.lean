import Conformance.Comparison.Deviation
import Conformance.Comparison.Rule

namespace Conformance.Comparison

structure Verdict where
  passed : Bool
  deviation : Deviation
deriving DecidableEq

namespace Verdict

def ofJudgements : List Judgement → Verdict
  | [j] => ⟨j.passed, .error j.error⟩
  | js => ⟨js.all Judgement.passed, .lanes (js.map Judgement.error)⟩

def float (f : Format) (rule : Rule) (expected actual : Value) : Verdict :=
  ofJudgements ((expected.lanes.zip actual.lanes).map fun p =>
    rule.judge (p.1.toBinary f) (p.2.toBinary f))

/-- The distance of two lanes, in an unsigned type that holds every distance. -/
def laneDistance (expected actual : Value) : Value :=
  .ofNat (.scalar expected.ty.lane.unsigned) (expected.toInt - actual.toInt).natAbs

def distance (expected actual : Value) : Value :=
  .joined expected.ty.unsigned ((expected.lanes.zip actual.lanes).map fun p => laneDistance p.1 p.2)

def exact (expected actual : Value) : Verdict :=
  let deviation := Deviation.exact (distance expected actual)
  ⟨deviation.isZero, deviation⟩

def judge (rule : Rule) (expected actual : Value) : Verdict :=
  match expected.ty.format? with
  | some f => float f rule expected actual
  | none => exact expected actual

def mark (v : Verdict) : String := if v.passed then "[PASS]" else "[FAIL]"

end Verdict

end Conformance.Comparison
