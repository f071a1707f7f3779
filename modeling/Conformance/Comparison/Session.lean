import Conformance.Comparison.Options
import Conformance.Comparison.Summary
import Conformance.Comparison.Verdict

namespace Conformance.Comparison

inductive Fault where
  | noType
  | mixed (expected actual : ValueType)
  | other (configured given : ValueType)
deriving DecidableEq

def Fault.message : Fault → String
  | .noType => "comparison has no value type; call reset first"
  | .mixed expected actual => s!"cannot compare a {expected.name} with a {actual.name}"
  | .other configured given =>
    s!"comparison configured for {configured.name} was given a {given.name}"

structure Check where
  expected : Value
  actual : Value
  verdict : Verdict
deriving DecidableEq

/-- The failed check with the largest deviation, the first of several. -/
structure Worst where
  index : Nat
  deviation : Deviation
deriving DecidableEq

/-- A stream of checks of one type, with statistics. An operation that fails gives no new state, so
that a caller can go on with the old one. -/
structure Session where
  options : Options
  precision : Option Double := none
  valueType : Option ValueType := none
  checks : Nat := 0
  failed : Nat := 0
  worst : Option Worst := none
  last : Option Check := none
deriving DecidableEq

namespace Session

def start (options : Options) : Session := { options }

variable (s : Session)

def precisionFor (ty : ValueType) : Option Double :=
  match s.options.precision with
  | some p => if ty.isFloat then some p else s.options.method.defaultPrecision ty
  | none => s.options.method.defaultPrecision ty

def reset (ty : ValueType) : Session :=
  { options := s.options, precision := s.precisionFor ty, valueType := some ty }

def setDefaultPrecision : Except Fault Session :=
  match s.valueType with
  | some ty => .ok { s with precision := s.options.method.defaultPrecision ty }
  | none => .error .noType

def rule : Rule :=
  ⟨s.options.method, s.precision.getD (.zero false), s.options.flush, s.options.minimum,
    s.options.maximum⟩

def maxMagnitude : Double :=
  match s.worst with
  | some w => w.deviation.magnitude
  | none => .zero false

/-- Counts a check. A failure is the worst so far if its deviation exceeds all before, so that one
without a deviation, outside the limits, never is. -/
def record (c : Check) : Session :=
  if c.verdict.passed then { s with checks := s.checks + 1, last := some c }
  else
    let worst :=
      if s.maxMagnitude.lt c.verdict.deviation.magnitude then some ⟨s.checks, c.verdict.deviation⟩
      else s.worst
    { s with checks := s.checks + 1, failed := s.failed + 1, worst, last := some c }

def failureRecord (index : Nat) (c : Check) : LogRecord :=
  let values := s!"expected {c.expected.detail}, actual {c.actual.detail}"
  ⟨.debug, s!"Check {index} failed: {values}, error {c.verdict.deviation.text}."⟩

structure Step where
  verdict : Verdict
  session : Session
  records : List LogRecord

def check (expected actual : Value) : Step :=
  let verdict := Verdict.judge s.rule expected actual
  let c : Check := ⟨expected, actual, verdict⟩
  ⟨verdict, s.record c, if verdict.passed then [] else [failureRecord s.checks c]⟩

/-- Judges `actual` against `expected`. The first check sets the type. -/
def compare (expected actual : Value) : Except Fault Step :=
  if expected.ty ≠ actual.ty then .error (.mixed expected.ty actual.ty)
  else
    match s.valueType with
    | some ty =>
      if ty ≠ expected.ty then .error (.other ty expected.ty) else .ok (s.check expected actual)
    | none =>
      let step := (s.reset expected.ty).check expected actual
      let note : LogRecord := ⟨.trace, s!"Comparison configured implicitly for {expected.ty.name}."⟩
      .ok { step with records := note :: step.records }

def compareAll (s : Session) : List (Value × Value) → Logged (Except Fault Session)
  | [] => ⟨[], .ok s⟩
  | p :: rest =>
    match s.compare p.1 p.2 with
    | .ok step => (compareAll step.session rest).after step.records
    | .error fault => ⟨[], .error fault⟩

def isFailed : Bool := decide (0 < s.failed)

def summary : Summary :=
  { valueType := s.valueType, method := s.options.method, checks := s.checks, failed := s.failed,
    maxError := s.worst.map Worst.deviation, maxErrorIndex := (s.worst.map Worst.index).getD 0 }

def shortReport? : Option String :=
  s.last.map fun c => s!"{c.actual.detail} {c.verdict.mark}"

def measure : String :=
  if s.valueType.any ValueType.isFloat then s.options.method.name else "exact"

def longReport? : Option String :=
  s.last.map fun c =>
    let error := s!"{s.measure} error {c.verdict.deviation.text}"
    s!"{c.actual.detail} (expected {c.expected.detail}, {error}) {c.verdict.mark}"

end Session

end Conformance.Comparison
