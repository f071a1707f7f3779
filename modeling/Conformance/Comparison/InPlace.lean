import Conformance.Comparison.Session
import Conformance.Comparison.WordDistance
import Conformance.Count

namespace Conformance.Comparison.InPlace

inductive Fault where
  | session (fault : Comparison.Fault)
  | value (fault : Value.Fault)
  | words (fault : WordDistance.Fault)
  | deviation (fault : Deviation.Fault)
  | format
  | index (i length : Nat)
  | range (stop length : Nat)
  | count (fault : CountFault)
  | digits (fault : DigitFault)
deriving DecidableEq

def Fault.message : Fault → String
  | .session fault => fault.message
  | .value fault => fault.message
  | .words fault => fault.message
  | .deviation fault => fault.message
  | .format => "internal error: entered unreachable code: float lanes are f16, f32 or f64"
  | .index i length => s!"index out of bounds: the len is {length} but the index is {i}"
  | .range stop length => s!"range end index {stop} out of range for slice of length {length}"
  | .count fault => fault.message
  | .digits fault => fault.message

def capacity : Nat := 4

def judgeLane (r : Rule) (expected actual : Value) : Except Fault Judgement :=
  match expected.ty, actual.ty with
  | .scalar .f16, .scalar .f16 => .ok (r.judge (expected.toBinary .half) (actual.toBinary .half))
  | .scalar .f32, .scalar .f32 =>
    .ok (r.judge (expected.toBinary .single) (actual.toBinary .single))
  | .scalar .f64, .scalar .f64 =>
    .ok (r.judge (expected.toBinary .double) (actual.toBinary .double))
  | _, _ => .error .format

def fillPlace (r : Rule) (expected actual : Value) (places : List Judgement) (i : Nat) :
    Except Fault (List Judgement) := do
  let e ← (expected.lane i).mapError .value
  let a ← (actual.lane i).mapError .value
  let j ← judgeLane r e a
  if i < places.length then return places.set i j else throw (.index i places.length)

/-- A single judgement stands for itself, several are taken together. -/
def deviationOf (js : List Judgement) (count : Nat) : Except Fault Deviation :=
  if count = 1 then
    match js[0]? with
    | some j => .ok (.error j.error)
    | none => .error (.index 0 js.length)
  else (Deviation.ofLanes (js.map Judgement.error)).mapError .deviation

def ofPlaces (places : List Judgement) (count : Nat) : Except Fault Verdict :=
  if places.length < count then .error (.range count places.length)
  else do
    let js := places.take count
    return ⟨js.all Judgement.passed, ← deviationOf js count⟩

def judgeFloats (r : Rule) (expected actual : Value) : Except Fault Verdict := do
  let places := List.replicate capacity (.clearCut true)
  let lanes := List.range (min expected.ty.laneCount actual.ty.laneCount)
  ofPlaces (← lanes.foldlM (fillPlace r expected actual) places) expected.ty.laneCount

def judge (r : Rule) (expected actual : Value) : Except Fault Verdict :=
  if expected.ty.isFloat then judgeFloats r expected actual
  else (WordDistance.exact expected actual).mapError .words

def lanesOf (d : Deviation) : Except Fault Deviation :=
  match d with
  | .lanes errors =>
    if errors.length ≤ capacity then .ok d else .error (.range errors.length capacity)
  | .exact _ | .error _ => .ok d

def magnitude (d : Deviation) : Except Fault Double := do
  return (← lanesOf d).magnitude

def maxMagnitude : Option Deviation → Except Fault Double
  | some d => magnitude d
  | none => .ok (.zero false)

def laneText (v : Value) : Except DigitFault (List Char) :=
  match v.ty.lane.kind with
  | .float f => (v.toBinary f).checkedText true f.printDigits
  | .unsigned | .signed | .pointer => .ok (v.laneText true)

def detail (v : Value) : Except DigitFault String := do
  if v.ty.isPacked then
    return String.ofList ('(' :: Value.listText (← v.lanes.mapM laneText) ++ [')'])
  else return String.ofList (← laneText v)

def failureRecord (index : UInt64) (c : Check) : Except Fault LogRecord := do
  let expected ← (detail c.expected).mapError .digits
  let actual ← (detail c.actual).mapError .digits
  let values := s!"expected {expected}, actual {actual}"
  let error := (← lanesOf c.verdict.deviation).text
  return ⟨.debug, s!"Check {index} failed: {values}, error {error}."⟩

/-- A session that is changed in place, field after field. A fault ends an operation wherever it has
come to and leaves the fields as they are by then, so everything that could fail on the way is asked
for. -/
structure State where
  options : Options
  precision : Option Double := none
  valueType : Option ValueType := none
  checks : UInt64 := 0
  failed : UInt64 := 0
  maxError : Option Deviation := none
  maxErrorIndex : UInt64 := 0
  last : Option Check := none
deriving DecidableEq

def State.start (options : Options) : State := { options }

def State.session (s : State) : Session where
  options := s.options
  precision := s.precision
  valueType := s.valueType
  checks := s.checks.toNat
  failed := s.failed.toNat
  worst := s.maxError.map fun d => ⟨s.maxErrorIndex.toNat, d⟩
  last := s.last

abbrev Action (α : Type) : Type := ExceptT Fault (StateM State) α

def setDefaultPrecision : Action Unit := do
  match (← get).valueType with
  | some ty => modify fun s => { s with precision := s.options.method.defaultPrecision ty }
  | none => throw (.session .noType)

def choosePrecision (ty : ValueType) : Action Unit := do
  match (← get).options.precision with
  | some p =>
    if ty.isFloat then modify fun s => { s with precision := some p } else setDefaultPrecision
  | none => setDefaultPrecision

def reset (ty : ValueType) : Action Unit := do
  modify fun s => { s with valueType := some ty }
  modify fun s =>
    { s with checks := 0, failed := 0, maxError := none, maxErrorIndex := 0, last := none }
  choosePrecision ty

/-- The type in use has to be the given one; without a type the session is reset to it. -/
def settle (ty : ValueType) : Action (List LogRecord) := do
  match (← get).valueType with
  | some configured =>
    if configured ≠ ty then throw (.session (.other configured ty))
    return []
  | none =>
    reset ty
    return [⟨.trace, s!"Comparison configured implicitly for {ty.name}."⟩]

def next (count : UInt64) : Except Fault UInt64 := (Count.plus count 1).mapError .count

def recordFailure (index : UInt64) (c : Check) : Action (List LogRecord) := do
  let failed ← next (← get).failed
  modify fun s => { s with failed }
  let max ← maxMagnitude (← get).maxError
  let deviation ← magnitude c.verdict.deviation
  if max.lt deviation then
    modify fun s => { s with maxError := some c.verdict.deviation, maxErrorIndex := index }
  return [← failureRecord index c]

/-- Judges two values of the type in use. The verdict, and the records written on the way. -/
def check (expected actual : Value) : Action (Verdict × List LogRecord) := do
  let s ← get
  let verdict ← judge s.session.rule expected actual
  let checks ← next s.checks
  modify fun s => { s with checks }
  let c : Check := ⟨expected, actual, verdict⟩
  let records ← if verdict.passed then pure [] else recordFailure s.checks c
  modify fun s => { s with last := some c }
  return (verdict, records)

def compare (expected actual : Value) : Action (Verdict × List LogRecord) := do
  if expected.ty ≠ actual.ty then throw (.session (.mixed expected.ty actual.ty))
  let notes ← settle expected.ty
  let (verdict, records) ← check expected actual
  return (verdict, notes ++ records)

end Conformance.Comparison.InPlace
