import Conformance.Comparison.Session
import Conformance.Image.Sampling
import Conformance.Value.Buffer

namespace Conformance.Validation

open Comparison

inductive Mismatch where
  | sizes (expected actual : Nat)
  | ragged (length : Nat) (ty : ValueType)
  | reads (expected actual : Nat)
  | kinds (actual expected : ColorKind)
deriving DecidableEq

def Mismatch.message : Mismatch → String
  | .sizes expected actual => s!"buffer sizes differ: expected {expected} bytes, got {actual}"
  | .ragged length ty => s!"a {length}-byte buffer does not hold whole {ty.name} values"
  | .reads expected actual => s!"{expected} reads were emulated but {actual} results were given"
  | .kinds actual expected =>
    s!"image read returned a {actual.name} color, expected {expected.name}"

inductive Failure where
  | mismatch (cause : Mismatch)
  | counts
  | comparison (fault : Comparison.Fault)
  | value (fault : Value.Fault)
  | image (fault : ImageFault)
deriving DecidableEq

def Failure.message : Failure → String
  | .mismatch cause => cause.message
  | .counts => "expected and actual value counts differ"
  | .comparison fault => fault.message
  | .value fault => fault.message
  | .image fault => fault.message

def report (s : Session) : Logged (Except Failure Summary) := ⟨[s.summary.record], .ok s.summary⟩

def fail (f : Failure) : Logged (Except Failure Summary) := ⟨[], .error f⟩

def judgePairs (s : Session) (pairs : List (Value × Value)) : Logged (Except Failure Summary) :=
  let run := s.compareAll pairs
  match run.result with
  | .ok s => (report s).after run.records
  | .error fault => (fail (.comparison fault)).after run.records

/-- Compares two lists of values; the type is that of the first expected one. -/
def values (expected actual : List Value) (options : Options) : Logged (Except Failure Summary) :=
  if expected.length ≠ actual.length then fail .counts
  else
    let s := Session.start options
    judgePairs (expected.head?.elim s fun v => s.reset v.ty) (expected.zip actual)

def buffer (ty : ValueType) (expected actual : List UInt8) (options : Options) :
    Logged (Except Failure Summary) :=
  if expected.length ≠ actual.length then fail (.mismatch (.sizes expected.length actual.length))
  else if expected.length % ty.size ≠ 0 then fail (.mismatch (.ragged expected.length ty))
  else
    match Value.readAll ty expected, Value.readAll ty actual with
    | .ok expected, .ok actual =>
      judgePairs ((Session.start options).reset ty) (expected.zip actual)
    | .error fault, _ | _, .error fault => fail (.value fault)

def coordinatesText (coords : List Single) : String :=
  String.ofList ('[' :: Value.listText (coords.map fun c => c.text .record) ++ [']'])

def readRecord (index : Nat) (coords : List Single) (expected actual : Color) : LogRecord :=
  let colors := s!"expected {expected.text}, got {actual.text}"
  ⟨.debug, s!"Image read {index} at {coordinatesText coords}: {colors}."⟩

def judgeReads (im : SampledImage) (index : Nat) (s : Session) :
    List (List Single × Color) → Logged (Except Failure Summary)
  | [] => report s
  | (coords, actual) :: rest =>
    let coords := coords.take im.shape.kind.coordinateCount
    match im.read coords with
    | .error fault => fail (.image fault)
    | .ok expected =>
      if expected.kind ≠ actual.kind then fail (.mismatch (.kinds actual.kind expected.kind))
      else
        let run := s.compareAll (expected.values.zip actual.values)
        match run.result with
        | .error fault => (fail (.comparison fault)).after run.records
        | .ok next =>
          let missed :=
            if s.failed < next.failed then [readRecord index coords expected actual] else []
          (judgeReads im (index + 1) next rest).after (run.records ++ missed)

/-- Compares the colors that reads at the given coordinates returned with those of the image. -/
def imageReads (im : SampledImage) (reads : List (List Single)) (actual : List Color)
    (options : Options) : Logged (Except Failure Summary) :=
  if reads.length ≠ actual.length then fail (.mismatch (.reads reads.length actual.length))
  else judgeReads im 0 (Session.start options) (reads.zip actual)

end Conformance.Validation
