import Conformance.Comparison.Deviation
import Conformance.Comparison.Method
import Conformance.Log

namespace Conformance.Comparison

structure Summary where
  valueType : Option ValueType
  method : Method
  checks : Nat
  failed : Nat
  /-- The largest deviation of a failed check, if it is not zero. -/
  maxError : Option Deviation
  maxErrorIndex : Nat
deriving DecidableEq

namespace Summary

variable (s : Summary)

def passed : Bool := decide (s.failed = 0)

def failureRatio : Double :=
  if s.checks = 0 then .zero false else .ofNat .double s.failed / .ofNat .double s.checks

def heading : String :=
  match s.valueType with
  | some ty => if ty.isFloat then s!"{ty.name} ({s.method.name}): " else s!"{ty.name} (exact): "
  | none => "empty: "

def outcome : String :=
  if s.failed = 0 then s!"{s.checks} checks passed"
  else
    let counts := s!"{s.failed} of {s.checks} checks failed"
    match s.maxError with
    | some d => counts ++ s!", max error {d.text} at index {s.maxErrorIndex}"
    | none => counts

def text : String := s.heading ++ s.outcome

def record : LogRecord := ⟨if s.passed then .info else .warn, s.text⟩

end Summary

end Conformance.Comparison
