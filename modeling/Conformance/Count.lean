namespace Conformance

/-- A count has 64 bits, and an operation whose exact result does not fit, or that has none, is a
fault. -/
inductive CountFault where
  | product
  | sum
  | quotient
  | remainder
deriving DecidableEq

def CountFault.message : CountFault → String
  | .product => "attempt to multiply with overflow"
  | .sum => "attempt to add with overflow"
  | .quotient => "attempt to divide by zero"
  | .remainder => "attempt to calculate the remainder with a divisor of zero"

namespace Count

def times (a b : UInt64) : Except CountFault UInt64 :=
  if a.toNat * b.toNat < UInt64.size then .ok (a * b) else .error .product

def plus (a b : UInt64) : Except CountFault UInt64 :=
  if a.toNat + b.toNat < UInt64.size then .ok (a + b) else .error .sum

def quotient (a b : UInt64) : Except CountFault UInt64 :=
  if b = 0 then .error .quotient else .ok (a / b)

def remainder (a b : UInt64) : Except CountFault UInt64 :=
  if b = 0 then .error .remainder else .ok (a % b)

def parts (a b : UInt64) : Except CountFault UInt64 :=
  if b = 0 then .error .quotient else .ok (if a % b = 0 then a / b else a / b + 1)

end Count

end Conformance
