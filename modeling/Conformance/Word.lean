namespace Conformance

inductive WordFault where
  | sum
  | difference
  | shiftLeft
  | shiftRight
deriving DecidableEq

def WordFault.message : WordFault → String
  | .sum => "attempt to add with overflow"
  | .difference => "attempt to subtract with overflow"
  | .shiftLeft => "attempt to shift left with overflow"
  | .shiftRight => "attempt to shift right with overflow"

namespace Word

variable {w : Nat}

def plus (signed : Bool) (x y : BitVec w) : Except WordFault (BitVec w) :=
  if bif signed then x.saddOverflow y else x.uaddOverflow y then .error .sum else .ok (x + y)

def minus (signed : Bool) (x y : BitVec w) : Except WordFault (BitVec w) :=
  if bif signed then x.ssubOverflow y else x.usubOverflow y then .error .difference else .ok (x - y)

def shiftLeft (x : BitVec w) (n : Nat) : Except WordFault (BitVec w) :=
  if n < w then .ok (x <<< n) else .error .shiftLeft

def shiftRight (x : BitVec w) (n : Nat) : Except WordFault (BitVec w) :=
  if n < w then .ok (x >>> n) else .error .shiftRight

def apart (signed : Bool) (x y : BitVec w) : BitVec w :=
  if bif signed then x.slt y else x.ult y then y - x else x - y

end Word

end Conformance
