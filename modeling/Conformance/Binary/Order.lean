import Conformance.Binary.Arithmetic

namespace Conformance.Binary

variable {f : Format}

def lt (x y : Binary f) : Bool := !x.isNaN && !y.isNaN && decide (x.position < y.position)

def le (x y : Binary f) : Bool := !x.isNaN && !y.isNaN && decide (x.position ≤ y.position)

def same (x y : Binary f) : Bool := !x.isNaN && !y.isNaN && decide (x.position = y.position)

/-- The larger operand; a NaN is passed over, and of equal operands the first is taken. -/
def larger (x y : Binary f) : Binary f := if x.isNaN || x.lt y then y else x

def smaller (x y : Binary f) : Binary f := if x.isNaN || y.lt x then y else x

def clamp (x lo hi : Binary f) : Binary f :=
  if x.lt lo then lo else if hi.lt x then hi else x

def floorMagnitude (f : Format) (negative : Bool) (units : Nat) : Nat :=
  if negative then (units + (f.unity - 1)) / f.unity else units / f.unity

def floor (x : Binary f) : Binary f :=
  if x.isNaN then x.quieted
  else if x.isInfinite then x
  else nearest f x.isNegative (floorMagnitude f x.isNegative (f.units x.code) * f.unity) 1

/-- The whole number nearest to a finite value, of two the even one. -/
def roundInt (x : Binary f) : Int :=
  let n := roundHalfEven (f.units x.code) f.unity
  if x.isNegative then -(n : Int) else n

/-- The whole part as a 32-bit word: what lies outside becomes the nearest end, a NaN becomes 0. -/
def toWord32 (x : Binary f) : UInt32 :=
  if x.isNaN || x.isNegative then 0
  else if x.isInfinite then UInt32.ofNat (UInt32.size - 1)
  else UInt32.ofNat (min (f.units x.code / f.unity) (UInt32.size - 1))

def isOdd (x : Binary f) : Bool :=
  x.isFinite && decide (f.units x.code % (2 * f.unity) = f.unity)

end Conformance.Binary
