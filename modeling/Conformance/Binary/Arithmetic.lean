import Conformance.Binary.Rounding

namespace Conformance.Binary

variable {f : Format}

/-- The NaN that an operation with a NaN operand gives: the first one before the second,
made quiet. -/
def propagate (x y : Binary f) : Binary f := if x.isNaN then x.quieted else y.quieted

def neg (x : Binary f) : Binary f := ofCode f (!x.isNegative) x.code

def abs (x : Binary f) : Binary f := ofCode f false x.code

/-- A sum that is exactly zero is positive unless both operands are negative. -/
def addFinite (x y : Binary f) : Binary f :=
  let s := x.signedUnits + y.signedUnits
  if s = 0 then zero (x.isNegative && y.isNegative) else nearest f (decide (s < 0)) s.natAbs 1

def addNumber (x y : Binary f) : Binary f :=
  if x.isInfinite then
    if y.isInfinite && x.isNegative != y.isNegative then invalid else x
  else if y.isInfinite then y
  else addFinite x y

def add (x y : Binary f) : Binary f :=
  if x.isNaN || y.isNaN then propagate x y else addNumber x y

def sub (x y : Binary f) : Binary f :=
  if x.isNaN || y.isNaN then propagate x y else addNumber x y.neg

def mul (x y : Binary f) : Binary f :=
  let negative := x.isNegative != y.isNegative
  if x.isNaN || y.isNaN then propagate x y
  else if x.isInfinite || y.isInfinite then
    if x.isZero || y.isZero then invalid else infinity negative
  else nearest f negative (f.units x.code * f.units y.code) f.unity

def div (x y : Binary f) : Binary f :=
  let negative := x.isNegative != y.isNegative
  if x.isNaN || y.isNaN then propagate x y
  else if x.isInfinite then
    if y.isInfinite then invalid else infinity negative
  else if y.isInfinite then zero negative
  else if y.isZero then
    if x.isZero then invalid else infinity negative
  else nearest f negative (f.units x.code * f.unity) (f.units y.code)

instance : Add (Binary f) := ⟨add⟩

instance : Sub (Binary f) := ⟨sub⟩

instance : Mul (Binary f) := ⟨mul⟩

instance : Div (Binary f) := ⟨div⟩

instance : Neg (Binary f) := ⟨neg⟩

def movedFraction (f g : Format) (fraction : Nat) : Nat :=
  max 1 (fraction * g.binade / f.binade)

/-- The same value in another format, rounded when that is narrower. A NaN keeps its sign, its
quiet bit and the top of its payload. -/
def convert (g : Format) (x : Binary f) : Binary g :=
  if x.isNaN then
    ofCode g x.isNegative (g.infinityCode + movedFraction f g (x.code - f.infinityCode))
  else if x.isInfinite then infinity x.isNegative
  else nearest g x.isNegative (f.units x.code * g.unity) f.unity

end Conformance.Binary
