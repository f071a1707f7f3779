import Conformance.Binary.Format

namespace Conformance

/-- A floating-point datum. Two data with the same value and different bits are different. -/
structure Binary (f : Format) where
  bits : BitVec f.width
deriving DecidableEq

abbrev Half := Binary .half

abbrev Single := Binary .single

abbrev Double := Binary .double

namespace Binary

variable {f : Format}

def ofBits (f : Format) (n : Nat) : Binary f := ⟨BitVec.ofNat f.width n⟩

def toBits (x : Binary f) : Nat := x.bits.toNat

def isNegative (x : Binary f) : Bool := decide (f.signWeight ≤ x.toBits)

def code (x : Binary f) : Nat := x.toBits % f.signWeight

def ofCode (f : Format) (negative : Bool) (code : Nat) : Binary f :=
  ofBits f (if negative then f.signWeight + code else code)

def isNaN (x : Binary f) : Bool := decide (f.infinityCode < x.code)

def isInfinite (x : Binary f) : Bool := decide (x.code = f.infinityCode)

def isFinite (x : Binary f) : Bool := decide (x.code < f.infinityCode)

def isZero (x : Binary f) : Bool := decide (x.code = 0)

def isSubnormal (x : Binary f) : Bool := decide (0 < x.code ∧ x.code < f.binade)

def isQuiet (x : Binary f) : Bool := x.isNaN && x.toBits.testBit (f.fractionBits - 1)

def payload (x : Binary f) : Nat := x.toBits % f.quietWeight

def flush (x : Binary f) : Binary f := if x.isSubnormal then ofCode f x.isNegative 0 else x

def zero (negative : Bool) : Binary f := ofCode f negative 0

def infinity (negative : Bool) : Binary f := ofCode f negative f.infinityCode

def quietNaN (negative : Bool) : Binary f := ofCode f negative (f.infinityCode + f.quietWeight)

def invalid : Binary f := quietNaN true

def greatest (f : Format) : Binary f := ofCode f false (f.infinityCode - 1)

def least (f : Format) : Binary f := ofCode f false 1

def quieted (x : Binary f) : Binary f := ofBits f (x.toBits ||| f.quietWeight)

/-- The value of finite data, counted in least subnormals. -/
def signedUnits (x : Binary f) : Int :=
  if x.isNegative then -(f.units x.code : Int) else f.units x.code

def position (x : Binary f) : Int := if x.isNegative then -(x.code : Int) else x.code

/-- The place of a pattern among all patterns: neighbours are adjacent and `-0` is just
below `+0`. -/
def key (x : Binary f) : Int := if x.isNegative then -(x.code : Int) - 1 else x.code

/-- How many steps apart two patterns stand, as far as 64 bits can count. -/
def ulps (x y : Binary f) : Nat := min (x.key - y.key).natAbs (UInt64.size - 1)

end Binary

end Conformance
