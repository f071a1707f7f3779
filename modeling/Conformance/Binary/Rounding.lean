import Conformance.Binary.Basic

namespace Conformance

def roundHalfEven (num den : Nat) : Nat :=
  let q := num / den
  let r := num % den
  if den < 2 * r ∨ (2 * r = den ∧ q % 2 = 1) then q + 1 else q

namespace Format

/-- How far the significand of a value of `q` least subnormals has to be shifted to fit. -/
def excess (f : Format) (q : Nat) : Nat := Nat.log2 q - f.fractionBits

/-- The code nearest to `num / den` least subnormals, of two the even one. A significand that
rounds up to the next power of two carries into the exponent field, at the end into infinity. -/
def nearestCode (f : Format) (num den : Nat) : Nat :=
  let e := f.excess (num / den)
  min (e * f.binade + roundHalfEven num (den <<< e)) f.infinityCode

end Format

namespace Binary

def nearest (f : Format) (negative : Bool) (num den : Nat) : Binary f :=
  ofCode f negative (f.nearestCode num den)

def ofRatio (f : Format) (num den : Nat) : Binary f := nearest f false (num * f.unity) den

def ofNat (f : Format) (n : Nat) : Binary f := ofRatio f n 1

def ofInt (f : Format) (n : Int) : Binary f := nearest f (decide (n < 0)) (n.natAbs * f.unity) 1

end Binary

end Conformance
