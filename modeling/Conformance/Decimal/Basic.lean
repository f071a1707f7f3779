import Conformance.Binary.Rounding

namespace Conformance

/-- The number `digits * 10 ^ exponent`. -/
structure Decimal where
  digits : Nat
  exponent : Int
deriving DecidableEq

namespace Decimal

def digitCount (n : Nat) : Nat := (Nat.toDigits 10 n).length

def powerOfTen (k : Nat) : Nat := Nat.pow 10 k

def scaled (num den : Nat) (shift : Int) : Nat × Nat :=
  (num * powerOfTen shift.toNat, den * powerOfTen (-shift).toNat)

def leadingExponent (num den : Nat) : Int :=
  let e : Int := digitCount num - digitCount den
  let s := scaled num den (-e)
  if s.2 ≤ s.1 then e else e - 1

/-- The nearest decimal with `count` digits, of two the one with the even last digit; zero is
written with `count` zeros. -/
def significant (count num den : Nat) : Decimal :=
  if num = 0 then ⟨0, 1 - count⟩
  else
    let e := leadingExponent num den + 1 - count
    let s := scaled num den (-e)
    let digits := roundHalfEven s.1 s.2
    if digits = powerOfTen count then ⟨powerOfTen (count - 1), e + 1⟩ else ⟨digits, e⟩

def trim (d : Decimal) : Decimal :=
  if d.digits ≠ 0 ∧ d.digits % 10 = 0 then trim ⟨d.digits / 10, d.exponent + 1⟩ else d
termination_by d.digits
decreasing_by omega

/-- The datum nearest to a decimal. Exponents far beyond every format are settled at once,
so that no power of ten is larger than the digits ask for; a decimal digit is worth more
than a binary one. -/
def toBinary (f : Format) (negative : Bool) (d : Decimal) : Binary f :=
  if d.digits = 0 ∨ d.exponent + d.digits.log2 < -400 then Binary.zero negative
  else if 400 < d.exponent then Binary.infinity negative
  else
    let s := scaled d.digits 1 d.exponent
    Binary.nearest f negative (s.1 * f.unity) s.2

end Decimal

end Conformance
