import Conformance.Binary.Order

namespace Conformance

/-- The positive number `mantissa * 2 ^ exponent`, or zero. -/
structure Approx where
  mantissa : Nat
  exponent : Int

namespace Approx

/-- The bits kept of every intermediate result, far more than any format has. -/
def precision : Nat := 192

def truncate (x : Approx) : Approx :=
  let extra := x.mantissa.log2 + 1 - precision
  ⟨x.mantissa >>> extra, x.exponent + extra⟩

def one : Approx := ⟨1, 0⟩

def mul (x y : Approx) : Approx := truncate ⟨x.mantissa * y.mantissa, x.exponent + y.exponent⟩

def sqrt (x : Approx) : Approx :=
  let shift := 2 * precision + (x.exponent % 2).toNat
  truncate ⟨Nat.sqrt (x.mantissa <<< shift), (x.exponent - shift) / 2⟩

def pow (x : Approx) (n : Nat) : Approx :=
  if n = 0 then one
  else
    let half := pow x (n / 2)
    if n % 2 = 1 then mul (mul half half) x else mul half half

/-- Multiplies `acc` by `root ^ (n / 2 ^ bits)`, where only the low `bits` bits of `n` count: one
square root for each of them down to the last that is set. -/
def powFraction (n : Nat) : Nat → Approx → Approx → Approx
  | 0, _, acc => acc
  | bits + 1, root, acc =>
    if n % (1 <<< (bits + 1)) = 0 then acc
    else
      let next := sqrt root
      powFraction n bits next (if n.testBit bits then mul acc next else acc)

def toBinary (f : Format) (x : Approx) : Binary f :=
  let e := x.exponent + f.scale
  if 0 ≤ e then Binary.nearest f false (x.mantissa <<< e.toNat) 1
  else Binary.nearest f false x.mantissa (1 <<< (-e).toNat)

end Approx

namespace Binary

variable {f : Format}

def powUnits (x : Binary f) (units : Nat) : Binary f :=
  let base : Approx := ⟨f.units x.code, -(f.scale : Int)⟩
  (Approx.powFraction units f.scale base (Approx.pow base (units / f.unity))).toBinary f

/-- The power of a number that is not below zero, with a positive finite exponent. Every exponent is
a whole number of `2 ^ -scale`, so that a power is a product of repeated square roots; it is
computed with `Approx.precision` bits and rounded once. -/
def pow (x y : Binary f) : Binary f :=
  if x.isNaN then x.quieted
  else if x.isNegative then invalid
  else if x.isInfinite then x
  else powUnits x (f.units y.code)

end Binary

end Conformance
