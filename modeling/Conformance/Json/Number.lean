import Conformance.Binary.Order
import Conformance.Decimal.Reading
import Conformance.Decimal.Style

namespace Conformance.Json

structure Numeral where
  negative : Bool
  whole : List Char
  fraction : List Char
  exponent : Option Int
deriving DecidableEq

inductive Number where
  | whole (n : Int)
  | double (x : Double)
deriving DecidableEq

namespace Numeral

def scanWhole : List Char → List Char × List Char
  | '0' :: rest => (['0'], rest)
  | cs => cs.span Char.isDigit

def scanFraction (cs : List Char) : List Char × List Char :=
  match Decimal.readFraction cs with
  | ([], _) => ([], cs)
  | found => found

def scanExponent (cs : List Char) : Option Int × List Char :=
  match cs with
  | [] => (none, cs)
  | c :: rest =>
    let s := Decimal.readSign rest
    let digits := s.2.span Char.isDigit
    if (c = 'e' ∨ c = 'E') ∧ digits.1 ≠ [] then
      let n : Int := Decimal.ofDigitChars digits.1
      (some (if s.1 then -n else n), digits.2)
    else (none, cs)

def scan (cs : List Char) : Option (Numeral × List Char) :=
  let unsigned := if cs.head? = some '-' then cs.tail else cs
  let whole := scanWhole unsigned
  if whole.1 = [] then none
  else
    let fraction := scanFraction whole.2
    let exponent := scanExponent fraction.2
    some (⟨decide (cs.head? = some '-'), whole.1, fraction.1, exponent.1⟩, exponent.2)

/-- Appends digits to a significand as long as 64 bits hold it; gives the digits that are left. -/
def gather (significand : Nat) : List Char → Nat × List Char
  | [] => (significand, [])
  | c :: rest =>
    let next := 10 * significand + (c.toNat - '0'.toNat)
    if next < UInt64.size then gather next rest else (significand, c :: rest)

variable (n : Numeral)

def wholeDigits : Nat × List Char := gather 0 n.whole

def allDigits : Nat × List Char := gather n.wholeDigits.1 n.fraction

def scale : Int :=
  n.wholeDigits.2.length - (n.fraction.length - n.allDigits.2.length : Nat) + n.exponent.getD 0

def powerOfTen (e : Nat) : Double := Decimal.toBinary .double false ⟨1, e⟩

/-- Divides by `10 ^ e`, with steps of `10 ^ 308` as long as `e` is beyond that. -/
def shrink (x : Double) (e : Nat) : Double :=
  if e ≤ 308 then x / powerOfTen e
  else if x.isZero then x
  else shrink (x / powerOfTen 308) (e - 308)
termination_by e
decreasing_by omega

def grow (x : Double) (e : Nat) : Option Double :=
  if e ≤ 308 then
    let y := x * powerOfTen e
    if y.isInfinite then none else some y
  else if x.isZero then some x
  else none

def magnitude : Option Double :=
  let x := Binary.ofNat .double n.allDigits.1
  if 0 ≤ n.scale then grow x n.scale.toNat else some (shrink x (-n.scale).toNat)

def isWhole : Bool := decide (n.fraction = [] ∧ n.exponent = none ∧ n.wholeDigits.2 = [])

/-- The value, unless it is beyond the doubles. A number without fraction and exponent is whole if
64 bits hold it. Every other is a double, and so is a negative zero: as many leading digits as 64
bits hold, times a power of ten in one or more rounded steps. -/
def value? : Option Number :=
  if n.isWhole ∧ ¬n.negative then some (.whole n.wholeDigits.1)
  else if n.isWhole ∧ 0 < n.wholeDigits.1 ∧ n.wholeDigits.1 ≤ UInt64.size / 2 then
    some (.whole (-(n.wholeDigits.1 : Int)))
  else n.magnitude.map fun x => .double (if n.negative then x.neg else x)

end Numeral

namespace Number

def ofToken? (token : List Char) : Option Number :=
  match Numeral.scan token with
  | some (n, []) => n.value?
  | _ => none

def inRange? (low : Int) (count : Nat) : Number → Option Int
  | whole n => if low ≤ n ∧ n < low + count then some n else none
  | double _ => none

def toBinary (f : Format) : Number → Binary f
  | whole n => .ofInt f n
  | double x => x.convert f

end Number

end Conformance.Json
