import Conformance.Binary.Basic
import Conformance.Word

namespace Conformance

namespace Narrowing

def signMask : BitVec 16 := 0x8000

def exponentMask : BitVec 16 := 0x7c00

def sign (x : BitVec 32) : Except WordFault (BitVec 16) := do
  return (← Word.shiftRight x 16).setWidth 16 &&& signMask

def exponent (x : BitVec 32) : Except WordFault (BitVec 32) := do
  return (← Word.shiftRight x 23) &&& 0xff

def fraction (x : BitVec 32) : BitVec 32 := x &&& 0x7fffff

/-- Whether the bits cut off raise what is left of a fraction, when halfway only an odd one. -/
def raises (cut halfway : BitVec 32) (odd : Bool) : Bool :=
  halfway.ult cut || (cut == halfway && odd)

def below (n : Nat) : Except WordFault (BitVec 32) := do
  Word.minus false (← Word.shiftLeft 1 n) 1

def halfway (place : BitVec 32) : Except WordFault (BitVec 32) := do
  Word.shiftLeft 1 (← Word.minus false place 1).toNat

def rounded (significand place : BitVec 32) : Except WordFault (BitVec 32) := do
  let quotient ← Word.shiftRight significand place.toNat
  let cut := significand &&& (← below place.toNat)
  let up := raises cut (← halfway place) (quotient &&& 1 == 1)
  Word.plus false quotient ((BitVec.ofBool up).setWidth 32)

/-- Infinities, and NaNs. A payload that was only in the low bits still reads as one. -/
def special (sign : BitVec 16) (fraction : BitVec 32) : Except WordFault (BitVec 16) := do
  if fraction = 0 then return sign ||| exponentMask
  else
    let payload := (← Word.shiftRight fraction 13).setWidth 16
    return sign ||| exponentMask ||| (if payload = 0 then 1 else payload)

def subnormal (sign : BitVec 16) (fraction exponent : BitVec 32) :
    Except WordFault (BitVec 16) := do
  let shift ← Word.minus true 14 exponent
  if (24 : BitVec 32).ult shift then return sign
  else return sign ||| (← rounded (fraction ||| 0x800000) shift).setWidth 16

def normal (sign : BitVec 16) (fraction exponent : BitVec 32) : Except WordFault (BitVec 16) := do
  let field ← Word.shiftLeft (exponent.setWidth 16) 10
  let kept := sign ||| field ||| (← Word.shiftRight fraction 13).setWidth 16
  let up := raises (fraction &&& 0x1fff) 0x1000 (kept &&& 1 == 1)
  Word.plus false kept ((BitVec.ofBool up).setWidth 16)

def narrowed (x : BitVec 32) : Except WordFault (BitVec 16) := do
  let s ← sign x
  let e ← exponent x
  if e = 0xff then special s (fraction x)
  else
    let rebiased ← Word.plus true (← Word.minus true e 127) 15
    if (0x1f : BitVec 32).sle rebiased then return s ||| exponentMask
    else if rebiased.sle 0 then subnormal s (fraction x) rebiased
    else normal s (fraction x) rebiased

end Narrowing

namespace Binary

def word (x : Single) : BitVec 32 := .ofNat 32 x.toBits

/-- The half nearest to a single, computed with words. The exponent field is moved to the bias of
halves and the fraction is cut off and rounded; a fraction that rounds up to the next power of two
carries into the exponent field. -/
def narrow (x : Single) : Except WordFault Half := do
  return .ofBits .half (← Narrowing.narrowed x.word).toNat

end Binary

end Conformance
