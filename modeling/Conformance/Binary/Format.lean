namespace Conformance

/-- The binary interchange formats of 16, 32 and 64 bits. A pattern without its sign bit is called a
code; codes count the nonnegative values of a format in order. -/
inductive Format where
  | half
  | single
  | double
deriving DecidableEq

namespace Format

def width : Format → Nat
  | half => 16
  | single => 32
  | double => 64

def fractionBits : Format → Nat
  | half => 10
  | single => 23
  | double => 52

/-- The least subnormal is `2 ^ -scale`. -/
def scale : Format → Nat
  | half => 24
  | single => 149
  | double => 1074

def signWeight (f : Format) : Nat := 1 <<< (f.width - 1)

def binade (f : Format) : Nat := 1 <<< f.fractionBits

/-- The code of infinity; finite codes are below it and NaNs above. -/
def infinityCode (f : Format) : Nat := f.signWeight - f.binade

def quietWeight (f : Format) : Nat := 1 <<< (f.fractionBits - 1)

def unity (f : Format) : Nat := 1 <<< f.scale

/-- The fraction field of a code, with the leading bit that normal codes leave out. -/
def significand (f : Format) (code : Nat) : Nat :=
  if code / f.binade = 0 then code else f.binade + code % f.binade

def shift (f : Format) (code : Nat) : Nat := code / f.binade - 1

/-- The value of a finite code, counted in least subnormals. -/
def units (f : Format) (code : Nat) : Nat := f.significand code <<< f.shift code

def ratio (f : Format) (code : Nat) : Nat × Nat :=
  (f.significand code <<< (f.shift code - f.scale), 1 <<< (f.scale - f.shift code))

end Format

end Conformance
