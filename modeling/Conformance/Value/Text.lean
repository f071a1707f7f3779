import Conformance.Decimal.Style
import Conformance.Text.Hex
import Conformance.Value.Lanes

namespace Conformance

def Format.printDigits : Format → Nat
  | half => 5
  | single => 9
  | double => 17

/-- Why a count of digits is refused. Both the digits behind the point and all digits are counted
with 16 bits. -/
inductive DigitFault where
  | range
  | wrapped
deriving DecidableEq

namespace DigitFault

def message : DigitFault → String
  | range => "Formatting argument out of range"
  | wrapped => "assertion failed: ndigits > 0"

def check (count : Nat) : Except DigitFault Unit :=
  if UInt16.size < count then .error range
  else if count = UInt16.size then .error wrapped
  else .ok ()

end DigitFault

namespace Binary

variable {f : Format}

def signChar (x : Binary f) : Char := if x.isNegative then '-' else '+'

/-- `count` digits, at least one; infinities and NaNs in capitals, a NaN with its payload. -/
def countedText (count : Nat) (x : Binary f) : List Char :=
  if x.isNaN then
    x.signChar :: (if x.isQuiet then 'Q' else 'S') :: 'N' :: 'A' :: 'N' :: '(' ::
      Text.hex 1 x.payload ++ [')']
  else if x.isInfinite then [x.signChar, 'I', 'N', 'F']
  else x.roundedText (max 1 count)

def bitsText (x : Binary f) : List Char := ' ' :: '[' :: Text.hex (f.width / 4) x.toBits ++ [']']

def valueText (detailed : Bool) (count : Nat) (x : Binary f) : List Char :=
  x.countedText count ++ if detailed then x.bitsText else []

/-- `valueText`, where the digits of a finite datum can be too many. -/
def checkedText (detailed : Bool) (count : Nat) (x : Binary f) : Except DigitFault (List Char) := do
  if x.isFinite then DigitFault.check count
  return x.valueText detailed count

def halfText (x : Half) : String :=
  let number := String.ofList ((x.convert .single).text .plain)
  let bits := String.ofList (Text.hex 4 x.toBits)
  s!"F16({number} / {bits})"

end Binary

namespace Value

def intText (n : Int) : List Char :=
  if n < 0 then '-' :: Nat.toDigits 10 n.natAbs else Nat.toDigits 10 n.natAbs

def laneText (detailed : Bool) (v : Value) : List Char :=
  match v.ty.lane.kind with
  | .unsigned | .signed => intText v.toInt
  | .float f => (v.toBinary f).valueText detailed f.printDigits
  | .pointer => Text.hex (2 * v.size) v.toNat

def listText : List (List Char) → List Char
  | [] => []
  | [t] => t
  | t :: rest => t ++ ',' :: ' ' :: listText rest

def chars (detailed : Bool) (v : Value) : List Char :=
  if v.ty.isPacked then '(' :: listText (v.lanes.map (laneText detailed)) ++ [')']
  else v.laneText detailed

def text (v : Value) : String := String.ofList (v.chars false)

def detail (v : Value) : String := String.ofList (v.chars true)

end Value

end Conformance
