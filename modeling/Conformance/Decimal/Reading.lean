import Conformance.Decimal.Basic

namespace Conformance.Decimal

def ofDigitChars (cs : List Char) : Nat := Nat.ofDigitChars 10 cs 0

def readSign : List Char → Bool × List Char
  | '-' :: rest => (true, rest)
  | '+' :: rest => (false, rest)
  | cs => (false, cs)

def readDigits? (cs : List Char) : Option Nat :=
  if cs ≠ [] ∧ cs.all Char.isDigit then some (ofDigitChars cs) else none

def readExponent? : List Char → Option Int
  | [] => some 0
  | c :: rest =>
    if c = 'e' ∨ c = 'E' then
      let s := readSign rest
      (readDigits? s.2).map fun n => if s.1 then -(n : Int) else n
    else none

def readFraction : List Char → List Char × List Char
  | '.' :: rest => rest.span Char.isDigit
  | cs => ([], cs)

/-- An unsigned number. A point needs a digit on one side at least. -/
def ofChars? (cs : List Char) : Option Decimal :=
  let whole := cs.span Char.isDigit
  let fraction := readFraction whole.2
  if whole.1 ++ fraction.1 = [] then none
  else (readExponent? fraction.2).map fun e =>
    ⟨ofDigitChars (whole.1 ++ fraction.1), e - fraction.1.length⟩

end Conformance.Decimal

namespace Conformance.Binary

def ofWord? (f : Format) (negative : Bool) (cs : List Char) : Option (Binary f) :=
  let word := cs.map Char.toLower
  if word = ['i', 'n', 'f'] ∨ word = ['i', 'n', 'f', 'i', 'n', 'i', 't', 'y'] then
    some (infinity negative)
  else if word = ['n', 'a', 'n'] then some (quietNaN negative)
  else none

def ofChars? (f : Format) (cs : List Char) : Option (Binary f) :=
  let s := Decimal.readSign cs
  match Decimal.ofChars? s.2 with
  | some d => some (d.toBinary f s.1)
  | none => ofWord? f s.1 s.2

end Conformance.Binary
