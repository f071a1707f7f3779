import Conformance.Decimal.Shortest

namespace Conformance

structure Style where
  /-- Whether a number whose first digit weighs `10 ^ e` is written without an exponent. -/
  positional : Int → Bool
  wholePoint : Bool
  plusSign : Bool
  /-- Whether of two shortest decimals equally near the upper is written, and not the even one. -/
  tieUp : Bool

namespace Style

def plain : Style := ⟨fun _ => true, false, false, true⟩

def scientific : Style := ⟨fun _ => false, false, false, true⟩

def record : Style := ⟨fun e => decide (-4 ≤ e ∧ e < 16), true, false, true⟩

/-- The number form of JSON documents, which for single precision changes over to exponents
elsewhere than for the others. -/
def json : Format → Style
  | .single => ⟨fun e => decide (-6 ≤ e ∧ e < 13), true, true, false⟩
  | _ => ⟨fun e => decide (-5 ≤ e ∧ e < 16), true, true, false⟩

end Style

namespace Decimal

def mantissa : List Char → List Char
  | [] => []
  | [c] => [c]
  | c :: rest => c :: '.' :: rest

def exponentText (plusSign : Bool) (e : Int) : List Char :=
  let sign := if e < 0 then ['-'] else if plusSign then ['+'] else []
  'e' :: sign ++ Nat.toDigits 10 e.natAbs

def positionalText (wholePoint : Bool) (digits : List Char) (exponent : Int) : List Char :=
  if 0 ≤ exponent then
    digits ++ List.replicate exponent.toNat '0' ++ (if wholePoint then ['.', '0'] else [])
  else
    let places := (-exponent).toNat
    let padded := List.replicate (places + 1 - digits.length) '0' ++ digits
    padded.take (padded.length - places) ++ '.' :: padded.drop (padded.length - places)

def text (style : Style) (digits : List Char) (exponent : Int) : List Char :=
  let leading := exponent + digits.length - 1
  if style.positional leading then positionalText style.wholePoint digits exponent
  else mantissa digits ++ exponentText style.plusSign leading

end Decimal

namespace Binary

variable {f : Format}

def text (style : Style) (x : Binary f) : List Char :=
  if x.isNaN then ['N', 'a', 'N']
  else
    let magnitude :=
      if x.isInfinite then ['i', 'n', 'f']
      else
        let d := Decimal.shortest f style.tieUp x.code
        Decimal.text style (Nat.toDigits 10 d.digits) d.exponent
    if x.isNegative then '-' :: magnitude else magnitude

/-- No finite datum has more significant digits; all that follow are zeros. -/
def exactDigits : Nat := 767

def roundedText (count : Nat) (x : Binary f) : List Char :=
  let v := f.ratio x.code
  let kept := min count exactDigits
  let d := Decimal.significant kept v.1 v.2
  let digits := Nat.toDigits 10 d.digits
  let padded := List.replicate (kept - digits.length) '0' ++ digits
  let filled := padded ++ List.replicate (count - kept) '0'
  let magnitude := Decimal.text .scientific filled (d.exponent - (count - kept : Nat))
  if x.isNegative then '-' :: magnitude else magnitude

end Binary

end Conformance
