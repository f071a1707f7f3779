import Conformance.Decimal.Basic

namespace Conformance.Decimal

variable (f : Format)

def roundsTo (code : Nat) (d : Decimal) : Bool :=
  let s := scaled d.digits 1 d.exponent
  let num := 2 * f.unity * s.1
  let low := (f.units (code - 1) + f.units code) * s.2
  let high := (f.units code + f.units (code + 1)) * s.2
  if code % 2 = 0 then decide (low ≤ num ∧ num ≤ high) else decide (low < num ∧ num < high)

/-- Whether the whole number below `num / den` is chosen rather than the one above. Of two equally
near the upper is chosen if `tieUp`, and otherwise the even one. -/
def prefersBelow (tieUp : Bool) (num den : Nat) : Bool :=
  decide (2 * (num % den) < den ∨ (2 * (num % den) = den ∧ !tieUp ∧ num / den % 2 = 0))

def nearestOn (tieUp : Bool) (code : Nat) (e : Int) : Option Decimal :=
  let v := f.ratio code
  let s := scaled v.1 v.2 (-e)
  let below : Decimal := ⟨s.1 / s.2, e⟩
  let above : Decimal := ⟨s.1 / s.2 + 1, e⟩
  if roundsTo f code below && (prefersBelow tieUp s.1 s.2 || !roundsTo f code above) then some below
  else if roundsTo f code above then some above
  else none

/-- The shortest decimal that reads back as the code. The numbers that round to a code form an
interval, so that of each count of digits only the two neighbours of the value have to be tried; 17
digits are enough for every format. -/
def shortest (tieUp : Bool) (code : Nat) : Decimal :=
  if code = 0 then ⟨0, 0⟩
  else
    let v := f.ratio code
    let leading := leadingExponent v.1 v.2
    let found := (List.range 17).findSome? fun (places : Nat) =>
      nearestOn f tieUp code (leading - places)
    (found.getD (significant 17 v.1 v.2)).trim

end Conformance.Decimal
