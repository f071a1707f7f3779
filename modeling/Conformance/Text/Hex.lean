namespace Conformance.Text

def hexDigits (width n : Nat) : List Char :=
  let digits := Nat.toDigits 16 n
  List.replicate (width - digits.length) '0' ++ digits

def hex (width n : Nat) : List Char := '0' :: 'x' :: hexDigits width n

end Conformance.Text
