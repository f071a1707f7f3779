namespace Conformance.Bytes

def ofNat : Nat → Nat → List UInt8
  | 0, _ => []
  | count + 1, n => UInt8.ofNat n :: ofNat count (n / 256)

def toNat : List UInt8 → Nat
  | [] => 0
  | b :: rest => b.toNat + 256 * toNat rest

def fit (count : Nat) (bytes : List UInt8) : List UInt8 :=
  (bytes ++ List.replicate count 0).take count

def pieces (size : Nat) : Nat → List UInt8 → List (List UInt8)
  | 0, _ => []
  | count + 1, bytes => bytes.take size :: pieces size count (bytes.drop size)

end Conformance.Bytes
