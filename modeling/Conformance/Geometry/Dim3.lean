import Conformance.Count

namespace Conformance

structure Dim3 where
  x : UInt64
  y : UInt64
  z : UInt64
deriving DecidableEq

namespace Dim3

inductive Fault where
  | axis (d : Nat)
  | wide (extent : Dim3)
deriving DecidableEq

def zero : Dim3 := ⟨0, 0, 0⟩

def one : Dim3 := ⟨1, 1, 1⟩

instance : Inhabited Dim3 := ⟨one⟩

def get (p : Dim3) : Fin 3 → UInt64
  | 0 => p.x
  | 1 => p.y
  | 2 => p.z

def set (p : Dim3) (d : Fin 3) (value : UInt64) : Dim3 :=
  match d with
  | 0 => { p with x := value }
  | 1 => { p with y := value }
  | 2 => { p with z := value }

def axis (d : Nat) : Except Fault (Fin 3) :=
  if h : d < 3 then .ok ⟨d, h⟩ else .error (.axis d)

def size (p : Dim3) : Except CountFault UInt64 := do
  Count.times (← Count.times p.x p.y) p.z

/-- The number of points, if 32 bits hold it. -/
def size32 (p : Dim3) : Except Fault UInt32 :=
  match p.size with
  | .ok n => if n.toNat < UInt32.size then .ok n.toUInt32 else .error (.wide p)
  | .error _ => .error (.wide p)

def toList (p : Dim3) : List UInt64 := [p.x, p.y, p.z]

def text (p : Dim3) : String := s!"({p.x}, {p.y}, {p.z})"

def Fault.message : Fault → String
  | .axis d => s!"dimension index {d} out of range (expected 0..3)"
  | .wide extent => s!"{extent.text} does not fit in 32 bits"

end Dim3

end Conformance
