import Conformance.Decimal.Style
import Conformance.Image.Format
import Conformance.Transfer
import Conformance.Value.Basic

namespace Conformance

structure Rgba (α : Type) where
  r : α
  g : α
  b : α
  a : α
deriving DecidableEq

namespace Rgba

variable {α β : Type}

def get (c : Rgba α) : Channel → α
  | .red => c.r
  | .green => c.g
  | .blue => c.b
  | .alpha => c.a

def ofFn (f : Channel → α) : Rgba α := ⟨f .red, f .green, f .blue, f .alpha⟩

def toList (c : Rgba α) : List α := [c.r, c.g, c.b, c.a]

def zipWith (op : α → α → β) (c d : Rgba α) : Rgba β := ofFn fun ch => op (c.get ch) (d.get ch)

def mapColor (f : α → α) (c : Rgba α) : Rgba α := ⟨f c.r, f c.g, f c.b, c.a⟩

def dark (a : Single) : Rgba Single := ⟨.zero false, .zero false, .zero false, a⟩

def transparent : Rgba Single := dark (.zero false)

def black : Rgba Single := dark (.ofNat .single 1)

def add (c d : Rgba Single) : Rgba Single := zipWith Binary.add c d

def sub (c d : Rgba Single) : Rgba Single := zipWith Binary.sub c d

def scale (c : Rgba Single) (t : Single) : Rgba Single := ofFn fun ch => c.get ch * t

/-- `start + (finish - start) * t`, which gives equal ends back for every finite weight. -/
def lerp (start finish : Rgba Single) (t : Single) : Rgba Single :=
  start.add ((finish.sub start).scale t)

def toLinear (c : Rgba Single) : Rgba Single := c.mapColor Transfer.toLinear

def ofLinear (c : Rgba Single) : Rgba Single := c.mapColor Transfer.ofLinear

end Rgba

inductive Color where
  | float (c : Rgba Single)
  | signed (c : Rgba Int32)
  | unsigned (c : Rgba UInt32)
deriving DecidableEq

namespace Color

def kind : Color → ColorKind
  | float _ => .float
  | signed _ => .signed
  | unsigned _ => .unsigned

def float? : Color → Option (Rgba Single)
  | float c => some c
  | _ => none

def values : Color → List Value
  | float c => c.toList.map Value.ofBinary
  | signed c => c.toList.map fun n => .ofNat (.scalar .s32) n.toUInt32.toNat
  | unsigned c => c.toList.map fun n => .ofNat (.scalar .u32) n.toNat

def text : Color → String
  | float c =>
    let ch (x : Single) : String := String.ofList (x.text .record)
    let fields := s!"r: {ch c.r}, g: {ch c.g}, b: {ch c.b}, a: {ch c.a}"
    s!"Float(Rgba \x7b {fields} \x7d)"
  | signed c => s!"Signed([{c.r}, {c.g}, {c.b}, {c.a}])"
  | unsigned c => s!"Unsigned([{c.r}, {c.g}, {c.b}, {c.a}])"

end Color

end Conformance
