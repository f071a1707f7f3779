import Conformance.Image.Sampling

namespace Conformance

namespace Taps

/-- The coordinates of a corner. The lowest bit of its number stands for the first axis that
blends. -/
def corner : List Taps → Nat → List UInt32
  | [], _ => []
  | t :: rest, n =>
    if t.weight.isSome then (if n % 2 = 1 then t.second else t.first) :: corner rest (n / 2)
    else t.first :: corner rest n

end Taps

inductive SlotFault where
  | image (fault : ImageFault)
  | index (i count : Nat)
deriving DecidableEq

def SlotFault.message : SlotFault → String
  | .image fault => fault.message
  | .index i count => s!"index out of bounds: the len is {count} but the index is {i}"

namespace Slots

variable {α : Type}

def read (slots : List α) (i : Nat) : Except SlotFault α :=
  match slots[i]? with
  | some a => .ok a
  | none => .error (.index i slots.length)

def write (slots : List α) (i : Nat) (a : α) : Except SlotFault (List α) :=
  if i < slots.length then .ok (slots.set i a) else .error (.index i slots.length)

variable (lerp : α → α → Single → α)

def blendPair (weight : Single) (slots : List α) (j : Nat) : Except SlotFault (List α) := do
  let first ← read slots (2 * j)
  let second ← read slots (2 * j + 1)
  write slots j (lerp first second weight)

def blendPairs (weight : Single) (slots : List α) (count : Nat) : Except SlotFault (List α) :=
  (List.range count).foldlM (blendPair lerp weight) slots

def blend : List Single → List α → Nat → Except SlotFault (List α)
  | [], slots, _ => .ok slots
  | weight :: rest, slots, count => do
    blend rest (← blendPairs lerp weight slots (count / 2)) (count / 2)

def capacity : Nat := 8

end Slots

namespace SampledImage

variable (im : SampledImage)

def fetchSlots (taps : List Taps) (count : Nat) : Except SlotFault (List (Rgba Single)) := do
  if Slots.capacity < count then .error (.image (.range count Slots.capacity))
  else
    let colors ← (List.range count).mapM fun n =>
      (im.fetchFloat (.ofList (Taps.corner taps n))).mapError .image
    return colors ++ List.replicate (Slots.capacity - count) .transparent

def filterSlots (lerp : Rgba Single → Rgba Single → Single → Rgba Single) (taps : List Taps) :
    Except SlotFault Color := do
  let weights := Taps.weights taps
  let count := 1 <<< weights.length
  let slots ← im.fetchSlots taps count
  return .float (← Slots.read (← Slots.blend lerp weights slots count) 0)

/-- The color at the given coordinates, with `lerp` in place of the blend of two colors. It is one
loop over the corners of a cell, whose colors are fetched into eight slots and blended there, axis
after axis. -/
def readSlots (lerp : Rgba Single → Rgba Single → Single → Rgba Single) (coords : List Single) :
    Except SlotFault Color := do
  (im.checkCount coords.length).mapError .image
  let taps ← (im.taps coords).mapError .image
  match im.sampler.filter with
  | .nearest => (im.fetch (.ofList (taps.map Taps.first))).mapError .image
  | .linear => im.filterSlots lerp taps

end SampledImage

end Conformance
