import Conformance.Image.Fault

namespace Conformance.AddressingMode

def last (size : UInt32) : Single := .ofNat .single (size.toNat - 1)

def clamped (c : Single) (size : UInt32) : Single := c.floor.clamp (.zero false) (last size)

def tile (c : Single) (size : UInt32) : Single := (c / .ofNat .single size.toNat).floor

def folded (c : Single) (size : UInt32) : Single :=
  clamped (c - .ofNat .single size.toNat * tile c size) size

/-- The texel that a coordinate falls on. `size` stands for the border; NaNs fall on texel 0, or on
the border if there is one. -/
def texel (mode : AddressingMode) (c : Single) (size : UInt32) : UInt32 :=
  match mode with
  | undefined | clampToEdge => (clamped c size).toWord32
  | clampToBorder =>
    if c.lt (.zero false) || (Binary.ofNat .single size.toNat).le c || c.isNaN then size
    else (clamped c size).toWord32
  | wrap => (folded c size).toWord32
  | mirror =>
    if (tile c size).isOdd then (last size - folded c size).toWord32 else (folded c size).toWord32

def address (mode : AddressingMode) (c : Single) (size : UInt32) : Except ImageFault UInt32 :=
  if size = 0 then .error .emptyAxis else .ok (mode.texel c size)

end Conformance.AddressingMode

namespace Conformance

def oneHalf : Single := .ofRatio .single 1 2

/-- The layer nearest to a coordinate; one half rounds up. -/
def layerIndex (c : Single) (layers : UInt32) : UInt32 :=
  ((c + oneHalf).floor.clamp (.zero false) (.ofNat .single (max layers.toNat 1 - 1))).toWord32

end Conformance
