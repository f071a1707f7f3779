import Conformance.Binary.Power

namespace Conformance.Transfer

variable {f : Format}

def slope (f : Format) : Binary f := Binary.ofRatio f 1292 100

def offset (f : Format) : Binary f := Binary.ofRatio f 55 1000

def gain (f : Format) : Binary f := Binary.ofRatio f 1055 1000

def gamma (f : Format) : Binary f := Binary.ofRatio f 24 10

/-- The linear intensity of an encoded component, with the powers of a platform. -/
def toLinearBy (power : Binary f → Binary f → Binary f) (c : Binary f) : Binary f :=
  if c.le (Binary.ofRatio f 4045 100000) then c / slope f
  else power ((c + offset f) / gain f) (gamma f)

def toLinear (c : Binary f) : Binary f := toLinearBy Binary.pow c

/-- The encoded component of a linear intensity; a NaN encodes as zero. -/
def ofLinear (c : Binary f) : Binary f :=
  if c.isNaN then Binary.zero false
  else if c.le (Binary.ofRatio f 31308 10000000) then c * slope f
  else gain f * c.pow (Binary.ofNat f 1 / gamma f) - offset f

end Conformance.Transfer
