/-! The doubles as exact numbers. A finite double is, up to its sign, `significand * 2 ^ scale`; every
other module that needs the value of a double reads it off here, in natural number arithmetic. In the
other direction `nearest` rounds a quotient of naturals to a double, halves to the even neighbour, and
`roundToInt` rounds a double to an integer, halves away from zero. -/

namespace TurtleChain.Binary64

/-- The number of significand bits below the leading one. -/
def fractionBits : Nat := 52

/-- The exponent of two of the least positive double. -/
def minScale : Int := -1074

/-- The bit of the sign. -/
def signBit : Nat := Nat.pow 2 63

/-- The magnitude bits of the infinities: all exponent bits set. -/
def infinityBits : Nat := 0x7FF * Nat.pow 2 fractionBits

def isNegative (x : Float) : Bool :=
  decide (signBit ≤ x.toBits.toNat)

/-- The bits of a double without its sign. -/
def magnitudeBits (x : Float) : Nat :=
  x.toBits.toNat % signBit

def biasedExponent (x : Float) : Nat :=
  magnitudeBits x / Nat.pow 2 fractionBits

def fraction (x : Float) : Nat :=
  magnitudeBits x % Nat.pow 2 fractionBits

def significand (x : Float) : Nat :=
  if biasedExponent x = 0 then fraction x else Nat.pow 2 fractionBits + fraction x

def scale (x : Float) : Int :=
  if biasedExponent x = 0 then minScale else biasedExponent x + minScale - 1

/-- The quotient rounded to the nearest natural, halves to the even neighbour. -/
def roundQuotient (num den : Nat) : Nat :=
  let low := num / den
  match compare (2 * (num % den)) den with
  | .lt => low
  | .gt => low + 1
  | .eq => if low % 2 = 0 then low else low + 1

/-- The greatest `k` with `2 ^ k ≤ num / den`. -/
def floorLog2 (num den : Nat) : Int :=
  let guess : Int := (num.log2 : Int) - den.log2
  if den * Nat.pow 2 guess.toNat ≤ num * Nat.pow 2 (-guess).toNat then guess else guess - 1

/-- The magnitude bits of the double nearest to `num / den`. The significand may round up to the next
power of two; the carry then runs into the exponent bits, which is the right double. -/
def nearestBits (num den : Nat) : Nat :=
  if num = 0 then 0 else
    let k := max minScale (floorLog2 num den - fractionBits)
    let rounded := roundQuotient (num * Nat.pow 2 (-k).toNat) (den * Nat.pow 2 k.toNat)
    min infinityBits ((k - minScale).toNat * Nat.pow 2 fractionBits + rounded)

def ofMagnitudeBits (negative : Bool) (bits : Nat) : Float :=
  Float.ofBits (UInt64.ofNat (if negative then signBit + bits else bits))

/-- The double nearest to `num / den`, with the given sign. -/
def nearest (negative : Bool) (num den : Nat) : Float :=
  ofMagnitudeBits negative (nearestBits num den)

/-- The greatest natural that is at most the magnitude of `x`. -/
def floorMagnitude (x : Float) : Nat :=
  significand x * Nat.pow 2 (scale x).toNat / Nat.pow 2 (-scale x).toNat

/-- No fractional part is left. Infinities and not-a-number are not whole. -/
def isWhole (x : Float) : Bool :=
  x.isFinite &&
    decide (floorMagnitude x * Nat.pow 2 (-scale x).toNat = significand x * Nat.pow 2 (scale x).toNat)

/-- The nearest natural to the magnitude of a finite double, halves up. -/
def roundMagnitude (x : Float) : Nat :=
  let unit := Nat.pow 2 (-scale x).toNat
  (2 * (significand x * Nat.pow 2 (scale x).toNat) + unit) / (2 * unit)

/-- The nearest integer to a finite double, halves away from zero. -/
def roundToInt (x : Float) : Int :=
  if isNegative x then -(roundMagnitude x : Int) else roundMagnitude x

end TurtleChain.Binary64
