import BlockScript.Number.Arithmetic

/-!
Elementary functions. Their values come from the machine's own double precision functions, reached
through the bit patterns of doubles; trigonometry in blocks works in degrees.
-/
namespace BlockScript
namespace Number

/-! ### Bit patterns -/

/-- The 64-bit pattern of a number: sign, eleven exponent bits, 52 fraction bits. -/
def toBits : Number → UInt64
  | .nan => 0x7ff8000000000000
  | .infinity s => if s then 0xfff0000000000000 else 0x7ff0000000000000
  | .finite s m _ =>
    let magnitude :=
      if m < twoPow 52 then m
      else (gridExponent m + 1) * twoPow 52 + (m / twoPow (gridExponent m) - twoPow 52)
    UInt64.ofNat (magnitude + if s then twoPow 63 else 0)

def ofBits (bits : UInt64) : Number :=
  let n := bits.toNat
  let negative := n / twoPow 63 == 1
  let exponent := n / twoPow 52 % twoPow 11
  let fraction := n % twoPow 52
  if exponent = 2047 then (if fraction = 0 then .infinity negative else .nan)
  else if exponent = 0 then ofQuotient negative fraction 1
  else ofQuotient negative ((twoPow 52 + fraction) * twoPow (exponent - 1)) 1

def lift (f : Float → Float) (x : Number) : Number := ofBits (f (Float.ofBits x.toBits)).toBits

def sqrt : Number → Number := lift Float.sqrt
def sin : Number → Number := lift Float.sin
def cos : Number → Number := lift Float.cos
def tan : Number → Number := lift Float.tan
def asin : Number → Number := lift Float.asin
def acos : Number → Number := lift Float.acos
def atan : Number → Number := lift Float.atan
def ln : Number → Number := lift Float.log
def log10 : Number → Number := lift Float.log10
def exp : Number → Number := lift Float.exp
def pow10 : Number → Number := lift (Float.pow 10)

/-! ### Degrees -/

/-- The double nearest to `π / 180`. -/
def radiansPerDegree : Number := ofBits 0x3f91df46a2529d39

/-- The double nearest to `180 / π`. -/
def degreesPerRadian : Number := ofBits 0x404ca5dc1a63c1f8

def toRadians (x : Number) : Number := x * radiansPerDegree
def toDegrees (x : Number) : Number := x * degreesPerRadian

def tenPlaces (x : Number) : Number := (x * ofNat 10000000000).round / ofNat 10000000000

/-- Tangent of an angle in degrees, infinite at a right angle. -/
def tanDegrees (x : Number) : Number :=
  let angle := x % 360
  if angle.eqv (-270) || angle.eqv 90 then .infinity false
  else if angle.eqv (-90) || angle.eqv 270 then .infinity true
  else angle.toRadians.tan.tenPlaces

/-- The nearest whole number if it is closer than `1e-9`, else the number itself. -/
def snapToWhole (x : Number) : Number :=
  if (x - x.round).abs < ofDecimal false 1 (-9) then x.round else x

/-- A direction shifted by whole turns: offset, remainder of a full turn, offset back. -/
def wrapDirection (degrees : Number) : Number := remPositive (degrees + 179) 360 - 179

end Number
end BlockScript
