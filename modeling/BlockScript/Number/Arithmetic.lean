import BlockScript.Number.Basic

/-!
Arithmetic of numbers. Sums, products and quotients are exact on counts of quanta and rounded once;
remainders and roundings to whole numbers are exact. Conversions to bounded whole numbers drop the
fraction and stop at the bounds.
-/
namespace BlockScript
namespace Number

/-! ### Sums, products, quotients, remainders -/

def neg : Number → Number
  | .nan => .nan
  | .infinity s => .infinity (!s)
  | .finite s m h => .finite (!s) m h

def abs : Number → Number
  | .nan => .nan
  | .infinity _ => .infinity false
  | .finite _ m h => .finite false m h

/-- A zero sum is negative only when both terms are. -/
def add : Number → Number → Number
  | .nan, _ => .nan
  | _, .nan => .nan
  | .infinity s, .infinity t => if s = t then .infinity s else .nan
  | .infinity s, .finite .. => .infinity s
  | .finite .., .infinity t => .infinity t
  | .finite s m _, .finite t n _ => ofQuanta (s && t) (signed s m + signed t n)

def sub (x y : Number) : Number := x.add y.neg

def mul : Number → Number → Number
  | .nan, _ => .nan
  | _, .nan => .nan
  | .infinity s, .infinity t => .infinity (s ^^ t)
  | .infinity s, .finite t n _ => if n = 0 then .nan else .infinity (s ^^ t)
  | .finite s m _, .infinity t => if m = 0 then .nan else .infinity (s ^^ t)
  | .finite s m _, .finite t n _ => ofQuotient (s ^^ t) (m * n) quantaPerOne

/-- Division by zero is infinite, and `nan` for a zero dividend. -/
def div : Number → Number → Number
  | .nan, _ => .nan
  | _, .nan => .nan
  | .infinity _, .infinity _ => .nan
  | .infinity s, .finite t _ _ => .infinity (s ^^ t)
  | .finite s _ _, .infinity t => zero (s ^^ t)
  | .finite s m _, .finite t n _ =>
    if n = 0 then (if m = 0 then .nan else .infinity (s ^^ t))
    else ofQuotient (s ^^ t) (m * quantaPerOne) n

/-- The remainder of truncated division, which has the sign of the dividend. -/
def rem : Number → Number → Number
  | .nan, _ => .nan
  | _, .nan => .nan
  | .infinity _, _ => .nan
  | x, .infinity _ => x
  | .finite s m _, .finite _ n _ => if n = 0 then .nan else ofQuotient s (m % n) 1

instance : Neg Number := ⟨neg⟩
instance : Add Number := ⟨add⟩
instance : Sub Number := ⟨sub⟩
instance : Mul Number := ⟨mul⟩
instance : Div Number := ⟨div⟩
instance : Mod Number := ⟨rem⟩

/-- The remainder in `[0, divisor)` of division by a positive number. -/
def remPositive (x divisor : Number) : Number :=
  let r := x % divisor
  if r < 0 then r + divisor.abs else r

/-! ### Rounding to whole numbers -/

/-- Rounds the magnitude of a finite number to a whole number by the given rule, keeping the sign. -/
def mapMagnitude (round : (negative : Bool) → (quanta : Nat) → Nat) : Number → Number
  | .finite s m _ => ofQuotient s (round s m * quantaPerOne) 1
  | x => x

/-- The least whole number of ones that covers a count of quanta. -/
def onesAbove (m : Nat) : Nat := (m + (quantaPerOne - 1)) / quantaPerOne

def floor : Number → Number :=
  mapMagnitude fun negative m => if negative then onesAbove m else m / quantaPerOne

def ceil : Number → Number :=
  mapMagnitude fun negative m => if negative then m / quantaPerOne else onesAbove m

/-- The nearest whole number, halves going away from zero. -/
def round : Number → Number :=
  mapMagnitude fun _ m => (m + quantaPerOne / 2) / quantaPerOne

def half : Number := ofQuotient false quantaPerOne 2

/-- Adds one half and rounds down. -/
def roundHalfUp (x : Number) : Number := (x + half).floor

/-! ### Bounded whole numbers -/

/-- Drops the fraction and stops at the bounds; `nan` reads as zero. -/
def truncateWithin (low high : Int) : Number → Int
  | .nan => 0
  | .infinity s => if s then low else high
  | .finite s m _ =>
    let whole := signed s (m / quantaPerOne)
    if whole < low then low else if high < whole then high else whole

/-- Drops the fraction, within 32 bits with a sign. -/
def toInt32 : Number → Int := truncateWithin (-(twoPow 31 : Int)) ((twoPow 31 : Int) - 1)

/-- Drops the fraction, within 64 bits with a sign. -/
def toInt64 : Number → Int := truncateWithin (-(twoPow 63 : Int)) ((twoPow 63 : Int) - 1)

/-- Drops the fraction, within 64 bits without a sign. -/
def toNat64 (x : Number) : Nat := (truncateWithin 0 ((twoPow 64 : Int) - 1) x).toNat

/-! ### Spans of time -/

def nanosPerSecond : Nat := 1000000000

/-- The nearest whole number of nanoseconds, a tie going to the even one. A span is neither negative
nor as long as `2 ^ 64` seconds. -/
def nanoseconds? : Number → Option Nat
  | .finite s m _ =>
    if (s && m != 0) || twoPow 64 * quantaPerOne ≤ m then none
    else some (divRoundEven (m * nanosPerSecond) quantaPerOne)
  | _ => none

/-- Whole seconds plus the fraction, each rounded to a number. -/
def ofNanoseconds (ns : Nat) : Number :=
  ofNat (ns / nanosPerSecond) + ofNat (ns % nanosPerSecond) / ofNat nanosPerSecond

end Number
end BlockScript
