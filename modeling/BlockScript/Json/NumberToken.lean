import BlockScript.Json.Basic

/-!
Number tokens of JSON. A token without point and exponent is a whole number where 64 bits suffice.
Otherwise the leading digits that fit 64 bits form the significand, the digits after them only move
the exponent, and the significand is multiplied or divided by a power of ten once.
-/
namespace BlockScript
namespace Json

/-- The parts of a number token. -/
structure NumberToken where
  negative : Bool
  whole : List Nat
  fraction : Option (List Nat)
  exponent : Option Int

def digits? (cs : List Char) : Option (List Nat) :=
  if cs.isEmpty then none else cs.mapM (Number.digitValue? 10)

/-- Splits a token by the grammar: no superfluous leading zero, digits on both sides of a point,
digits in an exponent. -/
def NumberToken.ofChars? (cs : List Char) : Option NumberToken := do
  let (negative, unsigned) := match cs with
    | '-' :: rest => (true, rest)
    | rest => (false, rest)
  let mantissa := unsigned.takeWhile fun c => c != 'e' && c != 'E'
  let exponentPart := unsigned.dropWhile fun c => c != 'e' && c != 'E'
  let wholeChars := mantissa.takeWhile (· != '.')
  let whole ← digits? wholeChars
  if whole.length > 1 && whole.head? == some 0 then none
  let fraction ← match mantissa.dropWhile (· != '.') with
    | [] => some none
    | _ :: rest => (digits? rest).map some
  let exponent ← match exponentPart with
    | [] => some none
    | _ :: rest => (Number.readExponent? rest).map some
  return { negative, whole, fraction, exponent }

def maxSignificand : Nat := twoPow 64 - 1

/-- Appends digits to a significand while it fits; what is left did not. -/
def absorb (significand : Nat) : List Nat → Nat × List Nat
  | [] => (significand, [])
  | d :: rest =>
    if maxSignificand < significand * 10 + d then (significand, d :: rest)
    else absorb (significand * 10 + d) rest

def powerOfTen (e : Nat) : Number := Number.ofDecimal false 1 e

/-- Multiplies or divides by a power of ten, in steps of `10 ^ 308` when dividing by more; nothing if
the result is beyond the doubles. -/
def scale? (x : Number) (exponent : Int) : Option Number :=
  if exponent.natAbs ≤ 308 then
    if 0 ≤ exponent then
      let y := x * powerOfTen exponent.natAbs
      if y.isFinite then some y else none
    else some (x / powerOfTen exponent.natAbs)
  else if x.eqv 0 then some x
  else if 0 ≤ exponent then none
  else scale? (x / powerOfTen 308) (exponent + 308)
termination_by exponent.natAbs
decreasing_by omega

/-- The largest exponent that is taken at its value. -/
def maxExponent : Nat := twoPow 31 - 1

/-- The double of a token with a point, an exponent, or too many digits. -/
def NumberToken.real? (t : NumberToken) : Option Number :=
  let (wholeSignificand, dropped) := absorb 0 t.whole
  let fraction := t.fraction.getD []
  let (significand, unread) := absorb wholeSignificand fraction
  let place : Int := (dropped.length : Int) - ((fraction.length - unread.length : Nat) : Int)
  let exponent := t.exponent.getD 0
  let magnitude :=
    if maxExponent < exponent.natAbs then
      if significand ≠ 0 ∧ 0 < exponent then none else some 0
    else scale? (Number.ofNat significand) (place + exponent)
  magnitude.map fun x => if t.negative then -x else x

/-- The number of a token, if it denotes one. -/
def NumberToken.value? (t : NumberToken) : Option JsonNumber :=
  let n := Number.ofDigits 10 t.whole
  if t.fraction.isNone && t.exponent.isNone && n ≤ maxSignificand then
    if !t.negative then some (.whole n)
    else if 0 < n ∧ n ≤ twoPow 63 then some (.whole (-(n : Int)))
    else some (.real (-Number.ofNat n))
  else t.real?.map .real

end Json
end BlockScript
