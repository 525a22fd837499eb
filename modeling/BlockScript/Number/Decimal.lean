import BlockScript.Number.Arithmetic

/-!
Decimal text of numbers. A number is written with the fewest digits that read back as the same
number: the coarsest power of ten with a multiple inside the number's rounding interval is the place
of the last digit. It is always written positionally. Reading takes digits with an optional point
and an optional power of ten, rounded once.
-/
namespace BlockScript
namespace Number

/-! ### The shortest digits -/

/-- The reals that round to a count of quanta, in quarters of a quantum. The ends belong to it when
`closed`. -/
structure Interval where
  low : Nat
  high : Nat
  closed : Bool

/-- The rounding interval of a positive count: half a step of the grid on either side, and a quarter
below a power of two, where the grid gets finer. -/
def Interval.around (m : Nat) : Interval :=
  let step := twoPow (gridExponent m)
  let below := if m = twoPow 52 * step ∧ 1 < step then step else 2 * step
  { low := 4 * m - below, high := 4 * m + 2 * step, closed := m / step % 2 == 0 }

def quartersPerOne : Nat := 4 * quantaPerOne

/-- The fraction `numerator / denominator` of quarters as a multiple of `10 ^ place`. -/
def scaleNumerator (place : Int) (quarters : Nat) : Nat := quarters * tenPow (-place).toNat

def scaleDenominator (place : Int) : Nat := quartersPerOne * tenPow place.toNat

/-- Whether `digits * 10 ^ place` lies in the interval. -/
def Interval.holds (i : Interval) (place : Int) (digits : Nat) : Bool :=
  let point := digits * scaleDenominator place
  let low := scaleNumerator place i.low
  let high := scaleNumerator place i.high
  if i.closed then low ≤ point && point ≤ high else low < point && point < high

/-- The multiple of `10 ^ place` nearest to a count of quanta among those in its rounding interval;
a tie goes up. -/
def nearestDigits? (m : Nat) (place : Int) : Option Nat :=
  let i := Interval.around m
  let num := scaleNumerator place (4 * m)
  let den := scaleDenominator place
  let down := num / den
  match i.holds place down, i.holds place (down + 1) with
  | true, true => some (if 2 * (num % den) < den then down else down + 1)
  | true, false => some down
  | false, true => some (down + 1)
  | false, false => none

/-- Tries the places from `place` downwards. -/
def shortestFrom (m : Nat) : (steps : Nat) → (place : Int) → Nat × Int
  | 0, place => (0, place)
  | steps + 1, place =>
    match nearestDigits? m place with
    | some digits => (digits, place)
    | none => shortestFrom m steps (place - 1)

/-- How many decimal digits a whole number has, none for zero. -/
def digitCount (n : Nat) : Nat := if n = 0 then 0 else (Nat.toDigits 10 n).length

/-- The fewest digits, with the place of the last one, that read back as a positive count of quanta.
No place below the `1074`th after the point is needed, since a quantum itself ends there. -/
def shortest (m : Nat) : Nat × Int :=
  let start := digitCount ((Interval.around m).high / quartersPerOne)
  shortestFrom m (start + 1075) start

/-! ### Positional text -/

def digitsOf (n : Nat) : List Char := Nat.toDigits 10 n

/-- `digits * 10 ^ place` without an exponent. -/
def positional (digits : Nat) (place : Int) : List Char :=
  if 0 ≤ place then digitsOf digits ++ List.replicate place.toNat '0'
  else
    let decimals := (-place).toNat
    let all := digitsOf digits
    let padded := List.replicate (decimals + 1 - all.length) '0' ++ all
    padded.take (padded.length - decimals) ++ '.' :: padded.drop (padded.length - decimals)

/-- How numbers are written where digits alone do not decide. -/
structure Spelling where
  infinity : String
  /-- Whether the sign of a zero is written. -/
  signedZero : Bool

def spell (s : Spelling) : Number → String
  | .nan => "NaN"
  | .infinity negative => if negative then "-" ++ s.infinity else s.infinity
  | .finite negative m _ =>
    if m = 0 then (if negative && s.signedZero then "-0" else "0")
    else
      let (digits, place) := shortest m
      String.ofList ((if negative then ['-'] else []) ++ positional digits place)

/-- Values show infinity by its name and no negative zero. -/
def valueSpelling : Spelling := ⟨"Infinity", false⟩

/-- Log messages abbreviate infinity and show the sign of a zero. -/
def logSpelling : Spelling := ⟨"inf", true⟩

/-- The text of a number as a value. -/
def text (x : Number) : String := x.spell valueSpelling

/-- The text of a number in a log message. -/
def logText (x : Number) : String := x.spell logSpelling

/-! ### Reading -/

/-- The value of decimal digits, most significant first. -/
def ofDigits (base : Nat) (digits : List Nat) : Nat := digits.foldl (fun n d => n * base + d) 0

/-- The value of a character as a digit of a base up to 36. -/
def digitValue? (base : Nat) (c : Char) : Option Nat :=
  let value :=
    if c.isDigit then c.toNat - '0'.toNat
    else if 'a' ≤ c && c ≤ 'z' then c.toNat - 'a'.toNat + 10
    else if 'A' ≤ c && c ≤ 'Z' then c.toNat - 'A'.toNat + 10
    else 36
  if value < base then some value else none

def readDigits? (base : Nat) (cs : List Char) : Option Nat :=
  if cs.isEmpty then none else (cs.mapM (digitValue? base)).map (ofDigits base)

/-- An optional sign and the rest; `true` for a minus. -/
def splitSign : List Char → Bool × List Char
  | '-' :: rest => (true, rest)
  | '+' :: rest => (false, rest)
  | rest => (false, rest)

/-- An optional sign and one or more digits. -/
def readExponent? (cs : List Char) : Option Int :=
  let (negative, digits) := splitSign cs
  (readDigits? 10 digits).map fun n => if negative then -(n : Int) else n

/-- Digits with an optional point, at least one digit in all, and an optional exponent after `e` or
`E`; no sign. -/
def readUnsigned? (negative : Bool) (cs : List Char) : Option Number :=
  let whole := cs.takeWhile Char.isDigit
  let afterWhole := cs.dropWhile Char.isDigit
  let (fraction, afterFraction) :=
    match afterWhole with
    | '.' :: rest => (rest.takeWhile Char.isDigit, rest.dropWhile Char.isDigit)
    | rest => ([], rest)
  match readDigits? 10 (whole ++ fraction) with
  | none => none
  | some digits =>
    match afterFraction with
    | [] => some (ofDecimal negative digits (-(fraction.length : Int)))
    | c :: rest =>
      if c = 'e' ∨ c = 'E' then
        (readExponent? rest).map fun e => ofDecimal negative digits (e - fraction.length)
      else none

def readDecimal? (cs : List Char) : Option Number :=
  let (negative, rest) := splitSign cs
  readUnsigned? negative rest

/-- A decimal number, or a name for infinity or `nan` in any case, with an optional sign. -/
def read? (s : String) : Option Number :=
  let (negative, rest) := splitSign s.toList
  let name := rest.map Char.toLower
  if name = "inf".toList ∨ name = "infinity".toList then some (.infinity negative)
  else if name = "nan".toList then some .nan
  else readUnsigned? negative rest

end Number
end BlockScript
