import BlockScript.Number.Decimal
import BlockScript.Text.Blank
import BlockScript.Text.LowerCase

/-!
Values of scripts: a number, a text, a truth value, or nothing. Blocks read a value as whatever they
need, so every value has a numeric reading, a text and a truth reading. Two values compare as numbers
when both have a numeric reading and as texts otherwise; a truth value always compares as text,
letter case apart.
-/
namespace BlockScript

/-- What blocks report and variables hold. -/
inductive Value where
  | number (x : Number)
  | text (s : String)
  | boolean (b : Bool)
  | empty
  deriving DecidableEq, Inhabited

/-! ### Numbers in texts -/

/-- A 64-bit whole number in the given base: an optional sign and one or more digits, within the
range of signed 64-bit numbers. -/
def readInt64? (base : Nat) (cs : List Char) : Option Int :=
  let (negative, digits) := Number.splitSign cs
  match Number.readDigits? base digits with
  | none => none
  | some n =>
    let v : Int := if negative then -(n : Int) else n
    if -(twoPow 63 : Int) ≤ v ∧ v < twoPow 63 then some v else none

/-- The base named by the mark that starts a whole number, and what follows the mark. -/
def splitRadix? : List Char → Option (Nat × List Char)
  | '0' :: 'x' :: rest => some (16, rest)
  | '0' :: 'X' :: rest => some (16, rest)
  | '0' :: 'b' :: rest => some (2, rest)
  | '0' :: 'B' :: rest => some (2, rest)
  | '0' :: 'o' :: rest => some (8, rest)
  | '0' :: 'O' :: rest => some (8, rest)
  | _ => none

/-- Letters other than the exponent mark, which no decimal number has. -/
def isForeignLetter (c : Char) : Bool := c.isAlpha && c != 'e' && c != 'E'

def readTrimmed? (cs : List Char) : Option Number :=
  let (negative, unsigned) := Number.splitSign cs
  if unsigned = "Infinity".toList then some (.infinity negative)
  else
    match splitRadix? unsigned with
    | some (base, digits) =>
      (readInt64? base digits).map fun v => if negative then -Number.ofInt v else Number.ofInt v
    | none => if cs.any isForeignLetter then none else Number.readDecimal? cs

/-- The number a text spells, blanks at the ends apart: a decimal number, a signed 64-bit number in
base 16, 8 or 2, or `Infinity`. -/
def readNumber? (s : String) : Option Number := readTrimmed? (Text.trim s.toList)

namespace Value

/-! ### Readings -/

/-- The number that arithmetic sees; what is no number reads as zero. -/
def toNumber : Value → Number
  | .number .nan => 0
  | .number x => x
  | .text s => (readNumber? s).getD 0
  | .boolean b => if b then 1 else 0
  | .empty => 0

/-- The numeric reading that comparisons use, if there is one. -/
def number? : Value → Option Number
  | .number .nan => none
  | .number x => some x
  | .text s => readNumber? s
  | .boolean _ => none
  | .empty => none

def toText : Value → String
  | .number x => x.text
  | .text s => s
  | .boolean b => if b then "True" else "False"
  | .empty => ""

/-- The truth reading: zero, `nan`, nothing, no text and the texts `0` and `false` are false. -/
def toBool : Value → Bool
  | .number x => !x.eqv 0 && !x.isNaN
  | .text s => !(s.isEmpty || s == "0" || s.toList.map Char.toLower == "false".toList)
  | .boolean b => b
  | .empty => false

/-- Whether a value is spelled as a whole number; any text without a point is. -/
def isInt : Value → Bool
  | .number x => x.isWhole
  | .text s => !s.toList.contains '.'
  | .boolean _ => true
  | .empty => true

def isEmpty : Value → Bool
  | .empty => true
  | _ => false

def isBoolean : Value → Bool
  | .boolean _ => true
  | _ => false

/-- The literal of a numeric slot: a text that spells a number becomes it, any other text stays. -/
def numericLiteral : Value → Value
  | .text s => match readNumber? s with
    | some x => .number x
    | none => .text s
  | v => v

/-! ### Comparison -/

/-- The order of two texts, by code points. -/
def orderTexts (a b : String) : Ordering := if a < b then .lt else if b < a then .gt else .eq

/-- Equality as blocks see it. -/
def equals (a b : Value) : Bool :=
  if a.isBoolean || b.isBoolean then Text.lower a.toText == Text.lower b.toText
  else match a.number?, b.number? with
    | some x, some y => x.eqv y
    | _, _ => a.toText == b.toText

/-- The order that blocks see; nothing comes before everything else. -/
def order (a b : Value) : Ordering :=
  match a.isEmpty, b.isEmpty with
  | true, true => .eq
  | true, false => .lt
  | false, true => .gt
  | false, false =>
    if a.isBoolean || b.isBoolean then orderTexts (Text.lower a.toText) (Text.lower b.toText)
    else match a.number?, b.number? with
      | some x, some y => (x.order? y).getD .eq
      | _, _ => orderTexts a.toText b.toText

/-- Same kind and same content: numbers compare numerically and `nan` differs from itself. -/
def same : Value → Value → Bool
  | .number x, .number y => x.eqv y
  | .text s, .text t => s == t
  | .boolean b, .boolean c => b == c
  | .empty, .empty => true
  | _, _ => false

end Value
end BlockScript
