import BlockScript.Number.Elementary
import BlockScript.Value

/-!
What operators compute from the values of their operands.
-/
namespace BlockScript

/-! ### Arithmetic -/

/-- The four operations on numbers and the remainder. -/
inductive ArithmeticOp where
  | add | subtract | multiply | divide | modulo
  deriving DecidableEq

/-- The remainder with the sign of the divisor, from the one with the sign of the dividend. -/
def Number.modulo (x y : Number) : Number :=
  let r := x % y
  if r / y < 0 then r + y else r

def ArithmeticOp.apply : ArithmeticOp → Number → Number → Number
  | .add, x, y => x + y
  | .subtract, x, y => x - y
  | .multiply, x, y => x * y
  | .divide, x, y => x / y
  | .modulo, x, y => x.modulo y

/-- The functions of one number that a block can be set to. -/
inductive MathFunction where
  | abs | floor | ceiling | sqrt | sin | cos | tan | asin | acos | atan | ln | log | exp | pow10
  deriving DecidableEq

namespace MathFunction

def ofName? : String → Option MathFunction
  | "abs" => some .abs
  | "floor" => some .floor
  | "ceiling" => some .ceiling
  | "sqrt" => some .sqrt
  | "sin" => some .sin
  | "cos" => some .cos
  | "tan" => some .tan
  | "asin" => some .asin
  | "acos" => some .acos
  | "atan" => some .atan
  | "ln" => some .ln
  | "log" => some .log
  | "e ^" => some .exp
  | "10 ^" => some .pow10
  | _ => none

/-- Angles are in degrees; sine, cosine and tangent are rounded to ten places. -/
def apply : MathFunction → Number → Number
  | .abs, x => x.abs
  | .floor, x => x.floor
  | .ceiling, x => x.ceil
  | .sqrt, x => x.sqrt
  | .sin, x => x.toRadians.sin.tenPlaces
  | .cos, x => x.toRadians.cos.tenPlaces
  | .tan, x => x.tanDegrees
  | .asin, x => x.asin.toDegrees
  | .acos, x => x.acos.toDegrees
  | .atan, x => x.atan.toDegrees
  | .ln, x => x.ln
  | .log, x => x.log10
  | .exp, x => x.exp
  | .pow10, x => x.pow10

end MathFunction

/-! ### Operators of one and two operands -/

/-- What reporters do with one value. -/
inductive Unary where
  | round
  | math (f : MathFunction)
  | length
  deriving DecidableEq

/-- How many characters the text of a value has. -/
def Value.textLength (v : Value) : Nat := v.toText.length

def Unary.apply : Unary → Value → Value
  | .round, v => .number v.toNumber.roundHalfUp
  | .math f, v => .number (f.apply v.toNumber)
  | .length, v => .number (.ofNat v.textLength)

def Unary.opcode : Unary → String
  | .round => "operator_round"
  | .math _ => "operator_mathop"
  | .length => "operator_length"

/-- The character at a position counted from one, fractions dropped, or no text outside. -/
def letterOf (position : Number) (s : String) : String :=
  let index := position - 1
  if index < 0 then ""
  else match s.toList[index.toNat64]? with
    | some c => String.ofList [c]
    | none => ""

/-- What reporters do with two values. -/
inductive Binary where
  | arithmetic (op : ArithmeticOp) (opcode : String)
  | join
  | letterOf
  deriving DecidableEq

def Binary.apply : Binary → Value → Value → Value
  | .arithmetic op _, a, b => .number (op.apply a.toNumber b.toNumber)
  | .join, a, b => .text (a.toText ++ b.toText)
  | .letterOf, a, b => .text (BlockScript.letterOf a.toNumber b.toText)

def Binary.opcode : Binary → String
  | .arithmetic _ opcode => opcode
  | .join => "operator_join"
  | .letterOf => "operator_letter_of"

/-! ### Comparisons -/

/-- How two values can compare. -/
inductive Relation where
  | greater | less | equal
  deriving DecidableEq

def Relation.holds : Relation → Value → Value → Bool
  | .greater, a, b => a.order b == .gt
  | .less, a, b => a.order b == .lt
  | .equal, a, b => a.equals b

/-- Whether one list of characters stands somewhere in another. -/
def hasInfix (needle : List Char) : List Char → Bool
  | [] => needle.isEmpty
  | c :: rest => needle.isPrefixOf (c :: rest) || hasInfix needle rest

/-- Whether the lower-case text of the second value stands in that of the first. -/
def Value.containsText (a b : Value) : Bool :=
  hasInfix (Text.lower b.toText).toList (Text.lower a.toText).toList

/-- What conditions ask of two values. -/
inductive Comparison where
  | relation (r : Relation) (opcode : String)
  | contains
  deriving DecidableEq

def Comparison.holds : Comparison → Value → Value → Bool
  | .relation r _, a, b => r.holds a b
  | .contains, a, b => a.containsText b

def Comparison.opcode : Comparison → String
  | .relation _ opcode => opcode
  | .contains => "operator_contains"

/-- How two conditions are connected. -/
inductive Connective where
  | and | or
  deriving DecidableEq

/-! ### Random numbers -/

/-- A number between two bounds, both included, from a 64-bit draw. Bounds that are spelled as whole
numbers within 64 bits give a whole number; other bounds are mixed in proportion to the draw. -/
def pickRandom (a b : Value) (draw : Nat) : Number :=
  let x := a.toNumber
  let y := b.toNumber
  let (low, high) := if x ≤ y then (x, y) else (y, x)
  if low.eqv high || !(low.isFinite && high.isFinite) then low
  else if a.isInt && b.isInt && Number.ofInt (-(twoPow 63 : Int)) ≤ low && high ≤ Number.ofInt ((twoPow 63 : Int) - 1) then
    let first := low.toInt64
    let choices := (high.toInt64 - first + 1).toNat
    Number.ofInt (first + (draw % choices : Nat))
  else
    let t := Number.ofNat (draw % twoPow 64 / twoPow 11) / Number.ofNat (twoPow 53)
    (low * (1 - t) + high * t).clamp low high

end BlockScript
