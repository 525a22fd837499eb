import BlockScript.Number.Decimal

/-!
JSON values. Whole-number tokens that fit 64 bits stay whole and all others are doubles. An object
keeps its members in order with repetitions, since readers differ in what a repeated key means. The
value `unreadable` stands for a token that the grammar allows and that denotes nothing: a number
beyond the doubles, or a text with half of a surrogate pair. A container that cannot be read to its
end is `cut`: what stands before the first fault is kept, since readers act on it in order.
-/
namespace BlockScript

/-- The number of a JSON token. -/
inductive JsonNumber where
  | whole (n : Int)
  | real (x : Number)
  deriving DecidableEq

def JsonNumber.toNumber : JsonNumber → Number
  | .whole n => Number.ofInt n
  | .real x => x

/-- A value as it is read from a text, with the places at which it cannot be read. -/
inductive Json where
  | null
  | bool (b : Bool)
  | number (n : JsonNumber)
  | text (s : String)
  | array (items : List Json)
  | object (members : List (String × Json))
  | unreadable
  /-- The readable beginning of an array or object. -/
  | cut (beginning : Json)

namespace Json

/-- The value of the last member with a key. -/
def lookup? (key : String) (members : List (String × Json)) : Option Json :=
  (members.reverse.find? (·.1 == key)).map (·.2)

/-- The members without those that a later member with the same key replaces. -/
def lastMembers {α : Type} : List (String × α) → List (String × α)
  | [] => []
  | m :: rest => if rest.any (·.1 == m.1) then lastMembers rest else m :: lastMembers rest

mutual
/-- Every token denotes a value and containers nest at most `room` deep. -/
def isReadable (room : Nat) : Json → Bool
  | .unreadable => false
  | .cut _ => false
  | .array items => match room with
    | 0 => false
    | room + 1 => allReadable room items
  | .object members => match room with
    | 0 => false
    | room + 1 => membersReadable room members
  | _ => true
/-- All items are readable in the room left. -/
def allReadable (room : Nat) : List Json → Bool
  | [] => true
  | j :: rest => isReadable room j && allReadable room rest
/-- All member values are readable in the room left. -/
def membersReadable (room : Nat) : List (String × Json) → Bool
  | [] => true
  | (_, j) :: rest => isReadable room j && membersReadable room rest
end

/-- How deep containers may nest. -/
def maxDepth : Nat := 127

end Json
end BlockScript
