import BlockScript.Json.Decode

/-!
Inputs of blocks. An input is stored as an array: a number that tells whether a shadow is shown, then
slots. The first slot that is not null decides: a text names a block, and a nested array is a literal
or a reference, told apart by its leading kind.
-/
namespace BlockScript

/-- A name with the id it had when the project was saved. -/
structure Ref where
  name : String
  id : String
  deriving DecidableEq

/-- A reference as log messages show it. -/
def Ref.text (r : Ref) : String := r.name ++ " (" ++ r.id ++ ")"

/-- What an input of a block holds. -/
inductive Input where
  | block (id : String)
  | literal (v : Value)
  | broadcast (ref : Ref)
  | variable (ref : Ref)
  | list (ref : Ref)
  | empty
  deriving DecidableEq

/-- A slot of an input that is not null. -/
inductive Slot where
  | block (id : String)
  | primitive (values : List Value)

namespace Slot

def ofJson? : Json → Option Slot
  | .text id => some (.block id)
  | .array items => (items.mapM Json.value?).map .primitive
  | _ => none

/-- Name and id of a reference, which must both be there. -/
def reference? : List Value → Option Ref
  | name :: id :: _ => some ⟨name.toText, id.toText⟩
  | _ => none

/-- What a slot holds. Kinds 4 to 8 are numeric literals, 9 and 10 other literals, 11 a broadcast,
12 a variable and 13 a list. -/
def input? : Slot → Option Input
  | .block id => some (.block id)
  | .primitive [] => none
  | .primitive (kind :: rest) =>
    let k := kind.toNumber.toInt32
    if 4 ≤ k ∧ k ≤ 8 then some (.literal (rest.head?.getD .empty).numericLiteral)
    else if k = 9 ∨ k = 10 then some (.literal (rest.head?.getD .empty))
    else if k = 11 then (reference? rest).map .broadcast
    else if k = 12 then (reference? rest).map .variable
    else if k = 13 then (reference? rest).map .list
    else none

end Slot

namespace Input

/-- The first slot that is not null decides. -/
def ofSlots? : List (Option Slot) → Option Input
  | [] => some .empty
  | none :: rest => ofSlots? rest
  | some slot :: _ => slot.input?

/-- All slots have to be well formed, also those that do not count. -/
def ofJson? : Json → Option Input
  | .array [] => some .empty
  | .array (shadow :: slots) => do
    let _ ← shadow.int32?
    ofSlots? (← slots.mapM (Json.optional? Slot.ofJson?))
  | _ => none

end Input
end BlockScript
