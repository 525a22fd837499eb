import BlockScript.Scene.ItemList

/-!
A list on its own, for trying out edits. Every accepted edit is announced once.
-/
namespace BlockScript

/-- A list on its own, with its limit. -/
structure ListBench where
  items : List Value
  limit : Nat
  /-- How many changes were announced. -/
  changes : Nat

/-- What can be asked of a list. -/
inductive ListStep where
  | edit (e : ListEdit)
  | get (index : Nat)
  | contents
  | size

/-- What a list answers. -/
inductive ListAnswer where
  | nothing
  | accepted (b : Bool)
  | item (v : Option Value)
  | text (s : String)
  | size (n : Nat)

namespace ListBench

/-- What an edit answers: a removal the item, a clearing nothing, others whether they were accepted. -/
def editAnswer (e : ListEdit) (outcome : Option (List Value × Option Value)) : ListAnswer :=
  match e with
  | .remove _ => .item (outcome.bind (·.2))
  | .clear => .nothing
  | _ => .accepted outcome.isSome

def perform (b : ListBench) : ListStep → ListBench × ListAnswer
  | .edit e =>
    let outcome := e.apply b.limit b.items
    let after := match outcome with
      | some (items, _) => { b with items, changes := b.changes + 1 }
      | none => b
    (after, editAnswer e outcome)
  | .get index => (b, .item (itemAt? b.items index))
  | .contents => (b, .text (listContents b.items))
  | .size => (b, .size b.items.length)

end ListBench
end BlockScript
