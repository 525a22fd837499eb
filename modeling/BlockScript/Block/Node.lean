import BlockScript.Block.Input

/-!
Nodes of the block dictionary: an operation code, the id of the next block, inputs and fields.
-/
namespace BlockScript

/-- A value fixed in the block, with the id of what it names if it names something. -/
structure Field where
  value : String
  id : Option String
  deriving DecidableEq

/-- The value, then an optional id, then anything. -/
def Field.ofJson? : Json → Option Field
  | .array [] => some ⟨"", none⟩
  | .array [value] => value.value?.map fun v => ⟨v.toText, none⟩
  | .array (value :: id :: _) => do
    let v ← value.value?
    let i ← Json.optional? Json.string? id
    return ⟨v.toText, i⟩
  | _ => none

/-- A block as it is stored. -/
structure BlockNode where
  opcode : String
  next : Option String
  parent : Option String
  inputs : List (String × Input)
  fields : List (String × Field)
  shadow : Bool
  topLevel : Bool
  deriving DecidableEq

namespace BlockNode

def input? (n : BlockNode) (name : String) : Option Input := n.inputs.lookup name

def field? (n : BlockNode) (name : String) : Option Field := n.fields.lookup name

/-- The next block of a chain; an empty id ends it as an absent one does. -/
def follower (n : BlockNode) : Option String := n.next.filter (· != "")

/-- A map in which only the last member of a repeated key is looked at. -/
def lastOf? {α : Type} (decode : Json → Option α) (j : Json) : Option (List (String × α)) :=
  j.object?.bind fun ms => (Json.lastMembers ms).mapM fun m => (decode m.2).map fun a => (m.1, a)

/-- Only the operation code is required; of a repeated key the last member counts. -/
def ofJson? : Json → Option BlockNode
  | .object members => do
    let fields := fun name => Json.lookup? name members
    let opcode ← Json.required? fields "opcode" Json.string?
    let next ← Json.defaulted? fields "next" none (Json.optional? Json.string?)
    let parent ← Json.defaulted? fields "parent" none (Json.optional? Json.string?)
    let inputs ← Json.defaulted? fields "inputs" [] (lastOf? Input.ofJson?)
    let fixed ← Json.defaulted? fields "fields" [] (lastOf? Field.ofJson?)
    let shadow ← Json.defaulted? fields "shadow" false Json.bool?
    let topLevel ← Json.defaulted? fields "topLevel" false Json.bool?
    return { opcode, next, parent, inputs, fields := fixed, shadow, topLevel }
  | _ => none

end BlockNode
end BlockScript
