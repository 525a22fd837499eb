import BlockScript.Block.Node
import BlockScript.Json.Reader
import BlockScript.Log

/-!
Block dictionaries. A dictionary is read entry by entry: loose reporters, stored as arrays, are left
out silently, and an entry that is no block is left out with a warning, so one damaged entry does no
harm to the others. A chain is what following `next` from a block meets.
-/
namespace BlockScript

/-- A dictionary of blocks under their ids. -/
structure BlockGraph where
  nodes : List (String × BlockNode)
  deriving DecidableEq

namespace BlockGraph

def empty : BlockGraph := ⟨[]⟩

def get? (g : BlockGraph) (id : String) : Option BlockNode := g.nodes.lookup id

def size (g : BlockGraph) : Nat := g.nodes.length

def isEmpty (g : BlockGraph) : Bool := g.nodes.isEmpty

/-- Ids of top-level blocks with an operation code, in order of code points. -/
def topLevel (g : BlockGraph) (opcode : String) : List String :=
  sortTexts ((g.nodes.filter fun n => n.2.topLevel && n.2.opcode == opcode).map (·.1))

/-! ### Reading -/

/-- The warning for an entry that is no block. -/
def malformedWarning (id : String) : LogRecord := .warn s!"skipping malformed block `{id}`"

/-- The node of an entry, if it has one. -/
def nodeOf? (entry : String × Json) : Option (String × BlockNode) :=
  match entry.2 with
  | .array _ => none
  | j => (BlockNode.ofJson? j).map fun n => (entry.1, n)

/-- The warning of an entry, if it needs one. -/
def warningOf? (entry : String × Json) : Option LogRecord :=
  match entry.2 with
  | .array _ => none
  | j => if (BlockNode.ofJson? j).isNone then some (malformedWarning entry.1) else none

/-- The blocks of a dictionary and the warnings for the rest. -/
def ofMembers (members : List (String × Json)) : BlockGraph × List LogRecord :=
  let entries := Json.lastMembers members
  (⟨entries.filterMap nodeOf?⟩, entries.filterMap warningOf?)

def ofJson? (j : Json) : Option (BlockGraph × List LogRecord) := j.object?.map ofMembers

def ofText? (s : String) : Option (BlockGraph × List LogRecord) := (Json.read? s).bind ofJson?

/-! ### Chains -/

/-- Why a chain ends. -/
inductive ChainEnd where
  | done
  | missing (id : String)
  | loops (id : String)
  deriving DecidableEq

/-- Follows `next` through at most `room` blocks that have not been `seen`. A chain that has met every
block can only end, loop or miss. -/
def chainFrom (g : BlockGraph) : (room : Nat) → (seen : List String) → Option String → List String × ChainEnd
  | _, _, none => ([], .done)
  | room, seen, some id =>
    if seen.contains id then ([], .loops id)
    else match room, g.get? id with
      | room + 1, some node =>
        let (ids, ending) := chainFrom g room (id :: seen) node.follower
        (id :: ids, ending)
      | _, _ => ([], .missing id)

/-- The ids met from a start, and why the chain ends. -/
def chain (g : BlockGraph) (start : Option String) : List String × ChainEnd :=
  chainFrom g g.size [] start

end BlockGraph
end BlockScript
