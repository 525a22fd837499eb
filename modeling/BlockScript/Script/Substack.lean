import BlockScript.Script.Failure

/-!
Substacks: lists of blocks that can be edited until they are frozen, which execution does at the
latest. Execution runs the blocks in order; a failing block is logged and does not keep the later
ones from running, and a cancelled scope stops the run before the next block.
-/
namespace BlockScript

/-- Why an edit of a substack is refused. -/
inductive SubstackError where
  | notEditable
  | outOfBounds (index len : Nat)
  deriving DecidableEq

def SubstackError.message : SubstackError → String
  | .notEditable => "substack is frozen and no longer editable"
  | .outOfBounds index len => s!"index {index} is out of bounds for a substack of {len} blocks"

/-- A sequence of blocks, which can be edited until it is frozen. -/
structure Substack (α : Type) where
  blocks : List α
  isFrozen : Bool

namespace Substack

variable {α σ : Type}

def empty : Substack α := ⟨[], false⟩

def frozen (blocks : List α) : Substack α := ⟨blocks, true⟩

def size (s : Substack α) : Nat := s.blocks.length

def push (s : Substack α) (block : α) : Except SubstackError (Substack α) :=
  if s.isFrozen then .error .notEditable else .ok { s with blocks := s.blocks ++ [block] }

def insert (s : Substack α) (index : Nat) (block : α) : Except SubstackError (Substack α) :=
  if s.isFrozen then .error .notEditable
  else if index ≤ s.size then
    .ok { s with blocks := s.blocks.take index ++ block :: s.blocks.drop index }
  else .error (.outOfBounds index s.size)

/-- The substack without a block, and that block. -/
def remove (s : Substack α) (index : Nat) : Except SubstackError (Substack α × α) :=
  if s.isFrozen then .error .notEditable
  else match s.blocks[index]? with
    | some block => .ok ({ s with blocks := s.blocks.eraseIdx index }, block)
    | none => .error (.outOfBounds index s.size)

def freeze (s : Substack α) : Substack α := { s with isFrozen := true }

/-- Runs blocks in order while the scope is not cancelled, with a record for each that fails. -/
def runBlocks (cancelled : σ → Bool) (run : α → σ → σ × Option RunError) (record : α → RunError → LogRecord) :
    List α → σ → σ × List LogRecord
  | [], s => (s, [])
  | block :: rest, s =>
    if cancelled s then (s, [])
    else
      let (s, failure) := run block s
      let (s, records) := runBlocks cancelled run record rest s
      (s, (failure.map (record block)).toList ++ records)

def execute (cancelled : σ → Bool) (run : α → σ → σ × Option RunError) (record : α → RunError → LogRecord)
    (s : Substack α) (state : σ) : Substack α × σ × List LogRecord :=
  let (state, records) := runBlocks cancelled run record s.blocks state
  (s.freeze, state, records)

end Substack
end BlockScript
