import BlockScript.Block.Graph
import BlockScript.Block.Tree

/-!
Construction of blocks: what can go wrong, and the log that a construction leaves whether or not it
succeeds.
-/
namespace BlockScript

/-- Where a block is used. -/
inductive BlockPosition where
  | statement | reporter
  deriving DecidableEq

def BlockPosition.name : BlockPosition → String
  | .statement => "statement"
  | .reporter => "reporter"

/-- Why a block cannot be built. -/
inductive BuildError where
  | missingBlock (id : String)
  | unknownOpcode (id opcode : String) (position : BlockPosition)
  | missingField (id field : String)
  | unsupportedField (id field value : String)
  | expectedPredicate (id input : String)
  | tooDeep (id : String)
  deriving DecidableEq

def BuildError.message : BuildError → String
  | .missingBlock id => s!"block `{id}` does not exist"
  | .unknownOpcode id opcode position =>
    let use := position.name
    s!"op-code `{opcode}` of block `{id}` is not a known {use}"
  | .missingField id field => s!"block `{id}` has no field `{field}`"
  | .unsupportedField id field value =>
    s!"field `{field}` of block `{id}` has unsupported value `{value}`"
  | .expectedPredicate id input => s!"input `{input}` of block `{id}` must be a boolean block"
  | .tooDeep id => s!"block nesting under `{id}` is too deep"

/-- Ways of construction: they go on from results, fail and log. -/
class MonadBuild (m : Type → Type) extends Monad m where
  fail {α : Type} (e : BuildError) : m α
  note (r : LogRecord) : m Unit

/-- The outcome of a construction and the records it logged, in order. -/
structure Build (α : Type) where
  outcome : Except BuildError α
  logs : List LogRecord

namespace Build

variable {α β : Type}

def done (a : α) : Build α := ⟨.ok a, []⟩

def fail (e : BuildError) : Build α := ⟨.error e, []⟩

def note (r : LogRecord) : Build Unit := ⟨.ok (), [r]⟩

/-- Goes on with the result, if there is one; the records of both parts are kept. -/
def andThen (b : Build α) (f : α → Build β) : Build β :=
  match b.outcome with
  | .ok a => ⟨(f a).outcome, b.logs ++ (f a).logs⟩
  | .error e => ⟨.error e, b.logs⟩

instance : MonadBuild Build where
  pure := done
  bind := andThen
  fail := fail
  note := note

end Build

/-- A block to be built: its id, its operation code as registered, and its node. -/
structure BlockSpec where
  id : String
  opcode : String
  node : BlockNode

/-- How a block under construction reaches the blocks it refers to. -/
structure PartsIn (m : Type → Type) where
  reporter : String → m (Reporter Unit)
  body : String → m (List (Action Unit))

/-- The same, where construction keeps no counter. -/
abbrev Parts := PartsIn Build

namespace BlockSpec

variable {m : Type → Type} [MonadBuild m]

/-- A value input. A missing or empty one is nothing, and a broadcast is its name. -/
def operand (spec : BlockSpec) (reporter : String → m (Reporter Unit)) (name : String) : m (Operand Unit) :=
  match spec.node.input? name with
  | none => pure (.constant .empty)
  | some .empty => pure (.constant .empty)
  | some (.literal v) => pure (.constant v)
  | some (.broadcast ref) => pure (.constant (.text ref.name))
  | some (.variable ref) => pure (.source (.variable ref) ())
  | some (.list ref) => pure (.source (.listContents ref) ())
  | some (.block id) => do
    let r ← reporter id
    return r.toOperand

/-- A truth input. Only predicates fit. -/
def condition (spec : BlockSpec) (reporter : String → m (Reporter Unit)) (name : String) : m (Predicate Unit) :=
  match spec.node.input? name with
  | none => pure .absent
  | some .empty => pure .absent
  | some (.block id) => do
    match ← reporter id with
    | .predicate p => pure p
    | .value _ => MonadBuild.fail (.expectedPredicate spec.id name)
  | some _ => MonadBuild.fail (.expectedPredicate spec.id name)

/-- A nested body. A missing or empty one has no blocks, and so has, with a warning, one that is not
given by a block. -/
def body (spec : BlockSpec) (build : String → m (List (Action Unit))) (name : String) : m (List (Action Unit)) :=
  match spec.node.input? name with
  | some (.block start) => build start
  | none => pure []
  | some .empty => pure []
  | some _ => do
    let id := spec.id
    MonadBuild.note (.warn s!"block `{id}` has a non-block `{name}` input")
    return []

def field (spec : BlockSpec) (name : String) : m Field :=
  match spec.node.field? name with
  | some f => pure f
  | none => MonadBuild.fail (.missingField spec.id name)

/-- A field that names a variable or a list. -/
def reference (spec : BlockSpec) (name : String) : m Ref := do
  let f ← spec.field name
  return ⟨f.value, f.id.getD ""⟩

end BlockSpec
end BlockScript
