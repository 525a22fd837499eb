import BlockScript.Build.Builder

/-!
Tables of blocks on their own, for registering blocks under further operation codes and building with
them.
-/
namespace BlockScript

/-- One of the two tables. -/
inductive TableName where
  | actions | reporters
  deriving DecidableEq

/-- What can be asked of registries. -/
inductive RegistryStep where
  | registerBuiltin
  /-- Registers operation codes for the kind of block that a built-in code of the same table has. -/
  | register (table : TableName) (opcodes : List String) (like : String)
  | resolve (table : TableName) (opcode : String)
  | listing (table : TableName)
  | build (graph : BlockGraph) (start : Option String)

/-- What registries answer. -/
inductive RegistryAnswer where
  | registered (outcome : Except RegistryError Unit)
  | resolved (opcode : Option String)
  | listing (text : String)
  | built (opcodes : List String) (logs : List LogRecord)

namespace Registries

/-- The tables after a step and its answer; nothing if the step names no built-in code. -/
def perform (r : Registries) : RegistryStep → Option (Registries × RegistryAnswer)
  | .registerBuiltin =>
    let (r, outcome) := r.registerAll catalog
    some (r, .registered outcome)
  | .register .actions opcodes like => do
    let (_, kind) ← builtin.actions.resolve? like
    let (r, outcome) := r.registerAction opcodes kind
    return (r, .registered outcome)
  | .register .reporters opcodes like => do
    let (_, kind) ← builtin.reporters.resolve? like
    let (r, outcome) := r.registerReporter opcodes kind
    return (r, .registered outcome)
  | .resolve .actions opcode => some (r, .resolved ((r.actions.resolve? opcode).map (·.1)))
  | .resolve .reporters opcode => some (r, .resolved ((r.reporters.resolve? opcode).map (·.1)))
  | .listing .actions => some (r, .listing r.actions.listing)
  | .listing .reporters => some (r, .listing r.reporters.listing)
  | .build graph start =>
    let (body, logs) := (Builder.mk graph r).substack start
    some (r, .built (body.map Action.opcode) logs)

end Registries
end BlockScript
