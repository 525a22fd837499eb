import BlockScript.Log

/-!
What goes wrong while a block runs. A failing block is logged and the next one runs.
-/
namespace BlockScript

/-- Why a block fails. -/
inductive RunError where
  | missingVariable (name id : String)
  | missingList (name id : String)
  | crashed (message : String)
  deriving DecidableEq

def RunError.message : RunError → String
  | .missingVariable name id => s!"variable `{name}` ({id}) not found"
  | .missingList name id => s!"list `{name}` ({id}) not found"
  | .crashed message => s!"block panicked: {message}"

/-- The record of a block that failed on a figure. -/
def RunError.record (figure opcode : String) (e : RunError) : LogRecord :=
  let problem := e.message
  .error s!"[{figure}] {opcode}: {problem}"

end BlockScript
