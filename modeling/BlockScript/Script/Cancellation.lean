/-!
Cancellation scopes under names. A scope that was cancelled stays so. Waiting for a scope ends when
it is cancelled or after a while. A cancellation can be put off: whoever waits meanwhile may see it
come, and it happens in any case before the next step.
-/
namespace BlockScript

/-- Scopes under names, and which of them are cancelled. -/
structure ScopeWorkspace where
  fresh : Nat
  names : List (String × Nat)
  cancelled : List Nat

/-- What can be asked of scopes. -/
inductive ScopeStep where
  | new (name : String)
  | clone (name of : String)
  | cancel (name : String)
  | same (a b : String)
  | wait (name : String)
  /-- Waits while a scope is to be cancelled soon. -/
  | waitCancel (name victim : String)

/-- What is answered. -/
inductive ScopeAnswer where
  | nothing
  | truth (b : Bool)
  | cancelled
  | timeout

namespace ScopeWorkspace

/-- How long a wait lasts at most, in milliseconds. -/
def patience : Nat := 50

/-- How long a cancellation is put off, in milliseconds. -/
def delay : Nat := 20

def empty : ScopeWorkspace := ⟨0, [], []⟩

def scope? (w : ScopeWorkspace) (name : String) : Option Nat := w.names.lookup name

def isCancelled (w : ScopeWorkspace) (scope : Nat) : Bool := w.cancelled.contains scope

def cancel (w : ScopeWorkspace) (scope : Nat) : ScopeWorkspace :=
  { w with cancelled := if w.isCancelled scope then w.cancelled else scope :: w.cancelled }

def bind (w : ScopeWorkspace) (name : String) (scope : Nat) : ScopeWorkspace :=
  { w with names := (name, scope) :: w.names.filter (·.1 != name) }

/-- How many milliseconds from now a scope is cancelled, if it is or will be; `victim` is the scope
whose cancellation was put off. -/
def cancelTime? (w : ScopeWorkspace) (victim : Option Nat) (scope : Nat) : Option Nat :=
  if w.isCancelled scope then some 0
  else if victim = some scope then some delay
  else none

def waitFor (w : ScopeWorkspace) (victim : Option Nat) (scope : Nat) : ScopeAnswer :=
  match (w.cancelTime? victim scope).filter (· < patience) with
  | some _ => .cancelled
  | none => .timeout

/-- The workspace after a step and its answer; nothing if the step names what is not there. -/
def perform (w : ScopeWorkspace) : ScopeStep → Option (ScopeWorkspace × ScopeAnswer)
  | .new name => some ({ w with fresh := w.fresh + 1 }.bind name w.fresh, .nothing)
  | .clone name of => (w.scope? of).map fun scope => (w.bind name scope, .nothing)
  | .cancel name => (w.scope? name).map fun scope => (w.cancel scope, .nothing)
  | .same a b => do
    let x ← w.scope? a
    let y ← w.scope? b
    return (w, .truth (x == y))
  | .wait name => (w.scope? name).map fun scope => (w, w.waitFor none scope)
  | .waitCancel name victim => do
    let scope ← w.scope? name
    let other ← w.scope? victim
    return (w.cancel other, w.waitFor (some other) scope)

/-- Each name with the state of its scope. -/
def states (w : ScopeWorkspace) : List (String × Bool) := w.names.map fun n => (n.1, w.isCancelled n.2)

end ScopeWorkspace
end BlockScript
