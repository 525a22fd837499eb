import BlockScript.Script.Evaluation
import BlockScript.Script.Failure
import BlockScript.Script.Relay
import BlockScript.Scene.Change
import BlockScript.Scene.Motion

/-!
The world that scripts act on: the scene with the traces that evaluation left, a clock, the roster of
scripts that have not ended, and what handlers have told. A script is on the roster from its start to
its end; once it is cancelled it stays so.
-/
namespace BlockScript

/-- A script that has not ended. -/
structure RosterEntry where
  script : Nat
  figure : Nat
  cancelled : Bool
  deriving DecidableEq

/-- All that scripts share. -/
structure World where
  scene : Scene
  traces : Traces
  /-- Milliseconds since the start. -/
  clock : Nat
  /-- In the order of starting. -/
  roster : List RosterEntry
  nextScript : Nat
  nextRelay : Nat
  /-- What handlers told, last first. -/
  signals : List Signal

/-- The script that runs, and its figure. -/
structure Caller where
  script : Nat
  figure : Nat
  deriving DecidableEq

namespace World

def ofScene (scene : Scene) : World where
  scene
  traces := { hub := scene.channels.foldl Hub.openEvent .empty, logs := [], random := ⟨0⟩ }
  clock := 0
  roster := []
  nextScript := 0
  nextRelay := 0
  signals := []

/-! ### Scene -/

def log (w : World) (r : LogRecord) : World := { w with traces := w.traces.log r }

def withHub (w : World) (hub : Hub Channel) : World := { w with traces := { w.traces with hub } }

def raise (w : World) (c : Channel) : World :=
  let (hub, signals) := w.traces.hub.raise c
  { w.withHub hub with signals := signals.reverse ++ w.signals }

def change (w : World) (c : Change) : World := { w with scene := c.apply w.scene }.raise c.channel

/-- Edits a list, unless the edit is refused; tells whether it was accepted. -/
def edit (w : World) (a : Address) (e : ListEdit) : World × Bool :=
  match e.apply w.scene.config.listItemLimit (w.scene.itemsAt a) with
  | some (items, _) => (w.change (.items a items), true)
  | none => (w, false)

/-- Moves a figure, unless the place is not finite. -/
def moveTo (w : World) (figure : Nat) (place : Number × Number) : World :=
  match (w.scene.poseOf figure).moveTo? place.1 place.2 with
  | some pose => w.change (.pose figure pose)
  | none => w

/-- Turns a figure, unless the direction is not finite. -/
def pointTo (w : World) (figure : Nat) (direction : Number) : World :=
  match (w.scene.poseOf figure).pointTo? direction with
  | some pose => w.change (.pose figure pose)
  | none => w

def view (w : World) (figure : Nat) : View := ⟨w.scene, figure⟩

def evaluate {α : Type} (w : World) (figure : Nat) (m : View → Eval α) : α × World :=
  let (a, traces) := m (w.view figure) w.traces
  (a, { w with traces })

/-! ### Roster -/

/-- Whether a script is on the roster and cancelled. -/
def isCancelled (w : World) (script : Nat) : Bool := w.roster.any fun e => e.script == script && e.cancelled

def cancelWhere (w : World) (picks : RosterEntry → Bool) : World :=
  { w with roster := w.roster.map fun e => if picks e then { e with cancelled := true } else e }

def enroll (w : World) (figure : Nat) : World × Nat :=
  ({ w with roster := w.roster ++ [⟨w.nextScript, figure, false⟩], nextScript := w.nextScript + 1 },
    w.nextScript)

/-- Takes a script that ended off the roster. -/
def dismiss (w : World) (script : Nat) : World := { w with roster := w.roster.filter (·.script != script) }

/-- The scripts of a figure that have not ended. -/
def scriptsOn (w : World) (figure : Nat) : List RosterEntry := w.roster.filter (·.figure == figure)

/-! ### Relays -/

/-- Gives out relay numbers and opens the relays. -/
def install {α : Type} (w : World) (m : Numbering α) : World × α × List Nat :=
  let (a, next) := m w.nextRelay
  let relays := (List.range (next - w.nextRelay)).map (w.nextRelay + ·)
  let hub := relays.foldl (fun hub n => hub.openEvent (.relay n)) w.traces.hub
  ({ w.withHub hub with nextRelay := next }, a, relays)

def closeRelays (w : World) (relays : List Nat) : World :=
  w.withHub (relays.foldl (fun hub n => hub.closeRelay (.relay n)) w.traces.hub)

/-! ### Signals -/

/-- How often a waiting script was woken. -/
def wakesOf (w : World) (script : Nat) : Nat := w.signals.count (.wake script)

def clearWakes (w : World) (script : Nat) : World :=
  { w with signals := w.signals.filter (· != .wake script) }

end World

/-- The scripts that a stop block reaches. -/
def StopOption.reaches (option : StopOption) (caller : Caller) (e : RosterEntry) : Bool :=
  match option with
  | .thisScript => e.script == caller.script
  | .otherScripts => e.figure == caller.figure && e.script != caller.script
  | .all => true

end BlockScript
