import BlockScript.Project.Load
import BlockScript.Script.Machine

/-!
Sessions: a loaded project that runs while someone presses the green flag, looks at the figures, writes
to variables and asks reporters.
-/
namespace BlockScript

/-- A reporter that a session holds under a name. -/
structure HeldReporter where
  figure : Nat
  reporter : Reporter Nat
  relays : List Nat

/-- A loaded project in use. -/
structure Session where
  project : Project
  machine : Machine
  /-- The bodies under the green flag, with their figures. -/
  bodies : List (Nat × List (Action Nat))
  reporters : List (String × HeldReporter)
  /-- How many scripts were started so far. -/
  started : Nat

/-- What is seen of a figure. -/
structure FigureState where
  name : String
  isStage : Bool
  /-- How many scripts run on it. -/
  active : Nat
  vars : List (String × Value)
  lists : List (String × List Value)
  pose : Pose
  audio : AudioSettings

def World.figureStates (w : World) : List FigureState :=
  w.scene.figures.mapIdx fun n f =>
    { name := f.name, isStage := f.isStage, active := (w.scriptsOn n).length,
      vars := f.vars.map fun x => (x.id, x.value),
      lists := f.lists.map fun x => (x.id, x.items), pose := f.pose, audio := f.audio }

namespace Session

/-- Installs the bodies of scripts one after the other. -/
def installAll (w : World) : List FlagScript → World × List (Nat × List (Action Nat))
  | [] => (w, [])
  | s :: rest =>
    let (w, body, _) := w.install (Action.installAll s.body)
    let (w, bodies) := installAll w rest
    (w, (s.figure, body) :: bodies)

def ofProject (project : Project) : Session :=
  let (world, bodies) := installAll (.ofScene project.scene) project.scripts
  { project, machine := ⟨world, []⟩, bodies, reporters := [], started := 0 }

def world (s : Session) : World := s.machine.world

def scene (s : Session) : Scene := s.world.scene

def onWorld (s : Session) (f : World → World) : Session := { s with machine := s.machine.onWorld f }

def onMachine (s : Session) (f : Machine → Machine) : Session := { s with machine := f s.machine }

def log (s : Session) (records : List LogRecord) : Session := s.onWorld fun w => records.foldl World.log w

/-! ### Scripts -/

def greenFlag (s : Session) : Session :=
  { s with
    machine := s.bodies.foldl (fun m b => m.start b.1 b.2 []) s.machine,
    started := s.started + s.bodies.length }

/-- Builds a body from the blocks of a figure and starts it there. -/
def start (s : Session) (figure : Nat) (block : Option String) : Session × List String :=
  let (body, logs) := (s.project.builder figure).substack block
  let s := s.log logs
  let (world, installed, relays) := s.world.install (Action.installAll body)
  ({ s with machine := { s.machine with world }.start figure installed relays, started := s.started + 1 },
    body.map Action.opcode)

/-! ### Reporters -/

def reporter? (s : Session) (name : String) : Option HeldReporter := s.reporters.lookup name

def dropReporter (s : Session) (name : String) : Session :=
  match s.reporter? name with
  | none => s
  | some r =>
    { s with reporters := s.reporters.filter (·.1 != name) }.onWorld fun w => w.closeRelays r.relays

/-- Holds a reporter under a name; one that was held there is dropped. -/
def holdReporter (s : Session) (name : String) (figure : Nat) (r : Reporter Unit) : Session :=
  let (world, reporter, relays) := s.world.install r.install
  let s := ({ s with machine := { s.machine with world } }).dropReporter name
  { s with reporters := (name, ⟨figure, reporter, relays⟩) :: s.reporters }

def evaluate {α : Type} (s : Session) (figure : Nat) (m : View → Eval α) : Session × α :=
  let (a, world) := s.world.evaluate figure m
  ({ s with machine := { s.machine with world } }, a)

/-- Subscribes a note to a reporter and holds the subscription under its label; tells whether there is
nothing to subscribe to. -/
def subscribe (s : Session) (r : HeldReporter) (label : String) : Session × Bool :=
  let (hub, links) := s.world.traces.hub.subscribeAll (r.reporter.relays.map .relay) (.note label)
  (s.onWorld (·.withHub (hub.hold label links)), links.isEmpty)

end Session

/-- The value of a reporter; a predicate reports its truth value. -/
def Reporter.eval (v : View) (r : Reporter Nat) : Eval Value := r.toOperand.eval v

end BlockScript
