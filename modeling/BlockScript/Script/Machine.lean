import BlockScript.Script.Thread

/-!
Scripts side by side. Every script that can go on gets a turn in each round, in the order of starting.
The clock stands while some script can go on, and then jumps to the next time a script waits for.
Whoever waits for a time on the clock acts before the scripts that wait for the same time.
-/
namespace BlockScript

/-- The scripts that run and the world they run in. -/
structure Machine where
  world : World
  /-- Scripts that have not ended, in the order of starting. -/
  threads : List Thread

namespace Machine

def onWorld (m : Machine) (f : World → World) : Machine := { m with world := f m.world }

/-! ### Starting and ending -/

/-- Starts a body on a figure; the relays go when it ends. -/
def start (m : Machine) (figure : Nat) (body : List (Action Nat)) (relays : List Nat) : Machine :=
  let (world, script) := m.world.enroll figure
  { world, threads := m.threads ++ [⟨⟨script, figure⟩, [.blocks body], .ready, relays⟩] }

def finishThread (m : Machine) (t : Thread) : Machine :=
  { world := (m.world.dismiss t.caller.script).closeRelays t.relays,
    threads := m.threads.filter (·.caller.script != t.caller.script) }

/-- What a script has left to do after a turn. -/
def putThread (m : Machine) (script : Nat) (frames : List Frame) (pause : Pause) : Machine :=
  { m with threads := m.threads.map fun t => if t.caller.script = script then { t with frames, pause } else t }

/-! ### Turns -/

def thread? (m : Machine) (script : Nat) : Option Thread := m.threads.find? (·.caller.script == script)

def canRun (m : Machine) (t : Thread) : Bool := m.world.canResume t.caller.script t.pause

/-- Gives a script a turn, if it can go on. -/
def turn (m : Machine) (script : Nat) : Machine :=
  match m.thread? script with
  | none => m
  | some t =>
    if m.canRun t then
      match m.world.turn t with
      | (world, some (frames, pause)) => { m with world }.putThread script frames pause
      | (world, none) => { m with world }.finishThread t
    else m

def round (m : Machine) : Machine := (m.threads.map (·.caller.script)).foldl turn m

def rounds (m : Machine) : Nat → Machine
  | 0 => m
  | n + 1 => m.round.rounds n

/-! ### Time -/

def timer? (t : Thread) : Option Nat :=
  match t.pause with
  | .sleeping wakeAt => some wakeAt
  | .gliding _ wakeAt => some wakeAt
  | _ => none

/-- The next time that some script waits for. -/
def nextTimer? (m : Machine) : Option Nat := (m.threads.filterMap timer?).min?

def isIdle (m : Machine) : Bool := !m.threads.any m.canRun

def setClock (m : Machine) (time : Nat) : Machine := m.onWorld fun w => { w with clock := time }

/-- The next time before a deadline that some script waits for, else the deadline. -/
def nextTime (m : Machine) (deadline : Nat) : Nat := min (m.nextTimer?.getD deadline) deadline

/-- Lets scripts run until a test holds or the clock reaches a deadline; `fuel` bounds the number of
rounds and jumps. -/
def runTo (enough : Machine → Bool) (deadline : Nat) : (fuel : Nat) → Machine → Machine
  | 0, m => m
  | fuel + 1, m =>
    if enough m || deadline ≤ m.world.clock then m
    else if m.isIdle then runTo enough deadline fuel (m.setClock (m.nextTime deadline))
    else runTo enough deadline fuel m.round

def advance (fuel : Nat) (m : Machine) (ms : Nat) : Machine :=
  runTo (fun _ => false) (m.world.clock + ms) fuel m

def isFinished (m : Machine) : Bool := m.threads.isEmpty

/-- Waits until all scripts have ended, but no longer than a limit. -/
def finish (fuel : Nat) (m : Machine) (limit : Nat) : Machine :=
  runTo isFinished (m.world.clock + limit) fuel m

end Machine
end BlockScript
