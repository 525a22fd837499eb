import BlockScript.Script.World
import BlockScript.Scene.Audio

/-!
Commands: blocks that are done at once. A command finds the variable or list it is about before it
evaluates anything, and fails if there is none.
-/
namespace BlockScript

/-- What a block does to the world; it may fail, and what it did before it failed stays. -/
abbrev Run (α : Type) := ExceptT RunError (StateM World) α

namespace Run

variable {α : Type}

def evaluate (c : Caller) (m : View → Eval α) : Run α := fun w =>
  let (a, w) := w.evaluate c.figure m
  (.ok a, w)

def change (c : Change) : Run Unit := modify (·.change c)

def log (r : LogRecord) : Run Unit := modify (·.log r)

def ask (f : Scene → α) : Run α := return f (← get).scene

def findVariable (c : Caller) (ref : Ref) : Run Address := do
  match (← get).scene.findVariable? c.figure ref with
  | some a => return a
  | none => throw (.missingVariable ref.name ref.id)

def findList (c : Caller) (ref : Ref) : Run Address := do
  match (← get).scene.findList? c.figure ref with
  | some a => return a
  | none => throw (.missingList ref.name ref.id)

/-- Edits a list; tells whether the edit was accepted. -/
def edit (a : Address) (e : ListEdit) : Run Bool := fun w =>
  let (w, accepted) := w.edit a e
  (.ok accepted, w)

end Run

def Step.destination (v : View) (step : Step Nat) : Eval (Number × Number) :=
  let pose := v.scene.poseOf v.figure
  match step with
  | .goTo x y => do
    let x ← x.number v
    return (x, ← y.number v)
  | .setX x => return (← x.number v, pose.y)
  | .setY y => return (pose.x, ← y.number v)
  | .changeX dx => return (pose.x + (← dx.number v), pose.y)
  | .changeY dy => return (pose.x, pose.y + (← dy.number v))
  | .forward steps => return pose.forward (← steps.number v)

/-- Starts a sound on the caller's figure; tells whether there was one. -/
def playSound (c : Caller) (sound : Operand Nat) : Run Bool := do
  let v ← Run.evaluate c sound.eval
  let figure ← Run.ask (·.figureName c.figure)
  match findSound? (← Run.ask (·.soundsOf c.figure)) v with
  | some name => do
    Run.log (playRecord figure name (← Run.ask (·.audioOf c.figure)))
    return true
  | none => do
    let name := v.toText
    Run.log (.warn s!"[{figure}] no sound `{name}`")
    return false

/-- Adds to a list; a full one is left alone with a warning. -/
def Run.addToList (c : Caller) (list : Ref) (item : Operand Nat) : Run Unit := do
  let a ← Run.findList c list
  let v ← Run.evaluate c item.eval
  unless ← Run.edit a (.push v) do
    let figure ← Run.ask (·.figureName c.figure)
    let name := list.text
    Run.log (.warn s!"[{figure}] list {name} is full")

/-- Inserts into a list, where one past the end appends; a refused insertion is logged. -/
def Run.insertAtList (c : Caller) (list : Ref) (item index : Operand Nat) : Run Unit := do
  let a ← Run.findList c list
  let v ← Run.evaluate c item.eval
  let i ← Run.evaluate c index.eval
  let length ← Run.ask (·.itemsAt a |>.length)
  match ← Run.evaluate c fun _ => resolveIndex i (length + 1) false with
  | .item n => unless ← Run.edit a (.insert n v) do
      let figure ← Run.ask (·.figureName c.figure)
      let name := list.text
      Run.log (.warn s!"[{figure}] cannot insert into list {name} at {n}")
  | _ => return ()

/-- Replaces an item; the new one is only evaluated if the position is there. -/
def Run.replaceItemOfList (c : Caller) (list : Ref) (index item : Operand Nat) : Run Unit := do
  let a ← Run.findList c list
  let i ← Run.evaluate c index.eval
  let length ← Run.ask (·.itemsAt a |>.length)
  match ← Run.evaluate c fun _ => resolveIndex i length false with
  | .item n => do
    let v ← Run.evaluate c item.eval
    let _ ← Run.edit a (.replace n v)
  | _ => return ()

/-- Deletes an item, or all of them. -/
def Run.deleteOfList (c : Caller) (list : Ref) (index : Operand Nat) : Run Unit := do
  let a ← Run.findList c list
  let i ← Run.evaluate c index.eval
  let length ← Run.ask (·.itemsAt a |>.length)
  match ← Run.evaluate c fun _ => resolveIndex i length true with
  | .all => do
    let _ ← Run.edit a .clear
  | .item n => do
    let _ ← Run.edit a (.remove n)
  | .invalid => return ()

/-- Sets a variable, or changes it by a number. -/
def Run.setVariable (c : Caller) (relative : Bool) (ref : Ref) (value : Operand Nat) : Run Unit := do
  let a ← Run.findVariable c ref
  let v ← Run.evaluate c value.eval
  if relative then
    let current ← Run.ask (·.valueAt a)
    Run.change (.variable a (.number (current.toNumber + v.toNumber)))
  else Run.change (.variable a v)

def Command.run (c : Caller) : Command Nat → Run Unit
  | .setVariable relative _ ref value => Run.setVariable c relative ref value
  | .addToList list item => Run.addToList c list item
  | .deleteOfList list index => Run.deleteOfList c list index
  | .deleteAllOfList list => do
    let _ ← Run.edit (← Run.findList c list) .clear
  | .insertAtList list item index => Run.insertAtList c list item index
  | .replaceItemOfList list index item => Run.replaceItemOfList c list index item
  | .move step _ => do
    let place ← Run.evaluate c step.destination
    modify (·.moveTo c.figure place)
  | .turn kind _ degrees => do
    let degrees ← Run.evaluate c degrees.number
    let pose ← Run.ask (·.poseOf c.figure)
    modify (·.pointTo c.figure (kind.apply pose.direction degrees))
  | .adjust setting relative _ amount => do
    let amount ← Run.evaluate c amount.number
    let audio ← Run.ask (·.audioOf c.figure)
    Run.change (.audio c.figure (setting.adjust audio amount relative))
  | .clearEffects => do
    let audio ← Run.ask (·.audioOf c.figure)
    Run.change (.audio c.figure audio.clearEffects)
  | .play sound => do
    let _ ← playSound c sound
  | .stop option => modify (·.cancelWhere (option.reaches c))

/-- The world after a command; a failure is logged under the command's operation code. -/
def World.command (w : World) (c : Caller) (cmd : Command Nat) : World :=
  match cmd.run c w with
  | (.ok (), w) => w
  | (.error e, w) => w.log (e.record (w.scene.figureName c.figure) cmd.opcode)

end BlockScript
