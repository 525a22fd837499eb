import BlockScript.Event.Hub

/-!
Events, relays and subscriptions under names. Several names can stand for one event, and together they
own it. Storing under a name that is taken drops what was there, after the new object was made.
-/
namespace BlockScript

/-- A hub whose events and relays have names. -/
structure EventWorkspace where
  hub : Hub Nat
  /-- The number for the next event. -/
  fresh : Nat
  events : List (String × Nat)
  relays : List (String × Nat)

/-- What can be asked of a workspace. -/
inductive EventStep where
  | event (name : String)
  | clone (name of : String)
  | relay (name : String)
  | subscribe (name event : String)
  | subscribeDropping (name event victim : String)
  | subscribeAdding (name event added : String)
  | subscribeRelay (name relay : String)
  | forward (name target source : String)
  | forwardRelay (relay source : String)
  | empty (name : String)
  | join (name other : String)
  | isEmpty (name : String)
  | drop (name : String)
  | dropEvent (name : String)
  | dropRelay (name : String)
  | raise (event : String)

namespace EventWorkspace

def empty : EventWorkspace := ⟨.empty, 0, [], []⟩

def event? (w : EventWorkspace) (name : String) : Option Nat := w.events.lookup name

def relay? (w : EventWorkspace) (name : String) : Option Nat := w.relays.lookup name

/-- Changes the names of events; one without a name left has lost its owner. -/
def withNames (w : EventWorkspace) (events : List (String × Nat)) : EventWorkspace :=
  let lost := w.events.filter fun e => !events.any (·.2 == e.2)
  { w with events, hub := lost.foldl (fun hub e => hub.closeEvent e.2) w.hub }

def dropEvent (w : EventWorkspace) (name : String) : EventWorkspace :=
  w.withNames (w.events.filter (·.1 != name))

def dropRelay (w : EventWorkspace) (name : String) : EventWorkspace :=
  match w.relay? name with
  | none => w
  | some key => { w with relays := w.relays.filter (·.1 != name), hub := w.hub.closeRelay key }

def openFresh (w : EventWorkspace) : EventWorkspace × Nat :=
  ({ w with hub := w.hub.openEvent w.fresh, fresh := w.fresh + 1 }, w.fresh)

def nameEvent (w : EventWorkspace) (name : String) (key : Nat) : EventWorkspace :=
  w.withNames ((name, key) :: w.events.filter (·.1 != name))

def nameRelay (w : EventWorkspace) (name : String) (key : Nat) : EventWorkspace :=
  let w := w.dropRelay name
  { w with relays := (name, key) :: w.relays }

/-- Subscribes a handler to an event and holds the subscription under a name. -/
def subscribe (w : EventWorkspace) (name : String) (key : Nat) (h : Handler Nat) : EventWorkspace :=
  { w with hub := w.hub.subscribeAs name key h }

def observers (w : EventWorkspace) : List (String × Nat) :=
  w.events.map fun e => (e.1, w.hub.observerCount e.2)

/-- The workspace after a step, an answer where the step asks something, and the labels noted.
Nothing if the step names what is not there. -/
def perform (w : EventWorkspace) : EventStep → Option (EventWorkspace × Option Bool × List Signal)
  | .event name =>
    let (w, key) := w.openFresh
    some (w.nameEvent name key, none, [])
  | .clone name of => (w.event? of).map fun key => (w.nameEvent name key, none, [])
  | .relay name =>
    let (w, key) := w.openFresh
    some (w.nameRelay name key, none, [])
  | .subscribe name event =>
    (w.event? event).map fun key => (w.subscribe name key (.note name), none, [])
  | .subscribeDropping name event victim =>
    (w.event? event).map fun key => (w.subscribe name key (.noteDropping name victim), none, [])
  | .subscribeAdding name event added =>
    (w.event? event).map fun key => (w.subscribe name key (.noteAdding name added key), none, [])
  | .subscribeRelay name relay =>
    (w.relay? relay).map fun key => (w.subscribe name key (.note name), none, [])
  | .forward name target source => do
    let goal ← w.event? target
    let key ← w.event? source
    return (w.subscribe name key (.forward goal), none, [])
  | .forwardRelay relay source => do
    let target ← w.relay? relay
    let key ← w.event? source
    return ({ w with hub := w.hub.connect target key }, none, [])
  | .empty name => some ({ w with hub := w.hub.hold name [] }, none, [])
  | .join name other => do
    let second ← w.hub.subscription? other
    let hub := w.hub.forget other
    let first ← hub.subscription? name
    return ({ w with hub := (hub.forget name).hold name (first ++ second) }, none, [])
  | .isEmpty name => some (w, (w.hub.subscription? name).map (·.isEmpty), [])
  | .drop name => (w.hub.subscription? name).map fun _ => ({ w with hub := w.hub.dropNamed name }, none, [])
  | .dropEvent name => some (w.dropEvent name, some (w.event? name).isSome, [])
  | .dropRelay name => some (w.dropRelay name, some (w.relay? name).isSome, [])
  | .raise event => (w.event? event).map fun key =>
    let (hub, signals) := w.hub.raise key
    ({ w with hub }, none, signals)

end EventWorkspace
end BlockScript
