/-!
Change events and who listens to them. A hub holds live events, each with its handlers in the order
of subscription. Subscribing gives a link; whoever holds the link releases it. A handler may pass a
change on to another event, so one change can reach many listeners; a raise calls exactly the
handlers that were there when it began. An event lives as long as somebody holds it: its owner, a
handler that would subscribe to it, or a raise that is under way. A relay is an event that is fed by one other event: the first it
was connected to.
-/
namespace BlockScript

/-- What is done when an event is raised. -/
inductive Handler (κ : Type) where
  | note (label : String)
  | wake (waiter : Nat)
  /-- Raises another event, if it is still there. -/
  | forward (target : κ)
  /-- Notes, then releases the subscription held under a name. -/
  | noteDropping (label victim : String)
  /-- Notes, then subscribes a plain note to an event and holds it under its label. The handler holds
  that event. -/
  | noteAdding (label added : String) (event : κ)
  deriving DecidableEq

/-- Handlers with the numbers they were given, in the order of subscription. -/
structure ChangeEvent (κ : Type) where
  next : Nat
  /-- Whether somebody outside the hub holds the event. -/
  owned : Bool
  handlers : List (Nat × Handler κ)
  deriving DecidableEq

/-- One handler of one event. -/
structure Link (κ : Type) where
  event : κ
  handler : Nat
  deriving DecidableEq

/-- Links that are released together. -/
abbrev Subscription (κ : Type) := List (Link κ)

/-- What a raise tells the outside. -/
inductive Signal where
  | note (label : String)
  | wake (waiter : Nat)
  deriving DecidableEq

/-- Live events with their handlers, and who holds which subscription. -/
structure Hub (κ : Type) where
  events : List (κ × ChangeEvent κ)
  /-- Subscriptions held under names. -/
  subscriptions : List (String × Subscription κ)
  /-- The link that feeds each relay. -/
  feeds : List (κ × Link κ)

def Handler.holds {κ : Type} [DecidableEq κ] (key : κ) : Handler κ → Bool
  | .noteAdding _ _ event => event = key
  | _ => false

namespace ChangeEvent

variable {κ : Type}

def fresh : ChangeEvent κ := ⟨0, true, []⟩

def add (e : ChangeEvent κ) (h : Handler κ) : ChangeEvent κ :=
  { e with next := e.next + 1, handlers := e.handlers ++ [(e.next, h)] }

def remove (e : ChangeEvent κ) (n : Nat) : ChangeEvent κ :=
  { e with handlers := e.handlers.filter (·.1 != n) }

/-- Somebody holds the event: its owner or one of its own handlers. -/
def isHeld [DecidableEq κ] (key : κ) (e : ChangeEvent κ) : Bool := e.owned || e.handlers.any (·.2.holds key)

end ChangeEvent

namespace Hub

variable {κ : Type} [DecidableEq κ]

def empty : Hub κ := ⟨[], [], []⟩

/-! ### Events -/

def event? (hub : Hub κ) (key : κ) : Option (ChangeEvent κ) := hub.events.lookup key

def observerCount (hub : Hub κ) (key : κ) : Nat := ((hub.event? key).map (·.handlers.length)).getD 0

def openEvent (hub : Hub κ) (key : κ) : Hub κ := { hub with events := (key, .fresh) :: hub.events }

/-- Changes one event, if it is there. An event that nobody holds then goes, and links to it come to
nothing. -/
def modifyEvent (hub : Hub κ) (key : κ) (f : ChangeEvent κ → ChangeEvent κ) : Hub κ :=
  { hub with events := hub.events.filterMap fun e =>
      if e.1 = key then (some (e.1, f e.2)).filter (·.2.isHeld key) else some e }

/-- Somebody outside takes hold of an event that is there. -/
def ownEvent (hub : Hub κ) (key : κ) : Hub κ := hub.modifyEvent key fun e => { e with owned := true }

def closeEvent (hub : Hub κ) (key : κ) : Hub κ := hub.modifyEvent key fun e => { e with owned := false }

/-! ### Subscriptions -/

/-- Adds a handler to an event and gives the link to it, which comes to nothing if the event is not
there. -/
def subscribe (hub : Hub κ) (key : κ) (h : Handler κ) : Hub κ × Link κ :=
  (hub.modifyEvent key (·.add h), ⟨key, ((hub.event? key).map (·.next)).getD 0⟩)

def unlink (hub : Hub κ) (l : Link κ) : Hub κ := hub.modifyEvent l.event (·.remove l.handler)

def release (hub : Hub κ) (s : Subscription κ) : Hub κ := s.foldl unlink hub

def subscription? (hub : Hub κ) (name : String) : Option (Subscription κ) := hub.subscriptions.lookup name

/-- Takes a subscription from its name without releasing it. -/
def forget (hub : Hub κ) (name : String) : Hub κ :=
  { hub with subscriptions := hub.subscriptions.filter (·.1 != name) }

def dropNamed (hub : Hub κ) (name : String) : Hub κ :=
  match hub.subscription? name with
  | some s => (hub.forget name).release s
  | none => hub

/-- Holds a subscription under a name; what was held there is released. -/
def hold (hub : Hub κ) (name : String) (s : Subscription κ) : Hub κ :=
  let hub := hub.dropNamed name
  { hub with subscriptions := (name, s) :: hub.subscriptions }

/-- Subscribes a handler and holds the subscription under a name. -/
def subscribeAs (hub : Hub κ) (name : String) (key : κ) (h : Handler κ) : Hub κ :=
  let (hub, l) := hub.subscribe key h
  hub.hold name [l]

/-! ### Relays -/

/-- Feeds a relay from a source, unless it already has one. -/
def connect (hub : Hub κ) (relay source : κ) : Hub κ :=
  match hub.feeds.lookup relay with
  | some _ => hub
  | none =>
    let (hub, l) := hub.subscribe source (.forward relay)
    { hub with feeds := (relay, l) :: hub.feeds }

/-- Removes a relay with the link that feeds it. -/
def closeRelay (hub : Hub κ) (relay : κ) : Hub κ :=
  let hub := hub.closeEvent relay
  match hub.feeds.lookup relay with
  | some l => { hub with feeds := hub.feeds.filter (·.1 != relay) }.unlink l
  | none => hub

/-! ### Raising -/

/-- Calls one handler; `raise` raises the event it forwards to. -/
def call (raise : κ → Hub κ → Hub κ × List Signal) (hub : Hub κ) : Handler κ → Hub κ × List Signal
  | .note label => (hub, [.note label])
  | .wake waiter => (hub, [.wake waiter])
  | .forward target => raise target hub
  | .noteDropping label victim => (hub.dropNamed victim, [.note label])
  | .noteAdding label added key => (hub.subscribeAs added key (.note added), [.note label])

def callAll (raise : κ → Hub κ → Hub κ × List Signal) (hub : Hub κ) :
    List (Handler κ) → Hub κ × List Signal
  | [] => (hub, [])
  | h :: rest =>
    let (hub, first) := hub.call raise h
    let (hub, others) := hub.callAll raise rest
    (hub, first ++ others)

/-- Raises an event through at most `depth` events that forward to each other. An event without an
owner is held until its handlers have been called. -/
def raiseWithin : (depth : Nat) → κ → Hub κ → Hub κ × List Signal
  | 0, _, hub => (hub, [])
  | depth + 1, key, hub =>
    match hub.event? key with
    | none => (hub, [])
    | some e =>
      let handlers := e.handlers.map (·.2)
      if e.owned then hub.callAll (raiseWithin depth) handlers
      else
        let (hub, signals) := (hub.ownEvent key).callAll (raiseWithin depth) handlers
        (hub.closeEvent key, signals)

def handlerCount (hub : Hub κ) : Nat := (hub.events.flatMap (·.2.handlers)).length

/-- Raises an event. A raise adds plain notes only, so what forwards can but dwindle; and a path of
forwarding that ends meets each event at most once between two handlers that go. -/
def raise (hub : Hub κ) (key : κ) : Hub κ × List Signal :=
  raiseWithin (hub.events.length * (hub.handlerCount + 1)) key hub

end Hub
end BlockScript
