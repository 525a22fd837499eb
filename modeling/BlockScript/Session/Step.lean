import BlockScript.Session.Basic

/-!
What can be done in a session, step by step, and what each step answers. A step that names what is not
there is refused and changes nothing.
-/
namespace BlockScript

/-- Something of a figure whose changes can be observed. -/
inductive Observable where
  | variable (id : String)
  | list (id : String)
  | moved
  | audio
  deriving DecidableEq

/-- What can be asked of a session. -/
inductive SessionStep where
  | greenFlag
  | start (figure : String) (block : Option String)
  | advance (ms : Nat)
  | yield
  | finish (limit : Nat)
  | state
  | stopAll
  | stop (figure : String)
  | scopes (figure : String)
  | setVariable (figure id : String) (v : Value)
  | push (figure id : String) (v : Value)
  | clear (figure id : String)
  | setPose (figure : String) (pose : Pose)
  | move (figure : String) (x y : Number)
  | point (figure : String) (direction : Number)
  | setVolume (figure : String) (volume : Number)
  | setPointer (x y : Number)
  /-- What a reference stands for when a figure runs. -/
  | variableOf (figure : String) (ref : Ref)
  | listOf (figure : String) (ref : Ref)
  /-- What a reference stands for on the figure itself. -/
  | ownVariable (figure : String) (ref : Ref)
  | ownList (figure : String) (ref : Ref)
  | reporter (name figure block : String)
  | report (name : String)
  | test (name : String)
  | subscribe (name label : String)
  | unsubscribe (label : String)
  | drop (name : String)
  | observers (figure : String) (what : Observable)

/-- What a session answers to a step. -/
inductive SessionAnswer where
  | nothing
  | refused
  | truth (b : Bool)
  | count (n : Nat)
  | opcodes (names : List String)
  | figures (states : List FigureState)
  | finished (all : Bool) (ms : Nat)
  | scopes (cancelled : List Bool)
  | found (ref : Option Ref)
  | built (isPredicate : Bool) (opcode : String)
  | notBuilt (e : BuildError)
  | value (v : Value)
  | subscribed (isEmpty : Bool)

/-- A step's answer, with the records logged and the labels noted in it. -/
structure StepReport where
  answer : SessionAnswer
  logs : List LogRecord
  fired : List String

def Reporter.isPredicate {ρ : Type} : Reporter ρ → Bool
  | .value _ => false
  | .predicate _ => true

def Variable.ref (v : Variable) : Ref := ⟨v.name, v.id⟩

def ListVariable.ref (l : ListVariable) : Ref := ⟨l.name, l.id⟩

namespace Session

/-- How long a session waits for its scripts unless told otherwise, in milliseconds. -/
def defaultLimit : Nat := 100000

/-- How many rounds a yield lasts. -/
def yieldRounds : Nat := 100

def figure? (s : Session) (name : String) : Option Nat := s.scene.figureNamed? name

/-- The variable of an id on a figure. -/
def variableAddress? (s : Session) (figure id : String) : Option Address := do
  let n ← s.figure? figure
  let _ ← s.scene.variableAt? ⟨n, id⟩
  return ⟨n, id⟩

/-- The list of an id on a figure. -/
def listAddress? (s : Session) (figure id : String) : Option Address := do
  let n ← s.figure? figure
  let _ ← s.scene.listAt? ⟨n, id⟩
  return ⟨n, id⟩

/-- What can be observed, if it is there. -/
def channel? (s : Session) (figure : String) (what : Observable) : Option Channel :=
  match what with
  | .variable id => (s.variableAddress? figure id).map .variable
  | .list id => (s.listAddress? figure id).map .list
  | .moved => (s.figure? figure).map .moved
  | .audio => (s.figure? figure).map .audio

def act (s : Session) (f : World → World) : Session × SessionAnswer := (s.onWorld f, .nothing)

def buildReporter (s : Session) (name : String) (figure : Nat) (block : String) : Session × SessionAnswer :=
  let built := (s.project.builder figure).reporter block
  let s := s.log built.logs
  match built.outcome with
  | .ok r => (s.holdReporter name figure r, .built r.isPredicate r.opcode)
  | .error e => (s, .notBuilt e)

/-- The session after a step and the answer, or nothing if the step is refused. -/
def attempt (fuel : Nat) (s : Session) : SessionStep → Option (Session × SessionAnswer)
  | .greenFlag => some (s.greenFlag, .count s.bodies.length)
  | .start figure block => do
    let n ← s.figure? figure
    let (s, opcodes) := s.start n block
    return (s, .opcodes opcodes)
  | .advance ms =>
    let s := s.onMachine (Machine.advance fuel · ms)
    some (s, .figures s.world.figureStates)
  | .yield =>
    let s := s.onMachine (·.rounds yieldRounds)
    some (s, .figures s.world.figureStates)
  | .finish limit =>
    let s := s.onMachine (Machine.finish fuel · limit)
    some (s, .finished s.machine.isFinished s.world.clock)
  | .state => some (s, .figures s.world.figureStates)
  | .stopAll => some (s.act (·.cancelWhere fun _ => true))
  | .stop figure => do
    let n ← s.figure? figure
    return s.act (·.cancelWhere (·.figure == n))
  | .scopes figure => do
    let n ← s.figure? figure
    return (s, .scopes ((s.world.scriptsOn n).map (·.cancelled)))
  | .setVariable figure id v => do
    let a ← s.variableAddress? figure id
    return s.act (·.change (.variable a v))
  | .push figure id v => do
    let a ← s.listAddress? figure id
    let (world, accepted) := s.world.edit a (.push v)
    return (s.onWorld fun _ => world, .truth accepted)
  | .clear figure id => do
    let a ← s.listAddress? figure id
    return s.act (·.edit a .clear |>.1)
  | .setPose figure pose => do
    let n ← s.figure? figure
    return s.act (·.change (.pose n pose))
  | .move figure x y => do
    let n ← s.figure? figure
    return s.act (·.moveTo n (x, y))
  | .point figure direction => do
    let n ← s.figure? figure
    return s.act (·.pointTo n direction)
  | .setVolume figure volume => do
    let n ← s.figure? figure
    return s.act (·.change (.audio n { s.scene.audioOf n with volume }))
  | .setPointer x y => some (s.act (·.change (.pointer x y)))
  | .variableOf figure ref => do
    let n ← s.figure? figure
    return (s, .found (((s.scene.findVariable? n ref).bind s.scene.variableAt?).map Variable.ref))
  | .listOf figure ref => do
    let n ← s.figure? figure
    return (s, .found (((s.scene.findList? n ref).bind s.scene.listAt?).map ListVariable.ref))
  | .ownVariable figure ref => do
    let f ← (s.figure? figure).bind s.scene.figure?
    return (s, .found ((f.findVariable? ref).map Variable.ref))
  | .ownList figure ref => do
    let f ← (s.figure? figure).bind s.scene.figure?
    return (s, .found ((f.findList? ref).map ListVariable.ref))
  | .reporter name figure block => do
    let n ← s.figure? figure
    return s.buildReporter name n block
  | .report name => do
    let r ← s.reporter? name
    let (s, v) := s.evaluate r.figure r.reporter.eval
    return (s, .value v)
  | .test name => do
    let r ← s.reporter? name
    match r.reporter with
    | .value _ => none
    | .predicate p =>
      let (s, b) := s.evaluate r.figure p.test
      return (s, .truth b)
  | .subscribe name label => do
    let r ← s.reporter? name
    let (s, isEmpty) := s.subscribe r label
    return (s, .subscribed isEmpty)
  | .unsubscribe label =>
    some (s.onWorld fun w => w.withHub (w.traces.hub.dropNamed label),
      .truth (s.world.traces.hub.subscription? label).isSome)
  | .drop name => some (s.dropReporter name, .truth (s.reporter? name).isSome)
  | .observers figure what => do
    let c ← s.channel? figure what
    return (s, .count (s.world.traces.hub.observerCount c))

/-! ### Reports -/

/-- The labels noted since the last report, in order. -/
def noted (s : Session) : List String :=
  s.world.signals.reverse.filterMap fun
    | .note label => some label
    | .wake _ => none

/-- Forgets the records and notes that were reported. -/
def clearReport (s : Session) : Session :=
  s.onWorld fun w =>
    { w with
      traces := { w.traces with logs := [] },
      signals := w.signals.filter fun
        | .note _ => false
        | .wake _ => true }

/-- Whether scripts can have interleaved, so that the order of records means nothing. -/
def isMixed (s : Session) : Bool := 1 < s.started

def logs (s : Session) : List LogRecord :=
  let records := s.world.traces.logs.reverse
  if s.isMixed then sortRecords records else records

def fired (s : Session) : List String := if s.isMixed then sortTexts s.noted else s.noted

def perform (fuel : Nat) (s : Session) (step : SessionStep) : Session × StepReport :=
  let (s, answer) := (s.attempt fuel step).getD (s, .refused)
  (s.clearReport, { answer, logs := s.logs, fired := s.fired })

end Session
end BlockScript
