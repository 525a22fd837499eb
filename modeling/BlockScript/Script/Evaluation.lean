import BlockScript.Event.Hub
import BlockScript.Scene.Basic
import BlockScript.Block.Tree
import BlockScript.Log

/-!
Evaluation of reporters. Evaluating reads the scene and never changes it. It leaves traces: each
relay is connected to the data its reporter reads, the first time the reporter reads it; what is
missing is logged and reads as a default; random choices use up draws.
-/
namespace BlockScript

/-- A source of 64-bit draws, told by how many were taken. -/
structure Random where
  taken : Nat

namespace Random

/-- The bits of a number spread over 64 bits. -/
def scatter (n : UInt64) : UInt64 :=
  let x := n * 0x9E3779B97F4A7C15
  let y := (x ^^^ (x >>> 30)) * 0xBF58476D1CE4E5B9
  let z := (y ^^^ (y >>> 27)) * 0x94D049BB133111EB
  z ^^^ (z >>> 31)

/-- A draw below `2 ^ 64` and the source for the next ones. -/
def draw (r : Random) : Nat × Random := ((scatter (.ofNat (r.taken + 1))).toNat, ⟨r.taken + 1⟩)

end Random

/-- What evaluation leaves behind. -/
structure Traces where
  hub : Hub Channel
  /-- Log records, last first. -/
  logs : List LogRecord
  random : Random

/-- A computation that leaves traces. -/
abbrev Eval (α : Type) := StateM Traces α

namespace Traces

def log (t : Traces) (r : LogRecord) : Traces := { t with logs := r :: t.logs }

end Traces

def logRecord (r : LogRecord) : Eval Unit := modify (·.log r)

/-- Feeds a relay from a channel, the first time. -/
def connectRelay (relay : Nat) (channel : Channel) : Eval Unit :=
  modify fun t => { t with hub := t.hub.connect (.relay relay) channel }

def takeDraw : Eval Nat := modifyGet fun t => (t.random.draw.1, { t with random := t.random.draw.2 })

/-- A scene as a figure sees it. -/
structure View where
  scene : Scene
  figure : Nat

namespace View

def figureName (v : View) : String := v.scene.figureName v.figure

/-- Finds a variable for a reporter, or logs that it is missing. -/
def findVariable (v : View) (ref : Ref) (relay : Nat) : Eval (Option Address) :=
  match v.scene.findVariable? v.figure ref with
  | some a => do
    connectRelay relay (.variable a)
    return some a
  | none => do
    let figure := v.figureName
    let reference := ref.text
    logRecord (.error s!"[{figure}] variable {reference} not found")
    return none

/-- Finds a list for a reporter, or logs that it is missing. -/
def findList (v : View) (ref : Ref) (relay : Nat) : Eval (Option (List Value)) :=
  match v.scene.findList? v.figure ref with
  | some a => do
    connectRelay relay (.list a)
    return some (v.scene.itemsAt a)
  | none => do
    let figure := v.figureName
    let reference := ref.text
    logRecord (.error s!"[{figure}] list {reference} not found")
    return none

/-- A coordinate of the pointer, kept on the stage. -/
def pointerCoordinate (v : View) : PointerCoordinate → Number
  | .x =>
    let half := Number.ofNat v.scene.config.stageWidth / 2
    v.scene.pointer.x.clamp (-half) half
  | .y =>
    let half := Number.ofNat v.scene.config.stageHeight / 2
    v.scene.pointer.y.clamp (-half) half

/-- A coordinate of the figure; places very close to whole numbers read as these. -/
def poseCoordinate (v : View) : PoseCoordinate → Number
  | .x => (v.scene.poseOf v.figure).x.snapToWhole
  | .y => (v.scene.poseOf v.figure).y.snapToWhole
  | .direction => (v.scene.poseOf v.figure).direction

def read (v : View) (relay : Nat) : Source → Eval Value
  | .variable ref => do
    match ← v.findVariable ref relay with
    | some a => return v.scene.valueAt a
    | none => return .empty
  | .listContents ref => do
    match ← v.findList ref relay with
    | some items => return .text (listContents items)
    | none => return .empty
  | .listLength ref => do
    match ← v.findList ref relay with
    | some items => return .number (.ofNat items.length)
    | none => return .number 0
  | .pose c _ => do
    connectRelay relay (.moved v.figure)
    return .number (v.poseCoordinate c)
  | .volume => do
    connectRelay relay (.audio v.figure)
    return .number (v.scene.audioOf v.figure).volume
  | .pointer c _ => do
    match v.scene.pointer with
    | .tracked .. => connectRelay relay .pointer
    | .fixed .. => pure ()
    return .number (v.pointerCoordinate c)

end View

/-- Resolves a position in a list, with a draw if it takes one. -/
def resolveIndex (index : Value) (length : Nat) (acceptAll : Bool) : Eval ListIndex := do
  if listIndexDraws index length then return listIndex index length acceptAll (← takeDraw)
  else return listIndex index length acceptAll 0

namespace ListQuery

/-- What a query reports on a list that is missing. -/
def missing : ListQuery → Value
  | .item => .empty
  | .position => .number 0

def answer (items : List Value) (argument : Value) : ListQuery → Eval Value
  | .item => do
    match ← resolveIndex argument items.length false with
    | .item index => return (itemAt? items index).getD .empty
    | _ => return .empty
  | .position => return .number (.ofNat (positionOf items argument))

end ListQuery

mutual
def Operand.eval (v : View) : Operand Nat → Eval Value
  | .constant x => return x
  | .soundMenu sound => return .text sound
  | .source s relay => v.read relay s
  | .search q list relay argument => do
    match ← v.findList list relay with
    | none => return q.missing
    | some items => q.answer items (← argument.eval v)
  | .unary op a => return op.apply (← a.eval v)
  | .binary op a b => do
    let x ← a.eval v
    let y ← b.eval v
    return op.apply x y
  | .random a b => do
    let x ← a.eval v
    let y ← b.eval v
    return .number (pickRandom x y (← takeDraw))
  | .truth p => return .boolean (← p.test v)
/-- The truth value of a predicate. The second part of a logical operation is only read if the first
does not decide. -/
def Predicate.test (v : View) : Predicate Nat → Eval Bool
  | .absent => return false
  | .compare c a b => do
    let x ← a.eval v
    let y ← b.eval v
    return c.holds x y
  | .logic c _ a b => do
    let x ← a.test v
    match c, x with
    | .and, false => return false
    | .or, true => return true
    | _, _ => b.test v
  | .not p => return !(← p.test v)
  | .listHas list relay item => do
    match ← v.findList list relay with
    | none => return false
    | some items =>
      let x ← item.eval v
      return items.any (·.equals x)
end

/-- The number that an operand is for arithmetic. -/
def Operand.number (v : View) (o : Operand Nat) : Eval Number := return (← o.eval v).toNumber

/-! ### Relays of reporters -/

section
variable {ρ : Type}

mutual
/-- The relays an operand listens to, in the order of subscription. -/
def Operand.relays : Operand ρ → List ρ
  | .constant _ => []
  | .soundMenu _ => []
  | .source _ relay => [relay]
  | .search _ _ relay argument => relay :: argument.relays
  | .unary _ a => a.relays
  | .binary _ a b => a.relays ++ b.relays
  | .random a b => a.relays ++ b.relays
  | .truth p => p.relays
/-- The relays a predicate listens to, in the order of subscription. -/
def Predicate.relays : Predicate ρ → List ρ
  | .absent => []
  | .compare _ a b => a.relays ++ b.relays
  | .logic _ _ a b => a.relays ++ b.relays
  | .not p => p.relays
  | .listHas _ relay item => relay :: item.relays
end

def Reporter.relays : Reporter ρ → List ρ
  | .value o => o.relays
  | .predicate p => p.relays

end

namespace Hub

def subscribeAll {κ : Type} [DecidableEq κ] (hub : Hub κ) (keys : List κ) (h : Handler κ) :
    Hub κ × Subscription κ :=
  match keys with
  | [] => (hub, [])
  | key :: rest =>
    let (hub, first) := hub.subscribe key h
    let (hub, others) := hub.subscribeAll rest h
    (hub, first :: others)

end Hub
end BlockScript
