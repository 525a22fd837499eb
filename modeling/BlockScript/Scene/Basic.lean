import BlockScript.Scene.ItemList
import BlockScript.Block.Input
import BlockScript.Number.Elementary

/-!
The scene: figures with their variables, lists, sounds, pose and audio settings, and the pointer.
Names are resolved for the figure that runs: ids win over names, and the figure over the stage.
-/
namespace BlockScript

/-- Where a figure stands and where it looks. -/
structure Pose where
  x : Number
  y : Number
  direction : Number
  deriving DecidableEq

/-- How a figure sounds. -/
structure AudioSettings where
  volume : Number
  pitch : Number
  pan : Number
  deriving DecidableEq

/-- A variable of a figure with its value. -/
structure Variable where
  id : String
  name : String
  value : Value

/-- A list of a figure with its items. -/
structure ListVariable where
  id : String
  name : String
  items : List Value

/-- The stage or a sprite. -/
structure Figure where
  name : String
  isStage : Bool
  vars : List Variable
  lists : List ListVariable
  sounds : List String
  pose : Pose
  audio : AudioSettings

/-- A pointer that moves and tells so, or one that stays where it is. -/
inductive Pointer where
  | tracked (x y : Number)
  | fixed (x y : Number)

def Pointer.x : Pointer → Number
  | .tracked x _ => x
  | .fixed x _ => x

def Pointer.y : Pointer → Number
  | .tracked _ y => y
  | .fixed _ y => y

/-- What a project runs with. -/
structure Config where
  stageWidth : Nat
  stageHeight : Nat
  /-- Steps of a glide in a second. -/
  frameRate : Nat
  listItemLimit : Nat
  /-- How long sounds play, in milliseconds; without it they end at once. -/
  soundLength : Option Nat
  deriving DecidableEq

def Config.default : Config :=
  { stageWidth := 480, stageHeight := 360, frameRate := 30, listItemLimit := defaultListLimit,
    soundLength := none }

/-- A variable or list of a figure, which is given by its position. -/
structure Address where
  figure : Nat
  id : String
  deriving DecidableEq

/-- The change events of a scene and of the relays that reporters carry. -/
inductive Channel where
  | variable (a : Address)
  | list (a : Address)
  | moved (figure : Nat)
  | audio (figure : Nat)
  | pointer
  | relay (n : Nat)
  deriving DecidableEq

/-- All data that blocks read and write. -/
structure Scene where
  figures : List Figure
  pointer : Pointer
  config : Config

namespace Figure

def variableWithId? (f : Figure) (id : String) : Option Variable := f.vars.find? (·.id == id)

def variableNamed? (f : Figure) (name : String) : Option Variable := f.vars.find? (·.name == name)

def listWithId? (f : Figure) (id : String) : Option ListVariable := f.lists.find? (·.id == id)

def listNamed? (f : Figure) (name : String) : Option ListVariable := f.lists.find? (·.name == name)

/-- The variable of an id, else the one of a name. -/
def findVariable? (f : Figure) (ref : Ref) : Option Variable := (f.variableWithId? ref.id).or (f.variableNamed? ref.name)

/-- The list of an id, else the one of a name. -/
def findList? (f : Figure) (ref : Ref) : Option ListVariable := (f.listWithId? ref.id).or (f.listNamed? ref.name)

end Figure

namespace Scene

/-! ### Look-ups -/

def figure? (s : Scene) (n : Nat) : Option Figure := s.figures[n]?

def figureName (s : Scene) (n : Nat) : String := ((s.figure? n).map (·.name)).getD ""

/-- The first figure with a name. -/
def figureNamed? (s : Scene) (name : String) : Option Nat := s.figures.findIdx? (·.name == name)

/-- The first stage. -/
def stage? (s : Scene) : Option Nat := s.figures.findIdx? (·.isStage)

/-- Tries the running figure by id, the stage by id, the figure by name, the stage by name. -/
def resolve? (s : Scene) (figure : Nat) (byId byName : Figure → Option String) : Option Address :=
  let look (pick : Figure → Option String) (n : Nat) : Option Address :=
    ((s.figure? n).bind pick).map fun id => ⟨n, id⟩
  let onStage (pick : Figure → Option String) : Option Address := s.stage?.bind (look pick)
  (look byId figure).or ((onStage byId).or ((look byName figure).or (onStage byName)))

/-- The variable a reference stands for on a figure. -/
def findVariable? (s : Scene) (figure : Nat) (ref : Ref) : Option Address :=
  s.resolve? figure (fun f => (f.variableWithId? ref.id).map (·.id)) (fun f => (f.variableNamed? ref.name).map (·.id))

/-- The list a reference stands for on a figure. -/
def findList? (s : Scene) (figure : Nat) (ref : Ref) : Option Address :=
  s.resolve? figure (fun f => (f.listWithId? ref.id).map (·.id)) (fun f => (f.listNamed? ref.name).map (·.id))

def variableAt? (s : Scene) (a : Address) : Option Variable := (s.figure? a.figure).bind (·.variableWithId? a.id)

def listAt? (s : Scene) (a : Address) : Option ListVariable := (s.figure? a.figure).bind (·.listWithId? a.id)

def valueAt (s : Scene) (a : Address) : Value := ((s.variableAt? a).map (·.value)).getD .empty

def itemsAt (s : Scene) (a : Address) : List Value := ((s.listAt? a).map (·.items)).getD []

def poseOf (s : Scene) (figure : Nat) : Pose := ((s.figure? figure).map (·.pose)).getD ⟨0, 0, 90⟩

def audioOf (s : Scene) (figure : Nat) : AudioSettings := ((s.figure? figure).map (·.audio)).getD ⟨100, 0, 0⟩

def soundsOf (s : Scene) (figure : Nat) : List String := ((s.figure? figure).map (·.sounds)).getD []

/-! ### Updates -/

def modifyFigure (s : Scene) (n : Nat) (f : Figure → Figure) : Scene := { s with figures := s.figures.modify n f }

def setVariable (s : Scene) (a : Address) (v : Value) : Scene :=
  s.modifyFigure a.figure fun f =>
    { f with vars := f.vars.map fun x => if x.id == a.id then { x with value := v } else x }

def setItems (s : Scene) (a : Address) (items : List Value) : Scene :=
  s.modifyFigure a.figure fun f =>
    { f with lists := f.lists.map fun x => if x.id == a.id then { x with items } else x }

def setPose (s : Scene) (figure : Nat) (pose : Pose) : Scene := s.modifyFigure figure fun f => { f with pose }

def setAudio (s : Scene) (figure : Nat) (audio : AudioSettings) : Scene :=
  s.modifyFigure figure fun f => { f with audio }

/-- Moves the pointer, unless it is fixed. -/
def setPointer (s : Scene) (x y : Number) : Scene :=
  match s.pointer with
  | .tracked .. => { s with pointer := .tracked x y }
  | .fixed .. => s

end Scene
end BlockScript
