import BlockScript.Block.Graph

/-!
Projects as they are stored: targets with their variables, lists, blocks and sounds. Records may be
objects or arrays of their fields in order. What stands under keys that a record does not have is
passed over unread, so it need not even denote a value.
-/
namespace BlockScript

/-- A variable as it is stored. -/
structure VariableDecl where
  name : String
  value : Value
  deriving DecidableEq

/-- The name, then an optional value, then anything. -/
def VariableDecl.ofJson? : Json → Option VariableDecl
  | .array [name] => name.string?.map fun n => ⟨n, .empty⟩
  | .array (name :: value :: _) => do return ⟨← name.string?, ← value.value?⟩
  | _ => none

/-- A list as it is stored. -/
structure ListDecl where
  name : String
  items : List Value
  deriving DecidableEq

/-- Exactly the name and the items. -/
def ListDecl.ofJson? : Json → Option ListDecl
  | .array [name, items] => do return ⟨← name.string?, ← items.listOf? Json.value?⟩
  | _ => none

/-- A sound as it is stored. -/
structure SoundDecl where
  name : String
  /-- The file of the sound, if the project has it. -/
  asset : Option String
  deriving DecidableEq

namespace SoundDecl

def fieldNames : List String := ["name", "md5ext"]

def ofJson? (j : Json) : Option SoundDecl := do
  let fields ← j.fields? fieldNames
  let name ← Json.required? fields "name" Json.string?
  let asset ← Json.defaulted? fields "md5ext" none (Json.optional? Json.string?)
  return { name, asset }

end SoundDecl

/-- A stage or a sprite. -/
structure TargetDecl where
  isStage : Bool
  name : String
  vars : List (String × VariableDecl)
  lists : List (String × ListDecl)
  blocks : BlockGraph
  /-- Warnings for entries of the block dictionary that are no blocks. -/
  blockWarnings : List LogRecord
  sounds : List SoundDecl
  volume : Number
  x : Number
  y : Number
  direction : Number

namespace TargetDecl

def fieldNames : List String :=
  ["isStage", "name", "variables", "lists", "blocks", "sounds", "volume", "x", "y", "direction"]

def ofJson? (j : Json) : Option TargetDecl := do
  let fields ← j.fields? fieldNames
  let isStage ← Json.required? fields "isStage" Json.bool?
  let name ← Json.required? fields "name" Json.string?
  let vars ← Json.defaulted? fields "variables" [] (Json.mapOf? VariableDecl.ofJson?)
  let lists ← Json.defaulted? fields "lists" [] (Json.mapOf? ListDecl.ofJson?)
  let (blocks, blockWarnings) ← Json.defaulted? fields "blocks" (.empty, []) BlockGraph.ofJson?
  let sounds ← Json.defaulted? fields "sounds" [] (Json.listOf? SoundDecl.ofJson?)
  let volume ← Json.defaulted? fields "volume" 100 Json.number?
  let x ← Json.defaulted? fields "x" 0 Json.number?
  let y ← Json.defaulted? fields "y" 0 Json.number?
  let direction ← Json.defaulted? fields "direction" 90 Json.number?
  return { isStage, name, vars, lists, blocks, blockWarnings, sounds, volume, x, y, direction }

end TargetDecl

/-- A stored project. -/
structure ProjectDecl where
  targets : List TargetDecl

namespace ProjectDecl

def fieldNames : List String := ["targets"]

def ofJson? (j : Json) : Option ProjectDecl := do
  let fields ← j.fields? fieldNames
  let targets ← Json.required? fields "targets" (Json.listOf? TargetDecl.ofJson?)
  return { targets }

end ProjectDecl

/-! ### Reading texts -/

namespace Json

/-- Drops the members that a record does not have and changes the value of each field. -/
def prune (names : List String) (change : String → Json → Json) : Json → Json
  | .object members =>
    .object ((members.filter fun m => names.contains m.1).map fun m => (m.1, change m.1 m.2))
  | .array items => .array ((names.zip items).map (fun p => change p.1 p.2) ++ items.drop names.length)
  | j => j

def mapItems (change : Json → Json) : Json → Json
  | .array items => .array (items.map change)
  | j => j

end Json

def SoundDecl.prune : Json → Json := Json.prune SoundDecl.fieldNames fun _ j => j

/-- The value of a target's field without what is passed over. -/
def TargetDecl.pruneField (name : String) (j : Json) : Json :=
  if name == "sounds" then j.mapItems SoundDecl.prune else j

def TargetDecl.prune : Json → Json := Json.prune TargetDecl.fieldNames TargetDecl.pruneField

def ProjectDecl.prune : Json → Json :=
  Json.prune ProjectDecl.fieldNames fun _ j => j.mapItems TargetDecl.prune

/-- A target whose relevant parts are all readable, in the room left for nesting. -/
def TargetDecl.ofReadable? (room : Nat) (j : Json) : Option TargetDecl :=
  ((some (prune j)).filter (Json.isReadable room)).bind ofJson?

/-- A target of a JSON text whose relevant parts are all readable. -/
def TargetDecl.ofText? (s : String) : Option TargetDecl :=
  (Json.parse? s).bind (TargetDecl.ofReadable? Json.maxDepth)

/-- A project of a JSON text whose relevant parts are all readable. -/
def ProjectDecl.ofText? (s : String) : Option ProjectDecl :=
  (((Json.parse? s).map ProjectDecl.prune).filter (Json.isReadable Json.maxDepth)).bind ProjectDecl.ofJson?

def Input.ofText? (s : String) : Option Input := (Json.read? s).bind Input.ofJson?

end BlockScript
