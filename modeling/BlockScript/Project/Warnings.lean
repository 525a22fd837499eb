import BlockScript.Project.Declaration

/-!
Warnings of projects that cannot be read. Warnings are given as soon as a block dictionary has been
read, so a project gives those of the dictionaries that come before its first fault.
-/
namespace BlockScript

namespace Json

/-- The members of a record in the order of reading, as far as it can be read. -/
def recordMembers (names : List String) : Json → List (String × Json)
  | .object members => members
  | .array items => names.zip items
  | .cut beginning => recordMembers names beginning
  | _ => []

/-- The items of an array as far as it can be read. -/
def itemsSoFar : Json → List Json
  | .array items => items
  | .cut beginning => itemsSoFar beginning
  | _ => []

end Json

namespace TargetDecl

/-- How deep the values of a target's fields stand in a project. -/
def fieldDepth : Nat := 3

/-- Whether a field has a value that fits it. -/
def fieldFits (name : String) (j : Json) : Bool :=
  (pruneField name j).isReadable (Json.maxDepth - fieldDepth) &&
    match name with
    | "isStage" => j.bool?.isSome
    | "name" => j.string?.isSome
    | "variables" => (j.mapOf? VariableDecl.ofJson?).isSome
    | "lists" => (j.mapOf? ListDecl.ofJson?).isSome
    | "blocks" => (BlockGraph.ofJson? j).isSome
    | "sounds" => (j.listOf? SoundDecl.ofJson?).isSome
    | _ => j.number?.isSome

/-- The warnings of a block dictionary that comes before the first fault of a target; `seen` are the
fields read already. -/
def warningsOfMembers (seen : List String) : List (String × Json) → List LogRecord
  | [] => []
  | (name, j) :: rest =>
    if !fieldNames.contains name then warningsOfMembers seen rest
    else if seen.contains name || !fieldFits name j then []
    else
      let own := if name == "blocks" then ((BlockGraph.ofJson? j).map (·.2)).getD [] else []
      own ++ warningsOfMembers (name :: seen) rest

/-- The warnings of a target as far as it can be read. -/
def warningsSoFar (j : Json) : List LogRecord := warningsOfMembers [] (j.recordMembers fieldNames)

end TargetDecl

namespace ProjectDecl

/-- The warnings of targets up to the first that cannot be read. -/
def warningsOfTargets : List Json → List LogRecord
  | [] => []
  | j :: rest =>
    TargetDecl.warningsSoFar j ++
      if (TargetDecl.ofReadable? (Json.maxDepth - TargetDecl.fieldDepth + 1) j).isSome then warningsOfTargets rest
      else []

/-- The warnings of a project text as far as it can be read. -/
def warningsSoFar (s : String) : List LogRecord :=
  match ((Json.parseFar s).1.recordMembers fieldNames).lookup "targets" with
  | some j => warningsOfTargets j.itemsSoFar
  | none => []

end ProjectDecl

end BlockScript
