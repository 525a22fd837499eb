import BlockScript.Project.Warnings
import BlockScript.Build.Builder
import BlockScript.Scene.Basic

/-!
Loading projects: the scene with its figures, the blocks of each, and the scripts that the green flag
starts.
-/
namespace BlockScript

/-- Why a project cannot be loaded. -/
inductive ProjectError where
  | unreadable | malformed | noStage
  deriving DecidableEq

def ProjectError.message : ProjectError → String
  | .unreadable => "cannot read project"
  | .malformed => "malformed project.json"
  | .noStage => "project has no stage target"

/-- A script under a green flag. -/
structure FlagScript where
  figure : Nat
  hat : String
  body : List (Action Unit)

/-- A loaded project. -/
structure Project where
  scene : Scene
  /-- The blocks of each figure. -/
  graphs : List BlockGraph
  scripts : List FlagScript

/-- The operation code of hats that the green flag starts. -/
def greenFlag : String := "event_whenflagclicked"

def Figure.ofDecl (t : TargetDecl) : Figure where
  name := t.name
  isStage := t.isStage
  vars := t.vars.map fun v => ⟨v.1, v.2.name, v.2.value⟩
  lists := t.lists.map fun l => ⟨l.1, l.2.name, l.2.items⟩
  sounds := t.sounds.map (·.name)
  pose := ⟨t.x, t.y, t.direction⟩
  audio := ⟨t.volume, 0, 0⟩

namespace TargetDecl

def soundWarnings (t : TargetDecl) : List LogRecord :=
  (t.sounds.filter (·.asset.isNone)).map fun sound =>
    let figure := t.name
    let name := sound.name
    .warn s!"[{figure}] sound `{name}` has no asset"

/-- The scripts of a target, in the order of their hats' ids, and the records of building them. -/
def flagScripts (t : TargetDecl) (figure : Nat) : List FlagScript × List LogRecord :=
  let builder := Builder.ofGraph t.blocks
  let built := (t.blocks.topLevel greenFlag).map fun hat =>
    let (body, logs) := builder.script hat
    ((⟨figure, hat, body⟩ : FlagScript), logs)
  (built.map (·.1), built.flatMap (·.2))

end TargetDecl

namespace Project

/-- A project and the records of loading it: first those of malformed blocks, which have no order of
their own. -/
def ofDecl (config : Config) (pointer : Pointer) (d : ProjectDecl) : Except ProjectError Project × List LogRecord :=
  let malformed := sortRecords (d.targets.flatMap (·.blockWarnings))
  if d.targets.any (·.isStage) then
    let built := d.targets.mapIdx fun n t => (t.flagScripts n, t.soundWarnings)
    let scripts := built.flatMap (·.1.1)
    let targets := d.targets.length
    let count := scripts.length
    (.ok { scene := { figures := d.targets.map Figure.ofDecl, pointer, config },
           graphs := d.targets.map (·.blocks), scripts },
      malformed ++ built.flatMap (fun b => b.2 ++ b.1.2) ++
        [.info s!"loaded {targets} targets with {count} green-flag scripts"])
  else (.error .noStage, malformed)

/-- A project of a text. One that cannot be read still gives the records of the malformed blocks
before the fault. -/
def ofText (config : Config) (pointer : Pointer) (text : String) :
    Except ProjectError Project × List LogRecord :=
  match ProjectDecl.ofText? text with
  | some d => ofDecl config pointer d
  | none => (.error .malformed, sortRecords (ProjectDecl.warningsSoFar text))

def builder (p : Project) (figure : Nat) : Builder := Builder.ofGraph ((p.graphs[figure]?).getD .empty)

end Project
end BlockScript
