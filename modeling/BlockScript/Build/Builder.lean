import BlockScript.Build.Catalog

/-!
Building scripts from block dictionaries. A chain is built block by block; a block that cannot be
built is logged and left out, and the chain goes on behind it. Every block and every nested body
takes one level of depth, so construction ends on any dictionary, cyclic ones included.
-/
namespace BlockScript

/-- How deep blocks and bodies may nest. -/
def maxBuildDepth : Nat := 256

/-- A dictionary with the tables that tell what its operation codes stand for. -/
structure Builder where
  graph : BlockGraph
  registries : Registries

namespace Builder

def ofGraph (graph : BlockGraph) : Builder := ⟨graph, .builtin⟩

/-- The reporter of an id, with room for so many levels. -/
def reporterAt (b : Builder) : (room : Nat) → (id : String) → Build (Reporter Unit)
  | room, id =>
    match b.graph.get? id with
    | none => .fail (.missingBlock id)
    | some node =>
      match b.registries.reporters.resolve? node.opcode with
      | none => .fail (.unknownOpcode id node.opcode .reporter)
      | some (opcode, kind) =>
        match room with
        | 0 => .fail (.tooDeep id)
        | room + 1 => kind.build (b.reporterAt room) ⟨id, opcode, node⟩

/-- The statement of a node, with room for so many levels and a way to build its bodies. -/
def actionAt (b : Builder) (room : Nat) (body : BlockSpec → String → Build (List (Action Unit)))
    (id : String) (node : BlockNode) : Build (Action Unit) :=
  match b.registries.actions.resolve? node.opcode with
  | none => .fail (.unknownOpcode id node.opcode .statement)
  | some (opcode, kind) =>
    match room with
    | 0 => .fail (.tooDeep id)
    | room + 1 =>
      let spec : BlockSpec := ⟨id, opcode, node⟩
      kind.build ⟨b.reporterAt room, body spec⟩ spec

/-- One block of a chain: built, or logged and left out. -/
def link (action : String → BlockNode → Build (Action Unit)) (b : Builder) (id : String) :
    List (Action Unit) × List LogRecord :=
  match b.graph.get? id with
  | none => ([], [])
  | some node =>
    let built := action id node
    match built.outcome with
    | .ok a => ([a], built.logs)
    | .error e =>
      let problem := e.message
      ([], built.logs ++ [.error s!"skipping block `{id}`: {problem}"])

/-- The record of a chain that does not end where it should. -/
def endRecord : BlockGraph.ChainEnd → List LogRecord
  | .done => []
  | .missing id => [.warn (BuildError.message (.missingBlock id))]
  | .loops id => [.error s!"`next` chain loops back to block `{id}`"]

/-- The blocks of a chain and the records of building them. -/
def walk (b : Builder) (action : String → BlockNode → Build (Action Unit)) (start : Option String) :
    List (Action Unit) × List LogRecord :=
  let (ids, ending) := b.graph.chain start
  let links := ids.map (link action b)
  (links.flatMap (·.1), links.flatMap (·.2) ++ endRecord ending)

/-- The chain from a start, with room for so many levels. A statement takes a level and each of its
bodies another. -/
def substackAt (b : Builder) : (room : Nat) → Option String → List (Action Unit) × List LogRecord
  | 0, start => b.walk (b.actionAt 0 fun spec _ => .fail (.tooDeep spec.id)) start
  | 1, start => b.walk (b.actionAt 1 fun spec _ => .fail (.tooDeep spec.id)) start
  | room + 2, start =>
    b.walk (b.actionAt (room + 2) fun _ id =>
      let (blocks, logs) := b.substackAt room (some id)
      ⟨.ok blocks, logs⟩) start

def substack (b : Builder) (start : Option String) : List (Action Unit) × List LogRecord :=
  b.substackAt maxBuildDepth start

/-- The body of the script under a hat. -/
def script (b : Builder) (hat : String) : List (Action Unit) × List LogRecord :=
  match b.graph.get? hat with
  | some node => b.substack node.next
  | none => ([], [.warn s!"script hat `{hat}` does not exist"])

def reporter (b : Builder) (id : String) : Build (Reporter Unit) := b.reporterAt maxBuildDepth id

end Builder
end BlockScript
