import BlockScript.Script.Substack

/-!
Sample blocks for trying out substacks. A sample records its label when it runs and then succeeds,
fails, crashes or cancels the scope it runs in.
-/
namespace BlockScript

/-- What a sample block does: it leaves a record, fails, panics or cancels its scope. -/
inductive SampleKind where
  | record | failVariable | failList | crashText | crashLabelled | crashSilent | cancel
  deriving DecidableEq

namespace SampleKind

def name : SampleKind → String
  | .record => "record"
  | .failVariable => "fail_variable"
  | .failList => "fail_list"
  | .crashText => "panic_text"
  | .crashLabelled => "panic_string"
  | .crashSilent => "panic_other"
  | .cancel => "cancel"

def all : List SampleKind := [.record, .failVariable, .failList, .crashText, .crashLabelled, .crashSilent, .cancel]

def ofName? (s : String) : Option SampleKind := all.find? (·.name == s)

end SampleKind

/-- A block that tells that it ran. -/
structure SampleBlock where
  kind : SampleKind
  label : String
  deriving DecidableEq

/-- The scope samples run in and the labels of those that ran. -/
structure SampleRun where
  cancelled : Bool
  labels : List String

namespace SampleBlock

def opcode (b : SampleBlock) : String := b.kind.name

def run (b : SampleBlock) (s : SampleRun) : SampleRun × Option RunError :=
  let s := { s with labels := s.labels ++ [b.label] }
  match b.kind with
  | .record => (s, none)
  | .failVariable => (s, some (.missingVariable b.label b.label))
  | .failList => (s, some (.missingList b.label b.label))
  | .crashText => (s, some (.crashed "boom"))
  | .crashLabelled => (s, some (.crashed ("boom " ++ b.label)))
  | .crashSilent => (s, some (.crashed "unknown panic"))
  | .cancel => ({ s with cancelled := true }, none)

end SampleBlock

/-- A substack of samples and the scope it runs in. -/
structure SampleBench where
  substack : Substack SampleBlock
  cancelled : Bool

/-- What can be asked of a substack of sample blocks. -/
inductive SampleStep where
  | push (block : SampleBlock)
  | insert (index : Nat) (block : SampleBlock)
  | remove (index : Nat)
  | freeze
  | newScope
  | execute

/-- What a substack of sample blocks answers. -/
inductive SampleAnswer where
  | nothing
  | opcode (name : String)
  | size (n : Nat)
  | labels (ran : List String)
  | error (e : SubstackError)

namespace SampleBench

def edit (b : SampleBench) (outcome : Except SubstackError (Substack SampleBlock)) :
    SampleBench × SampleAnswer × List LogRecord :=
  match outcome with
  | .ok substack => ({ b with substack }, .nothing, [])
  | .error e => (b, .error e, [])

/-- Samples run on the stage. -/
def perform (b : SampleBench) : SampleStep → SampleBench × SampleAnswer × List LogRecord
  | .push block => b.edit (b.substack.push block)
  | .insert index block => b.edit (b.substack.insert index block)
  | .remove index =>
    match b.substack.remove index with
    | .ok (substack, block) => ({ b with substack }, .opcode block.opcode, [])
    | .error e => (b, .error e, [])
  | .freeze => ({ b with substack := b.substack.freeze }, .size b.substack.size, [])
  | .newScope => ({ b with cancelled := false }, .nothing, [])
  | .execute =>
    let (substack, run, records) :=
      b.substack.execute SampleRun.cancelled SampleBlock.run
        (fun block e => e.record "Stage" block.opcode) ⟨b.cancelled, []⟩
    (⟨substack, run.cancelled⟩, .labels run.labels, records)

end SampleBench
end BlockScript
