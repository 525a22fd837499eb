import BlockScript.Block.Graph
import BlockScript.Block.Input
import BlockScript.Block.Node
import BlockScript.Block.Operator
import BlockScript.Block.Tree
import BlockScript.Build.Basic
import BlockScript.Build.Bench
import BlockScript.Build.Builder
import BlockScript.Build.Catalog
import BlockScript.CommandLine
import BlockScript.Event.Hub
import BlockScript.Event.Workspace
import BlockScript.Json.Basic
import BlockScript.Json.Decode
import BlockScript.Json.NumberToken
import BlockScript.Json.Reader
import BlockScript.Json.Token
import BlockScript.Json.Writer
import BlockScript.Log
import BlockScript.Main
import BlockScript.Number.Arithmetic
import BlockScript.Number.Basic
import BlockScript.Number.Decimal
import BlockScript.Number.Elementary
import BlockScript.Number.Power
import BlockScript.Project.Declaration
import BlockScript.Project.Load
import BlockScript.Project.Warnings
import BlockScript.Proofs.Block.Containment
import BlockScript.Proofs.Block.Dictionary
import BlockScript.Proofs.Block.Input
import BlockScript.Proofs.Block.Letters
import BlockScript.Proofs.Block.Random
import BlockScript.Proofs.Block.Remainder
import BlockScript.Proofs.Build.Chain
import BlockScript.Proofs.Build.Counter
import BlockScript.Proofs.Build.Depth
import BlockScript.Proofs.Build.Hat
import BlockScript.Proofs.Build.Reachable
import BlockScript.Proofs.Build.Reconstruction
import BlockScript.Proofs.Build.Registration
import BlockScript.Proofs.Build.Signature
import BlockScript.Proofs.Build.Sites
import BlockScript.Proofs.Build.Unrolling
import BlockScript.Proofs.Event.Forwarding
import BlockScript.Proofs.Event.Links
import BlockScript.Proofs.Event.Notification
import BlockScript.Proofs.Event.Raising
import BlockScript.Proofs.Event.Workspace
import BlockScript.Proofs.Json.Members
import BlockScript.Proofs.Number.Direction
import BlockScript.Proofs.Number.Exact
import BlockScript.Proofs.Number.Finite
import BlockScript.Proofs.Number.HalfUp
import BlockScript.Proofs.Number.Nearest
import BlockScript.Proofs.Number.Order
import BlockScript.Proofs.Number.RoundTrip
import BlockScript.Proofs.Number.Rounding
import BlockScript.Proofs.Number.Shortest
import BlockScript.Proofs.Number.Spans
import BlockScript.Proofs.Number.Truncate
import BlockScript.Proofs.Number.Whole
import BlockScript.Proofs.Project.Numbers
import BlockScript.Proofs.Scene.ListIndex
import BlockScript.Proofs.Scene.Sounds
import BlockScript.Proofs.Script.Alike
import BlockScript.Proofs.Script.Alone
import BlockScript.Proofs.Script.Bare
import BlockScript.Proofs.Script.Counting
import BlockScript.Proofs.Script.Execution
import BlockScript.Proofs.Script.Gliding
import BlockScript.Proofs.Script.Isolation
import BlockScript.Proofs.Script.LifeCycle
import BlockScript.Proofs.Script.ListBlocks
import BlockScript.Proofs.Script.ListSearch
import BlockScript.Proofs.Script.ListStore
import BlockScript.Proofs.Script.Lockstep
import BlockScript.Proofs.Script.Loops
import BlockScript.Proofs.Script.Purpose
import BlockScript.Proofs.Script.Realm
import BlockScript.Proofs.Script.Settings
import BlockScript.Proofs.Script.Sources
import BlockScript.Proofs.Script.Tandem
import BlockScript.Proofs.Session.Cancelled
import BlockScript.Proofs.Session.Course
import BlockScript.Proofs.Session.Decisions
import BlockScript.Proofs.Session.Gliding
import BlockScript.Proofs.Session.Independence
import BlockScript.Proofs.Session.Loops
import BlockScript.Proofs.Session.Settings
import BlockScript.Proofs.Session.Subscriptions
import BlockScript.Proofs.Session.Turning
import BlockScript.Proofs.Session.WakeUp
import BlockScript.Proofs.Text.LowerCase
import BlockScript.Proofs.Value.Comparison
import BlockScript.Proofs.Value.Literal
import BlockScript.Proofs.Value.Spelling
import BlockScript.Registry
import BlockScript.Scene.Audio
import BlockScript.Scene.Basic
import BlockScript.Scene.Change
import BlockScript.Scene.ItemList
import BlockScript.Scene.ListBench
import BlockScript.Scene.Motion
import BlockScript.Script.Cancellation
import BlockScript.Script.Command
import BlockScript.Script.Evaluation
import BlockScript.Script.Failure
import BlockScript.Script.Machine
import BlockScript.Script.Relay
import BlockScript.Script.Sample
import BlockScript.Script.Substack
import BlockScript.Script.Thread
import BlockScript.Script.World
import BlockScript.Session.Basic
import BlockScript.Session.Run
import BlockScript.Session.Step
import BlockScript.Text.Blank
import BlockScript.Text.CaseTable
import BlockScript.Text.CodeRange
import BlockScript.Text.LowerCase
import BlockScript.Text.Quoted
import BlockScript.Value
