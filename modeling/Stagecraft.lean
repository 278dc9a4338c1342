import Stagecraft.Actor
import Stagecraft.Arithmetic
import Stagecraft.Clock.Limiter
import Stagecraft.Clock.ProjectTimer
import Stagecraft.Clock.Span
import Stagecraft.Command.Arguments
import Stagecraft.Command.Output
import Stagecraft.Command.Run
import Stagecraft.Decimal.Double
import Stagecraft.Decimal.Layout
import Stagecraft.Decimal.Numeral
import Stagecraft.Decimal.Shortest
import Stagecraft.Deferred
import Stagecraft.Device.Cloud
import Stagecraft.Device.Keyboard
import Stagecraft.Device.Mouse
import Stagecraft.Directory
import Stagecraft.Event
import Stagecraft.Fault
import Stagecraft.Graph.Arena
import Stagecraft.Graph.Block
import Stagecraft.Graph.Builder
import Stagecraft.Graph.Edit
import Stagecraft.Graph.Opcode
import Stagecraft.Graph.Procedure
import Stagecraft.Graph.Walk
import Stagecraft.Inspect.Request
import Stagecraft.Inspect.Settings
import Stagecraft.Inspect.Value
import Stagecraft.Inspect.World
import Stagecraft.Json.Basic
import Stagecraft.Json.Number
import Stagecraft.Json.Parser
import Stagecraft.Json.Printer
import Stagecraft.Json.Record
import Stagecraft.Main
import Stagecraft.Primitive.Control
import Stagecraft.Primitive.Data
import Stagecraft.Primitive.Message
import Stagecraft.Primitive.Operator
import Stagecraft.Primitive.Procedure
import Stagecraft.Primitive.Run
import Stagecraft.Primitive.Scene
import Stagecraft.Primitive.Sensing
import Stagecraft.Primitive.Stage
import Stagecraft.Ron.Number
import Stagecraft.Ron.Quoted
import Stagecraft.Ron.Token
import Stagecraft.Ron.Value
import Stagecraft.Saved.Format
import Stagecraft.Saved.Load
import Stagecraft.Saved.Project
import Stagecraft.Schedule.Advance
import Stagecraft.Schedule.Execute
import Stagecraft.Schedule.Pass
import Stagecraft.Schedule.Scheduler
import Stagecraft.Schedule.Turn
import Stagecraft.Script.Frame
import Stagecraft.Script.Thread
import Stagecraft.Settings.Basic
import Stagecraft.Settings.Format
import Stagecraft.Table
import Stagecraft.Text.Blank
import Stagecraft.Text.Casing
import Stagecraft.Text.Name
import Stagecraft.Text.Quoted
import Stagecraft.Value.Basic
import Stagecraft.Value.ListIndex
import Stagecraft.Value.Number
import Stagecraft.World.Cast
import Stagecraft.World.Devices
import Stagecraft.World.Hats
import Stagecraft.World.Prompts
import Stagecraft.World.State
import Stagecraft.World.Threads
import Stagecraft.Proofs.Graph.Lookup
import Stagecraft.Proofs.Graph.Operation
import Stagecraft.Proofs.Graph.Consistency
import Stagecraft.Proofs.Graph.Index
import Stagecraft.Proofs.Graph.Staleness
import Stagecraft.Proofs.Graph.Chain
import Stagecraft.Proofs.Graph.Subtree
import Stagecraft.Proofs.Graph.Rewire
import Stagecraft.Proofs.Graph.Preservation
import Stagecraft.Proofs.Report.Order
import Stagecraft.Proofs.Report.Calls
import Stagecraft.Proofs.Schedule.Faults
import Stagecraft.Proofs.Schedule.Growth
import Stagecraft.Proofs.Schedule.Conduct
import Stagecraft.Proofs.Schedule.Containment
import Stagecraft.Proofs.Schedule.Phases
import Stagecraft.Proofs.Schedule.Effects
import Stagecraft.Proofs.Schedule.Turns
import Stagecraft.Proofs.Schedule.Rounds
import Stagecraft.Proofs.Schedule.Conservation
import Stagecraft.Proofs.Schedule.Apart
import Stagecraft.Proofs.Schedule.Stage
import Stagecraft.Proofs.Schedule.Uniqueness
import Stagecraft.Proofs.Schedule.Journal
import Stagecraft.Proofs.Schedule.Mishap
import Stagecraft.Proofs.Schedule.Rotation
import Stagecraft.Proofs.Schedule.Fairness
import Stagecraft.Proofs.Schedule.Warp
import Stagecraft.Proofs.Schedule.Bystanders
import Stagecraft.Proofs.Pace.Script
import Stagecraft.Proofs.Pace.Timeless
import Stagecraft.Proofs.Pace.Lone
import Stagecraft.Proofs.Pace.Evaluate
import Stagecraft.Proofs.Pace.Beat
import Stagecraft.Proofs.Pace.Course
import Stagecraft.Proofs.Pace.Load
import Stagecraft.Proofs.Pace.Start
import Stagecraft.Proofs.Pace.Outcome
import Stagecraft.Proofs.Saved.Program
import Stagecraft.Proofs.Saved.Reload
import Stagecraft.Proofs.Json.Spelling
import Stagecraft.Proofs.Json.Text
import Stagecraft.Proofs.Saved.Document
import Stagecraft.Proofs.Saved.Export
import Stagecraft.Proofs.Cast.Same
import Stagecraft.Proofs.Cast.Book
import Stagecraft.Proofs.Cast.Changes
import Stagecraft.Proofs.Cast.Identity
import Stagecraft.Proofs.Cast.Lookup
import Stagecraft.Proofs.Cast.Registry
import Stagecraft.Proofs.Schedule.Resumption
import Stagecraft.Proofs.Schedule.Waiting
import Stagecraft.Proofs.Cast.Tenancy
import Stagecraft.Proofs.Report.Attempt
import Stagecraft.Proofs.Report.Memos
import Stagecraft.Proofs.Report.Life
import Stagecraft.Proofs.Report.Once
import Stagecraft.Proofs.Report.Nesting
import Stagecraft.Proofs.Schedule.Makeup
import Stagecraft.Proofs.Schedule.Invocations
import Stagecraft.Proofs.Schedule.Route
import Stagecraft.Proofs.Cast.Programs
import Stagecraft.Proofs.Cast.Show
import Stagecraft.Proofs.Schedule.Depth
import Stagecraft.Proofs.Cloud.Outbox
import Stagecraft.Proofs.Schedule.Alive
import Stagecraft.Proofs.Schedule.Lifecycle
import Stagecraft.Proofs.Cast.Isolation
import Stagecraft.Proofs.Schedule.Vanished
import Stagecraft.Proofs.Saved.Links
import Stagecraft.Proofs.Saved.Strict
import Stagecraft.Proofs.Graph.Mending
import Stagecraft.Proofs.Saved.Cycles
import Stagecraft.Proofs.Graph.Trail
import Stagecraft.Proofs.Graph.Attach
import Stagecraft.Proofs.Graph.Deletion
import Stagecraft.Proofs.Graph.Splice
import Stagecraft.Proofs.Graph.Coverage
import Stagecraft.Proofs.Saved.Dangling
import Stagecraft.Proofs.Cast.Tour
import Stagecraft.Proofs.Schedule.Halting
import Stagecraft.Proofs.Schedule.Diary
import Stagecraft.Proofs.Schedule.Timeline
import Stagecraft.Proofs.Schedule.Blocks
import Stagecraft.Proofs.Schedule.Standing
import Stagecraft.Proofs.Schedule.Staged
import Stagecraft.Proofs.Schedule.Laps
import Stagecraft.Proofs.Schedule.Return
import Stagecraft.Proofs.Schedule.Presence
import Stagecraft.Proofs.Schedule.Barrier
import Stagecraft.Proofs.Schedule.Course
import Stagecraft.Proofs.Schedule.Ledger
import Stagecraft.Proofs.Schedule.Channels
import Stagecraft.Proofs.Schedule.Parking
import Stagecraft.Proofs.Schedule.Hats
import Stagecraft.Proofs.Schedule.Binding
import Stagecraft.Proofs.Schedule.Desk
import Stagecraft.Proofs.Schedule.Asking
import Stagecraft.Proofs.Schedule.Happenings
import Stagecraft.Proofs.Schedule.Prompts
import Stagecraft.Proofs.Clock.Rate
import Stagecraft.Proofs.Schedule.Straight
import Stagecraft.Proofs.Schedule.Arrival
import Stagecraft.Proofs.Schedule.Delay
import Stagecraft.Proofs.Flag.Past
import Stagecraft.Proofs.Flag.Turns
import Stagecraft.Proofs.Flag.Order
import Stagecraft.Proofs.Flag.Cues
import Stagecraft.Proofs.Flag.CleanStart
import Stagecraft.Proofs.Clock.Pausing
import Stagecraft.Proofs.Deferred.Handover
import Stagecraft.Proofs.Decimal.Rounding
import Stagecraft.Proofs.Decimal.Reading
import Stagecraft.Proofs.Decimal.Writing
import Stagecraft.Proofs.Value.Rereading
import Stagecraft.Proofs.Value.Comparison
import Stagecraft.Proofs.Device.Keys
import Stagecraft.Proofs.Cast.Lists
import Stagecraft.Proofs.Graph.Copies
import Stagecraft.Proofs.Graph.Building
import Stagecraft.Proofs.Graph.Walks
import Stagecraft.Proofs.Schedule.Flags
import Stagecraft.Proofs.Schedule.Inheritance
