import Stagecraft.Graph.Block
import Stagecraft.Clock.Span

/-!
# Frames of a thread's stack

A frame executes one block. It remembers what the block needs between its executions: the count of
a loop, the start of a wait, the threads that a broadcast started, the values that its reporters
have given so far, and, for the body of a procedure, the arguments.
-/

namespace Stagecraft

/-- Names a thread; ids are never used twice. -/
abbrev ThreadId := Nat

/-- Names an actor; ids are never used twice. -/
abbrev ActorId := Nat

/-- The text of a thread's id. -/
def ThreadId.text (id : ThreadId) : String := "Thread(" ++ toString id ++ ")"

/-- The text of an actor's id. -/
def ActorId.text (id : ActorId) : String := "Target(" ++ toString id ++ ")"

/-- What a block keeps between its executions. -/
inductive Progress where
  /-- Nothing yet. -/
  | fresh
  /-- A counted loop with so many rounds left. -/
  | counting (remaining : Int64)
  /-- A wait of some duration that started at a reading. -/
  | timing (started duration : Span)
  /-- A broadcast that waits for the threads it started. -/
  | awaiting (threads : List ThreadId)
  /-- A call that has pushed its procedure. -/
  | called
deriving DecidableEq

/-- One level of a thread's stack. -/
structure Frame where
  /-- The block that the frame executes. -/
  block : Handle
  /-- Whether the block is executed again when the stack inside it ends. -/
  isLoop : Bool
  /-- Whether blocks run on without yielding. -/
  warp : Bool
  /-- The arguments of the procedure whose body starts here. -/
  arguments : Option (Table String Value)
  /-- The values that reporters have given for the block. -/
  reported : Table Handle Value
  /-- What the block keeps between its executions. -/
  progress : Progress
deriving DecidableEq

namespace Frame

/-- A frame that starts at a block. -/
def start (block : Handle) (warp : Bool) : Frame := ⟨block, false, warp, none, .empty, .fresh⟩

/-- Move a frame on to another block; warp and arguments are kept. -/
def reuse (f : Frame) (block : Handle) : Frame :=
  { f with block := block, isLoop := false, reported := .empty, progress := .fresh }

end Frame

end Stagecraft
