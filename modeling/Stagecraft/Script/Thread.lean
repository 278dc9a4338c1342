import Stagecraft.Script.Frame
import Stagecraft.Graph.Arena

/-!
# Threads

A thread is one running instance of a script: a stack of frames, top first, and a status that the
scheduler reads after every block. Threads hold handles only; the program they run is looked up in
the graph they are given.
-/

namespace Stagecraft

/-- What a thread is up to. -/
inductive Status where
  /-- It executes blocks. -/
  | running
  /-- It gives up its turn and goes on at the same block. -/
  | yielded
  /-- It also sits out further rounds of the pass. -/
  | yieldedTick
  /-- It is parked on a result that comes later. -/
  | parked
  /-- It has ended. -/
  | done
deriving DecidableEq

/-- Where the result of a parked thread goes. -/
inductive Slotting where
  /-- It is the value of a reporter of the top block. -/
  | reporter (block : Handle)
  /-- It completes the top block itself. -/
  | command
deriving DecidableEq

/-- What a parked thread waits for. -/
structure Pending where
  /-- The channel on which the result comes. -/
  channel : Nat
  /-- Where the result goes. -/
  slot : Slotting
deriving DecidableEq

/-- One running instance of a script. -/
structure Thread where
  /-- The id of the thread. -/
  id : ThreadId
  /-- The actor whose script it runs. -/
  actor : ActorId
  /-- The block that it started from. -/
  top : Option Handle
  /-- The frames, top first. -/
  stack : List Frame
  /-- What it is up to. -/
  status : Status
  /-- When it entered a warp frame in its current turn. -/
  warpSince : Option Span
  /-- What it is parked on. -/
  pending : Option Pending
  /-- Whether it was started by clicking the script. -/
  clicked : Bool
  /-- What its top block reported. -/
  reported : Option Value
  /-- Whether it starts over once its turn ends. -/
  restarting : Bool
deriving DecidableEq

namespace Thread

/-- A thread with nothing to do. -/
def idle (id : ThreadId) (actor : ActorId) : Thread where
  id := id
  actor := actor
  top := none
  stack := []
  status := .running
  warpSince := none
  pending := none
  clicked := false
  reported := none
  restarting := false

/-- A thread at the top of a script. -/
def start (id : ThreadId) (actor : ActorId) (top : Handle) : Thread :=
  { idle id actor with top := some top, stack := [.start top false] }

/-- What stands in the list for a thread that is out for its turn. -/
def absent : Thread := { idle 0 0 with status := .done }

/-- Whether a thread has ended. -/
def isDone (t : Thread) : Bool := t.status == .done

/-! ### The stack -/

/-- The top frame. -/
def topFrame? (t : Thread) : Option Frame := t.stack.head?

/-- The block of the top frame. -/
def topBlock? (t : Thread) : Option Handle := t.stack.head?.map (·.block)

/-- The block of the frame below the top. -/
def parentFrame? (t : Thread) : Option Frame := (t.stack.drop 1).head?

/-- The number of frames. -/
def depth (t : Thread) : Nat := t.stack.length

/-- The blocks on the stack, bottom first. -/
def stackBlocks (t : Thread) : List Handle := (t.stack.map (·.block)).reverse

/-- Whether the thread is in its first frame. -/
def atBottom (t : Thread) : Bool := t.stack.length == 1

/-- Push a frame; it inherits warp from the frame below. -/
def push (t : Thread) (block : Handle) : Thread :=
  let warp := match t.stack with
    | f :: _ => f.warp
    | [] => false
  { t with stack := .start block warp :: t.stack }

/-- Pop the top frame, if there is one. -/
def pop (t : Thread) : Thread := { t with stack := t.stack.drop 1 }

/-- Change the top frame. -/
def modifyTop (t : Thread) (f : Frame → Frame) : Thread :=
  match t.stack with
  | top :: rest => { t with stack := f top :: rest }
  | [] => t

/-- The frame at a position, counted from zero at the bottom. -/
def frameAt? (t : Thread) (i : Nat) : Option Frame :=
  if i < t.stack.length then t.stack[t.stack.length - 1 - i]? else none

/-- Change the frame at a position, counted from zero at the bottom. -/
def modifyFrame (t : Thread) (i : Nat) (f : Frame → Frame) : Thread :=
  if i < t.stack.length then { t with stack := t.stack.modify (t.stack.length - 1 - i) f } else t

/-- Move the top frame on to another block. -/
def reuseTop (t : Thread) (block : Handle) : Thread := t.modifyTop (·.reuse block)

/-- Move the top frame to the successor of its block, or pop it at the end of a chain. -/
def goToNext (t : Thread) (g : Graph) : Thread :=
  match t.topBlock? with
  | none => t
  | some b =>
    match g.next? b with
    | some n => t.reuseTop n
    | none => t.pop

/-! ### Procedures -/

/-- Whether a frame calls a procedure. -/
def callsProcedure (g : Graph) (code : String) (f : Frame) : Bool :=
  match g.get? f.block with
  | some b => b.opcode == .procedure .call && (b.signature.map (·.code)) == some code
  | none => false

/-- Whether a frame below the top is a call of a procedure. -/
def isRecursiveCall (t : Thread) (g : Graph) (code : String) : Bool :=
  (t.stack.drop 1).any (callsProcedure g code)

/-- Give the top frame a table of arguments, unless it has one. -/
def initArguments (t : Thread) : Thread :=
  t.modifyTop fun f => { f with arguments := some (f.arguments.getD .empty) }

/-- Bind an argument on the top frame. -/
def bindArgument (t : Thread) (name : String) (v : Value) : Thread :=
  t.modifyTop fun f => { f with arguments := some ((f.arguments.getD .empty).insert name v) }

/-- The value of an argument. The nearest frame with arguments decides. -/
def argument? (t : Thread) (name : String) : Option Value :=
  (t.stack.findSome? (·.arguments)).bind (·.get? name)

/-! ### Ending and starting over -/

/-- End the thread. -/
def retire (t : Thread) : Thread :=
  { t with stack := [], pending := none, warpSince := none, restarting := false, status := .done }

/-- Start over from the top block. -/
def restart (t : Thread) : Thread :=
  { t with
    stack := match t.top with
      | some h => [.start h false]
      | none => []
    pending := none
    warpSince := none
    restarting := false
    status := .running }

/-- The frames from the innermost procedure call down; none outside a procedure. -/
def toCall (g : Graph) (stack : List Frame) : List Frame :=
  stack.dropWhile fun f => g.opcode? f.block ≠ some (.procedure .call)

/-- Leave the innermost procedure, or end the thread outside one. -/
def stopScript (t : Thread) (g : Graph) : Thread :=
  let stack := toCall g t.stack
  { t with stack := stack, status := if stack.isEmpty then .done else t.status }

end Thread

end Stagecraft
