import Stagecraft.Schedule.Scheduler
import Stagecraft.Graph.Walk
import Stagecraft.Graph.Procedure

/-!
# Moving through a program

How a thread leaves a block, enters a stack inside it and calls a procedure. Control flow is pushing
and popping frames: a loop is a frame that is marked as one and is executed again when the stack
inside it ends.
-/

namespace Stagecraft

/-- What follows one executed block. -/
inductive Turn where
  /-- The thread executes its next block in the same turn. -/
  | goesOn
  /-- The turn of the thread is over. -/
  | ends
deriving DecidableEq

namespace Scheduler

/-! ### Leaving a block -/

/-- Whether the turn goes on at a loop that is about to be executed again: in a warp frame it does
while time is left. -/
def atLoop (s : Scheduler) (now : Span) (t : Thread) (f : Frame) : Turn :=
  if f.warp && s.warpOk now t then .goesOn else .ends

/-- Go on below a frame that was popped: at a loop, after the first block that has a successor, or
nowhere, which ends the thread. -/
def unwind (s : Scheduler) (now : Span) (g : Graph) (t : Thread) : List Frame → Thread × Turn
  | [] => ({ t with stack := [], status := .done }, .ends)
  | f :: rest =>
    if f.isLoop then
      let t := { t with stack := f :: rest }
      (t, s.atLoop now t f)
    else match g.next? f.block with
      | some n => ({ t with stack := f.reuse n :: rest }, .goesOn)
      | none => s.unwind now g t rest

/-- Move past the top block. -/
def advance (s : Scheduler) (now : Span) (g : Graph) (t : Thread) : Thread × Turn :=
  match t.stack with
  | [] => (t, .goesOn)
  | f :: rest =>
    match g.next? f.block with
    | some n => ({ t with stack := f.reuse n :: rest }, .goesOn)
    | none => s.unwind now g t rest

end Scheduler

namespace Thread

/-! ### Entering a stack -/

/-- Enter the `n`-th stack inside the top block. An empty stack leaves control where it is, and an
empty loop yields. -/
def enterBranch (t : Thread) (g : Graph) (n : Nat) (isLoop : Bool) : Thread :=
  match t.topBlock? with
  | none => t
  | some b =>
    let t := t.modifyTop fun f => { f with isLoop := isLoop }
    match g.branch? b n with
    | some first => t.push first
    | none => if isLoop then { t with status := .yielded } else t

/-! ### Calling a procedure -/

/-- The value of the argument at a position: what the call supplies under the argument's id, else
the default, else nothing. -/
def argumentValue (p : Parameters) (supplied : Table String Value) (i : Nat) : Value :=
  match p.ids[i]?.bind supplied.get? with
  | some v => v
  | none => match p.defaults[i]? with
    | some d => .text d
    | none => .blank

/-- Bind every argument of a procedure on the top frame. -/
def bindArguments (t : Thread) (p : Parameters) (supplied : Table String Value) : Thread :=
  p.names.zipIdx.foldl (fun t e => t.bindArgument e.1 (argumentValue p supplied e.2)) t

end Thread

/-- What became of a call. -/
inductive Call where
  /-- The body of the procedure was entered. -/
  | entered
  /-- There is no such procedure. -/
  | unknown
  /-- The stack is too deep. -/
  | tooDeep
deriving DecidableEq

namespace Scheduler

/-- Whether the top frame runs without yielding. -/
def inWarp (t : Thread) : Bool :=
  match t.stack with
  | f :: _ => f.warp
  | [] => false

/-- Settle how the body of a procedure starts: yielding when a warp frame is out of time, in warp
when the procedure says so, and yielding when the call is recursive. -/
def settleCall (s : Scheduler) (now : Span) (t : Thread) (warp recursive : Bool) : Thread :=
  if inWarp t && !s.warpTimerOk now t then { t with status := .yielded }
  else if warp then t.modifyTop fun f => { f with warp := true }
  else if recursive then { t with status := .yielded }
  else t

/-- Enter the body of a procedure with its arguments bound by name. -/
def enterProcedure (s : Scheduler) (now : Span) (g : Graph) (t : Thread) (code : String)
    (supplied : Table String Value) : Thread × Call :=
  match g.definition? code with
  | none => (t, .unknown)
  | some definition =>
    if s.maxCallDepth ≤ t.depth then (t, .tooDeep)
    else
      let recursive := t.isRecursiveCall g code
      let t := (t.push definition).initArguments
      match g.parameters? code with
      | some p => (s.settleCall now (t.bindArguments p supplied) p.warp recursive, .entered)
      | none => (s.settleCall now t false recursive, .entered)

end Scheduler

end Stagecraft
