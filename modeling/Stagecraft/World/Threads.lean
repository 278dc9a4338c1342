import Stagecraft.World.Cast

/-!
# Threads of a world

Starting, stopping and looking up threads. Threads started during a pass wait in a list of their own
and first run in the next pass. Outside a pass, threads that ended leave the list at once.
-/

namespace Stagecraft.World

variable {σ : Type}

/-- A thread by id. -/
def thread? (w : World σ) (id : ThreadId) : Option Thread :=
  (w.threads ++ w.spawned).find? fun t => t.id == id

/-- Whether a thread exists and has not ended. -/
def isActive (w : World σ) (id : ThreadId) : Bool :=
  (match w.current with
    | some c => c.id == id && !c.retire
    | none => false) ||
  (match w.thread? id with
    | some t => !t.isDone
    | none => false)

/-- Start a thread at a block. -/
def pushThread (w : World σ) (actor : ActorId) (top : Handle) : World σ × ThreadId :=
  let id := w.nextThread
  let t := Thread.start id actor top
  let w := { w with nextThread := id + 1 }
  if w.inPass then ({ w with spawned := w.spawned ++ [t] }, id)
  else ({ w with threads := w.threads ++ [t] }, id)

/-- Change every thread that is in a list. -/
def mapThreads (w : World σ) (f : Thread → Thread) : World σ :=
  { w with threads := w.threads.map f, spawned := w.spawned.map f }

/-- Outside a pass, drop the threads that ended. -/
def dropFinished (w : World σ) : World σ :=
  if w.inPass then w
  else
    { w with
      threads := w.threads.filter fun t => !t.isDone
      spawned := w.spawned.filter fun t => !t.isDone }

/-- Whether a thread runs the script at a block of an actor. -/
def runsScript (actor : ActorId) (top : Handle) (t : Thread) : Bool :=
  t.actor == actor && t.top == some top && !t.isDone

/-- The first thread in the lists that runs a script. -/
def running? (w : World σ) (actor : ActorId) (top : Handle) : Option Thread :=
  (w.threads ++ w.spawned).find? (runsScript actor top)

/-- Change the first thread that satisfies a test. -/
def modifyFirst (p : Thread → Bool) (f : Thread → Thread) : List Thread → List Thread
  | [] => []
  | t :: rest => if p t then f t :: rest else t :: modifyFirst p f rest

/-- Change the first thread in the lists that runs a script. -/
def modifyRunning (w : World σ) (actor : ActorId) (top : Handle) (f : Thread → Thread) : World σ :=
  if w.threads.any (runsScript actor top) then
    { w with threads := modifyFirst (runsScript actor top) f w.threads }
  else { w with spawned := modifyFirst (runsScript actor top) f w.spawned }

/-- Start a script, or stop it when it is running; gives the new thread, if there is one. -/
def toggleScript (w : World σ) (actor : ActorId) (top : Handle) : World σ × Option ThreadId :=
  match w.running? actor top with
  | some _ => ((w.modifyRunning actor top Thread.retire).dropFinished, none)
  | none =>
    let (w, id) := w.pushThread actor top
    (w.mapThreads fun t => if t.id = id then { t with clicked := true } else t, some id)

/-- Ask the thread that has its turn to end, if it satisfies a test. -/
def retireCurrent (w : World σ) (p : Current → Bool) : World σ :=
  { w with current := w.current.map fun c => if p c then { c with retire := true } else c }

/-- Stop the threads of an actor, except one. -/
def stopActor (w : World σ) (actor : ActorId) (keep : Option ThreadId) : World σ :=
  let w := w.mapThreads fun t => if t.actor = actor && some t.id ≠ keep then t.retire else t
  (w.retireCurrent fun c => c.actor == actor && some c.id != keep).dropFinished

end Stagecraft.World
