import Stagecraft.Schedule.Execute

/-!
# A turn

A thread executes blocks until it yields, is parked or ends. A turn that never ends has no result:
the fuel of `Scene.takeTurn` bounds the number of blocks, and more fuel gives the same result.
-/

namespace Stagecraft.Scene

variable {σ : Type}

/-- Record a fault of the thread and end it. -/
def fault (s : Scene σ) (opcode : String) (f : Fault) : Scene σ :=
  ⟨s.world.recordFault ⟨s.thread.id, s.thread.actor, opcode, f⟩, s.thread.retire⟩

/-- Follow what was asked of the thread meanwhile: to end, or else to start over after its turn. -/
def obey (s : Scene σ) : Scene σ × Bool :=
  match s.world.current with
  | none => (s, false)
  | some c =>
    if c.retire then
      (⟨{ s.world with current := some { c with retire := false } }, s.thread.retire⟩, true)
    else if c.restart then
      (⟨{ s.world with current := some { c with restart := false } },
        { s.thread with restarting := true }⟩, true)
    else (s, false)

/-- Start the warp time of a thread that is in a warp frame, unless it is running. -/
def startWarp (now : Span) (t : Thread) : Thread :=
  if Scheduler.inWarp t && t.warpSince.isNone then { t with warpSince := some now } else t

/-- What follows an executed block: a yield ends the turn except in warp, a block that is still on
top is left, and one that entered something lets the thread go on there. -/
def proceed (scheduler : Scheduler) (g : Graph) (top : Handle) (warp : Bool) (s : Scene σ) :
    Scene σ × Turn :=
  match s.thread.status with
  | .yielded =>
    let t := { s.thread with status := .running }
    ({ s with thread := t }, if warp && scheduler.warpOk s.world.now t then .goesOn else .ends)
  | .yieldedTick => (s, .ends)
  | .parked => (s, .ends)
  | .done => (s, .ends)
  | .running =>
    if s.thread.stack.isEmpty then ({ s with thread := { s.thread with status := .done } }, .ends)
    else if s.thread.topBlock? = some top then
      let (t, turn) := scheduler.advance s.world.now g s.thread
      ({ s with thread := t }, turn)
    else (s, .goesOn)

/-- Execute the top block and move on from it; time passes before. -/
def stepBlock (ext : Extensions σ) (g : Graph) (scheduler : Scheduler) (s : Scene σ) :
    Scheduler × Scene σ × Turn :=
  match s.thread.topBlock? with
  | none => (scheduler, { s with thread := { s.thread with status := .done } }, .ends)
  | some top =>
    let warp := Scheduler.inWarp s.thread
    let s := { s with world := s.world.elapse }
    let s := { s with thread := startWarp s.world.now s.thread }
    let scheduler := scheduler.countBlock
    match s.execute ext scheduler g with
    | (s, some f) =>
      let opcode := match g.opcode? top with
        | some op => op.name
        | none => ""
      (scheduler, s.fault opcode f, .ends)
    | (s, none) =>
      match s.obey with
      | (s, true) => (scheduler, s, .ends)
      | (s, false) =>
        let (s, turn) := s.proceed scheduler g top warp
        (scheduler, s, turn)

/-- Execute blocks until the turn is over; nothing when it is not over after `fuel` blocks. -/
def takeTurn (ext : Extensions σ) (g : Graph) :
    Nat → Scheduler → Scene σ → Option (Scheduler × Scene σ)
  | 0, _, _ => none
  | fuel + 1, scheduler, s =>
    match s.stepBlock ext g scheduler with
    | (scheduler, s, .ends) => some (scheduler, s)
    | (scheduler, s, .goesOn) => takeTurn ext g fuel scheduler s

end Stagecraft.Scene
