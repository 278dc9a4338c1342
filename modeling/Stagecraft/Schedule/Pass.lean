import Stagecraft.Schedule.Turn

/-!
# A pass

A pass gives every thread a turn, in list order. It is cut short when its time is used up; the next
pass then starts at the first thread that was left out. Further rounds follow in the same pass, if
the settings say so, until a redraw is due. Threads that ended leave the list after every round, and
threads started during a pass join at its end.
-/

namespace Stagecraft

/-- A scheduler at work in a world. -/
structure Pass (σ : Type) where
  /-- The scheduler. -/
  scheduler : Scheduler
  /-- The world. -/
  world : World σ

namespace Pass

variable {σ : Type}

/-! ### A visit -/

/-- Take in a result that has come: as the value of a reporter of the top block, or as the end of
the top block itself. Tells whether the turn goes on. -/
def takeIn (s : Scheduler) (w : World σ) (t : Thread) (slot : Slotting) (v : Value) :
    Thread × Bool :=
  let t := { t with pending := none, status := .running }
  match slot with
  | .reporter h => (t.modifyTop fun f => { f with reported := f.reported.insert h v }, true)
  | .command =>
    match w.graph? t.actor with
    | none => (t.retire, false)
    | some g =>
      let t := t.modifyTop fun f => { f with reported := .empty }
      let (t, turn) := s.advance w.now g t
      (t, turn == .goesOn)

/-- The name of the operation on which a thread stands. -/
def standingOn (w : World σ) (t : Thread) : String :=
  match (w.graph? t.actor).bind fun g => t.topBlock?.bind g.opcode? with
  | some op => op.name
  | none => ""

/-- Look whether a parked thread can go on. -/
def wake (s : Scheduler) (w : World σ) (t : Thread) : Scene σ × Bool :=
  match t.pending with
  | none => (⟨w, { t with status := .running }⟩, true)
  | some p =>
    match w.poll p.channel with
    | (w, none) => (⟨w, t⟩, false)
    | (w, some (.resolved v)) =>
      let (t, on) := takeIn s w t p.slot v
      (⟨w, t⟩, on)
    | (w, some (.rejected reason)) =>
      (Scene.fault ⟨w, t⟩ (standingOn w t) (.rejected reason), false)

/-- Let a thread execute blocks; the thread of an actor that is gone ends. -/
def letRun (ext : Extensions σ) (fuel : Nat) (s : Scheduler) (w : World σ) (t : Thread) :
    Option (Scheduler × Scene σ) :=
  match w.graph? t.actor with
  | none => some (s, ⟨w, t.retire⟩)
  | some g =>
    let w := { w with current := some ⟨t.id, t.actor, t.top, false, false⟩ }
    match Scene.takeTurn ext g fuel s ⟨w, t⟩ with
    | none => none
    | some (s, scene) =>
      let t := if scene.thread.restarting then scene.thread.restart else scene.thread
      some (s, ⟨{ scene.world with current := none }, { t with warpSince := none }⟩)

/-- Give one thread its turn. -/
def visit (ext : Extensions σ) (fuel : Nat) (s : Scheduler) (w : World σ) (t : Thread) :
    Option (Scheduler × Scene σ) :=
  match t.status with
  | .done => some (s, ⟨w, t⟩)
  | .yieldedTick => some (s, ⟨w, t⟩)
  | .running => letRun ext fuel s w t
  | .yielded => letRun ext fuel s w t
  | .parked =>
    match wake s w t with
    | (scene, true) => letRun ext fuel s scene.world scene.thread
    | (scene, false) =>
      some (s, { scene with thread := { scene.thread with warpSince := none } })

/-- Give the thread at a place of the list its turn. Meanwhile another stands in for it. -/
def visitAt (ext : Extensions σ) (fuel : Nat) (p : Pass σ) (i : Nat) : Option (Pass σ) :=
  match p.world.threads[i]? with
  | none => some p
  | some t =>
    let w := { p.world with threads := p.world.threads.set i .absent }
    (visit ext fuel p.scheduler w t).map fun (s, scene) =>
      ⟨s, { scene.world with threads := scene.world.threads.set i scene.thread }⟩

/-! ### A round -/

/-- Give turns to the threads at the listed places until the time is used up; tells whether it
was. Time passes between turns. A pass that is cut short is taken up again at the next place of the
list. -/
def visitAll (ext : Extensions σ) (fuel : Nat) : List Nat → Pass σ → Option (Pass σ × Bool)
  | [], p => some ({ p with scheduler := { p.scheduler with resumeAt := none } }, false)
  | i :: rest, p =>
    match visitAt ext fuel p i with
    | none => none
    | some p =>
      let p := { p with world := p.world.elapse }
      if p.scheduler.budgetExhausted p.world.now then
        let skipped := rest.head?.bind fun j => p.world.threads[j]?.map (·.id)
        some ({ p with scheduler := { p.scheduler with resumeAt := skipped } }, true)
      else visitAll ext fuel rest p

/-- The places of a list of `n` threads in the order of their turns, from a first one on. -/
def order (first n : Nat) : List Nat := (List.range n).map fun k => (first + k) % n

/-- Take the threads that ended out of the list, with what they reported. -/
def collect (p : Pass σ) (finished : List ThreadId) : Pass σ × List ThreadId :=
  let ended := p.world.threads.filter (·.isDone)
  let finished := finished ++ ended.map (·.id)
  (⟨{ p.scheduler with stats := { p.scheduler.stats with threadsFinished := finished.length } },
    { p.world with
      threads := p.world.threads.filter fun t => !t.isDone
      reports := p.world.reports ++ ended.filterMap fun t => t.reported.map fun v => (t.id, v) }⟩,
    finished)

/-- Note that a round begins. -/
def countRound (s : Scheduler) : Scheduler :=
  { s with stats := { s.stats with rounds := s.stats.rounds + 1 } }

/-- Note that the time was used up. -/
def noteBudget (s : Scheduler) (exhausted : Bool) : Scheduler :=
  { s with stats := { s.stats with budgetExhausted := s.stats.budgetExhausted || exhausted } }

/-- Whether another round follows. -/
def goesAround (p : Pass σ) (exhausted : Bool) : Bool :=
  p.scheduler.repeatUntilRedraw && !exhausted && (!p.world.redraw || p.scheduler.turboMode) &&
    p.world.threads.any fun t => t.status == .running

/-- Rounds over the threads, the first one from a given place on; nothing when they do not end. -/
def rounds (ext : Extensions σ) (turnFuel : Nat) :
    Nat → Nat → Pass σ → List ThreadId → Option (Pass σ × List ThreadId)
  | 0, _, _, _ => none
  | fuel + 1, first, p, finished =>
    let p := { p with scheduler := countRound p.scheduler }
    match visitAll ext turnFuel (order first p.world.threads.length) p with
    | none => none
    | some (p, exhausted) =>
      let (p, finished) := p.collect finished
      let p := { p with scheduler := noteBudget p.scheduler exhausted }
      if p.goesAround exhausted then rounds ext turnFuel fuel 0 p finished
      else some (p, finished)

/-! ### The pass -/

/-- Where a pass starts: at the thread that the last one did not get to, else at the first. -/
def firstPlace (s : Scheduler) (threads : List Thread) : Nat :=
  match s.resumeAt with
  | some id => (threads.findIdx? fun t => t.id == id).getD 0
  | none => 0

/-- Begin a pass: its time starts, the counters start anew, no redraw is due, and threads that sat
out the last pass take part again. -/
def begin (s : Scheduler) (w : World σ) : Pass σ where
  scheduler := { s with
    passStarted := some w.now
    resumeAt := none
    stats := ⟨s.stats.passes + 1, 0, 0, 0, false⟩ }
  world := { w with
    redraw := false
    threads := w.threads.map fun t =>
      if t.status = .yieldedTick then { t with status := .running } else t }

/-- End a pass: the threads that it started join the list. -/
def finish (p : Pass σ) : Pass σ where
  scheduler := { p.scheduler with passStarted := none }
  world := { p.world with
    threads := p.world.threads ++ p.world.spawned.filter fun t => !t.isDone
    spawned := [] }

/-- Run one pass; gives the threads that ended. -/
def run (ext : Extensions σ) (fuel : Nat) (s : Scheduler) (w : World σ) :
    Option (Pass σ × List ThreadId) :=
  (rounds ext fuel fuel (firstPlace s w.threads) (begin s w) []).map fun (p, finished) =>
    (p.finish, finished)

end Pass

namespace World

variable {σ : Type}

/-- One step of the world: a pass over the threads, then the queued events, then requests to the
provider of shared variables. Gives the threads that ended. A step inside a pass does nothing, and
a step that does not end within the fuel has no result. -/
def step (ext : Extensions σ) (fuel : Nat) (w : World σ) : Option (World σ × List ThreadId) :=
  match w.scheduler with
  | none => some (w, [])
  | some s =>
    match Pass.run ext fuel (s.configure w.settings) { w with scheduler := none } with
    | none => none
    | some (p, finished) =>
      let w := { p.world with scheduler := some p.scheduler }
      some (w.dispatchEvents.flushCloud.1, finished)

end World

end Stagecraft
