import Stagecraft.World.Threads
import Stagecraft.World.Prompts

/-!
# Starting scripts, clones and stopping

An event starts every script under a matching hat. A script that is running is started over when the
hat says so and left alone otherwise. Creating a clone starts its scripts; stopping everything
deletes the clones and drops events, prompts and bubbles.
-/

namespace Stagecraft.World

variable {σ : Type}

/-! ### Matching -/

/-- Whether a block is a hat with the listed fields. -/
def hatMatches (hat : Opcode) (fields : List (String × String)) (b : Block) : Bool :=
  b.opcode == hat && fields.all fun (name, value) =>
    match b.field? name with
    | some field => Text.lower field == Text.lower value
    | none => false

/-- The scripts under a matching hat: actors in the order in which they came, and blocks in slot
order. -/
def matchingScripts (w : World σ) (hat : Opcode) (fields : List (String × String))
    (only : Option ActorId) : List (ActorId × Handle) :=
  (w.actors.values.filter fun a => only.all (· == a.id)).flatMap fun a =>
    match w.sprites.get? a.sprite with
    | none => []
    | some s =>
      s.graph.scripts.filterMap fun top =>
        match s.graph.get? top with
        | some b => if hatMatches hat fields b then some (a.id, top) else none
        | none => none

/-! ### Starting -/

/-- Whether the thread that has its turn runs a script. -/
def currentRuns (w : World σ) (actor : ActorId) (top : Handle) : Bool :=
  match w.current with
  | some c => c.actor == actor && c.top == some top && !c.retire
  | none => false

/-- Start one script; gives the thread that was started or started over. -/
def startScript (w : World σ) (restarts : Bool) (actor : ActorId) (top : Handle) :
    World σ × Option ThreadId :=
  if w.currentRuns actor top then
    ({ w with current := w.current.map fun c => { c with restart := c.restart || restarts } }, none)
  else match w.running? actor top with
    | some t =>
      if restarts then (w.modifyRunning actor top Thread.restart, some t.id) else (w, none)
    | none =>
      let (w, id) := w.pushThread actor top
      (w, some id)

/-- Start scripts one after the other; gives the threads that were started. -/
def startScripts (restarts : Bool) :
    List (ActorId × Handle) → World σ → World σ × List ThreadId
  | [], w => (w, [])
  | (actor, top) :: rest, w =>
    let (w, id) := w.startScript restarts actor top
    let (w, ids) := startScripts restarts rest w
    (w, id.toList ++ ids)

/-- Start every script under a matching hat; gives the threads that were started. -/
def startHats (w : World σ) (hat : Opcode) (fields : List (String × String))
    (only : Option ActorId) : World σ × List ThreadId :=
  match hat.restartsRunning? with
  | none => (w.notify (.notAHat hat.name), [])
  | some restarts => startScripts restarts (w.matchingScripts hat fields only) w

/-- Start the scripts of an event. -/
def raise (w : World σ) (e : Event) : World σ × List ThreadId :=
  w.startHats e.hat e.fields e.actor

/-- Put an event into the queue. -/
def queueEvent (w : World σ) (e : Event) : World σ := { w with events := w.events.push e }

/-- Start the scripts that receive a message. -/
def broadcast (w : World σ) (message : String) : World σ × List ThreadId :=
  w.raise (.broadcast message)

/-- Start the scripts of an actor that was clicked. -/
def clickActor (w : World σ) (actor : ActorId) : World σ × List ThreadId :=
  w.raise (.clicked actor)

/-- Start the scripts of all queued events. -/
def dispatchEvents (w : World σ) : World σ :=
  let (events, raised) := w.events.drain
  raised.foldl (fun w e => (w.raise e).1) { w with events := events }

/-! ### Clones -/

/-- Clone an actor and start the scripts of the clone. There is no clone of a stage or of an actor
that does not exist, nor beyond the limit. -/
def createClone (w : World σ) (source : ActorId) : World σ × Option ActorId :=
  if w.settings.maxClones ≤ w.cloneCount then (w.notify (.cloneLimit w.settings.maxClones), none)
  else match w.actor? source with
    | none => (w, none)
    | some a =>
      if a.isStage then (w, none)
      else
        let id := w.nextActor
        let w := { w with
          nextActor := id + 1
          actors := w.actors.insert id (a.clone id)
          sprites := w.sprites.modify a.sprite fun s => { s with clones := s.clones ++ [id] }
          cloneCount := w.cloneCount + 1 }
        ((w.raise (.cloneStart id)).1, some id)

/-- Delete a clone and stop its threads; tells whether there was such a clone. -/
def deleteClone (w : World σ) (id : ActorId) : World σ × Bool :=
  match w.actor? id with
  | none => (w, false)
  | some a =>
    if !a.isClone then (w, false)
    else
      let w := w.stopActor id none
      ({ w with
          actors := w.actors.erase id
          sprites := w.sprites.modify a.sprite fun s =>
            { s with clones := s.clones.filter (· ≠ id) }
          cloneCount := w.cloneCount - 1 }, true)

/-! ### Stopping -/

/-- The clones. -/
def clones (w : World σ) : List ActorId :=
  (w.actors.values.filter fun a => a.isClone).map (·.id)

/-- Stop every thread, delete every clone and drop bubbles, events and prompts. -/
def stopAll (w : World σ) : World σ :=
  let w := ((w.mapThreads Thread.retire).retireCurrent fun _ => true).dropFinished
  let w := w.clones.foldl (fun w id => (w.deleteClone id).1) w
  let w := { w with
    actors := w.actors.mapValues fun a => { a with bubble := none }
    events := .empty }
  w.clearPrompts

/-- Stop everything, reset the timer and start the scripts under the green flag. -/
def greenFlag (w : World σ) : World σ × List ThreadId :=
  let w := w.stopAll
  { w with timer := w.timer.reset w.now }.raise .greenFlag

end Stagecraft.World
