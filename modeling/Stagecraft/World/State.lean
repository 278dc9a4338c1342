import Stagecraft.Actor
import Stagecraft.Fault
import Stagecraft.Deferred
import Stagecraft.Clock.ProjectTimer
import Stagecraft.Device.Keyboard
import Stagecraft.Device.Mouse
import Stagecraft.Device.Cloud
import Stagecraft.Schedule.Scheduler

/-!
# The world

Everything that a run consists of, as one value: actors and their programs, threads, queued events,
devices, prompts, results that come later, faults and reports. The clock moves when it is told to,
and on its own while blocks are executed, by amounts that the host chooses. Random numbers are not
made here: a world begins with all those that will be drawn in it. `World σ` also carries a value of
type `σ` that belongs to the host; extensions may read and change it.

While a pass runs, the scheduler is out of the world and the thread that has its turn is out of the
thread list; `current` then says which thread that is and what was asked of it meanwhile.
-/

namespace Stagecraft

/-- The thread that has its turn, and what was asked of it. -/
structure Current where
  /-- The thread. -/
  id : ThreadId
  /-- Its actor. -/
  actor : ActorId
  /-- Its top block. -/
  top : Option Handle
  /-- Whether it shall start over. -/
  restart : Bool
  /-- Whether it shall end. -/
  retire : Bool
deriving DecidableEq

/-- A question on screen or in line for it. -/
structure Prompt where
  /-- The question. -/
  text : String
  /-- The channel on which the answer goes back. -/
  channel : Nat
deriving DecidableEq

/-- Everything that a run consists of. -/
structure World (σ : Type) where
  /-- What the host tuned. -/
  settings : Settings
  /-- The clock, in microseconds. -/
  clock : Nat
  /-- By how many microseconds the clock moves on its own, each time that it does. -/
  drift : Nat → Nat
  /-- How often the clock has moved on its own. -/
  drifted : Nat
  /-- The sprites. -/
  sprites : Table SpriteId Sprite
  /-- The actors, in the order in which they came. -/
  actors : Table ActorId Actor
  /-- The stage. -/
  stage : Option ActorId
  /-- The threads, in the order in which they get their turns. -/
  threads : List Thread
  /-- Threads started during the running pass. -/
  spawned : List Thread
  /-- The scheduler, unless a pass is running. -/
  scheduler : Option Scheduler
  /-- Events that wait for the end of a pass. -/
  events : EventQueue
  /-- The keys that are held. -/
  keyboard : Keyboard
  /-- The pointer. -/
  mouse : Mouse
  /-- The timer that scripts read. -/
  timer : ProjectTimer
  /-- The name of the user. -/
  user : String
  /-- The connection to shared variables. -/
  cloud : Cloud
  /-- Faults for the host. -/
  faults : FaultLog
  /-- Questions, the one on screen first. -/
  prompts : List Prompt
  /-- The last answer. -/
  answer : String
  /-- Values reported by threads that ended. -/
  reports : List (ThreadId × Value)
  /-- Whether a redraw is due. -/
  redraw : Bool
  /-- The thread that has its turn. -/
  current : Option Current
  /-- The channels of results that come later. -/
  channels : Table Nat Channel
  /-- Channels whose results the host awaits itself. -/
  held : List Nat
  /-- The id of the next channel. -/
  nextChannel : Nat
  /-- The id of the next thread. -/
  nextThread : ThreadId
  /-- The id of the next actor. -/
  nextActor : ActorId
  /-- The id of the next sprite. -/
  nextSprite : SpriteId
  /-- The number of clones. -/
  cloneCount : Nat
  /-- The random numbers that are drawn one after the other. -/
  dice : Nat → Nat
  /-- How many of them were drawn. -/
  drawn : Nat
  /-- What the run warned about, oldest first. -/
  notices : List Notice
  /-- What belongs to the host. -/
  host : σ

namespace World

variable {σ : Type}

/-- A world in which nothing has happened yet, and the random numbers that will be drawn in it. -/
def blank (settings : Settings) (host : σ) (dice : Nat → Nat := fun _ => 0) : World σ where
  settings := settings
  clock := 0
  drift := fun _ => 0
  drifted := 0
  sprites := .empty
  actors := .empty
  stage := none
  threads := []
  spawned := []
  scheduler := some (.create settings)
  events := .empty
  keyboard := .empty
  mouse := .create settings.stageWidth.length settings.stageHeight.length
  timer := .start 0
  user := ""
  cloud := .create settings.cloudUpdatesPerSecond 0
  faults := .empty
  prompts := []
  answer := ""
  reports := []
  redraw := false
  current := none
  channels := .empty
  held := []
  nextChannel := 0
  nextThread := 1
  nextActor := 0
  nextSprite := 0
  cloneCount := 0
  dice := dice
  drawn := 0
  notices := []
  host := host

/-- A world without actors; there is none when the settings leave the work time undefined. -/
def create? (settings : Settings) (host : σ) (dice : Nat → Nat := fun _ => 0) :
    Option (World σ) :=
  settings.workTime?.map fun _ => blank settings host dice

/-- The reading of the clock. -/
def now (w : World σ) : Span := Span.ofMicros w.clock

/-- Whether a pass is running. -/
def inPass (w : World σ) : Bool := w.scheduler.isNone

/-- Move the clock forward by microseconds; it counts in 64 bits. -/
def advanceClock (w : World σ) (micros : Nat) : World σ :=
  { w with clock := (w.clock + micros) % UInt64.size }

/-- Set the clock. -/
def setClock (w : World σ) (micros : Nat) : World σ := { w with clock := micros % UInt64.size }

/-- Let the clock move on its own. -/
def elapse (w : World σ) : World σ :=
  { w.advanceClock (w.drift w.drifted) with drifted := w.drifted + 1 }

/-- Warn about something. -/
def notify (w : World σ) (n : Notice) : World σ := { w with notices := w.notices ++ [n] }

/-- Ask for a redraw. -/
def requestRedraw (w : World σ) : World σ := { w with redraw := true }

/-- Draw a random number below `2 ^ 53`. -/
def draw (w : World σ) : World σ × Nat :=
  ({ w with drawn := w.drawn + 1 }, w.dice w.drawn % Nat.pow 2 53)

/-! ### Faults and reports -/

/-- Record a fault. -/
def recordFault (w : World σ) (r : FaultRecord) : World σ :=
  { w.notify (.retired r) with faults := w.faults.record r }

/-- Take the faults out. -/
def takeFaults (w : World σ) : World σ × List FaultRecord :=
  let (faults, records) := w.faults.take
  ({ w with faults := faults }, records)

/-- Take the reports out. -/
def takeReports (w : World σ) : World σ × List (ThreadId × Value) :=
  ({ w with reports := [] }, w.reports)

/-- Counters of the last pass; nothing while a pass runs. -/
def stats? (w : World σ) : Option Stats := w.scheduler.map (·.stats)

/-- A short description of the world. -/
def describe (w : World σ) : String :=
  "Runtime \x7b targets: " ++ toString w.actors.size ++ ", threads: " ++
    toString w.threads.length ++ ", spawned: " ++ toString w.spawned.length ++ ", events: " ++
    toString w.events.size ++ " \x7d"

end World

end Stagecraft
