import Stagecraft.World.Hats
import Stagecraft.Schedule.Advance

/-!
# What a primitive sees and does

A primitive runs at a `Site`, which it cannot change: the limits of the pass, the program, the block
and the frame that executes it. It reads its evaluated inputs from `Args`, changes a `Scene`, which
is the world and the running thread, and gives an `Outcome`. Host extensions are primitives for
operations that are not built in.
-/

namespace Stagecraft

/-- The evaluated inputs of a block, in input order. -/
structure Args where
  /-- Names and values. -/
  entries : List (String × Value)
deriving DecidableEq

namespace Args

/-- No inputs. -/
def empty : Args := ⟨[]⟩

/-- The value of an input. -/
def get? (a : Args) (name : String) : Option Value :=
  (a.entries.find? fun e => e.1 == name).map (·.2)

/-- The value of an input; a missing one is blank. -/
def value (a : Args) (name : String) : Value := (a.get? name).getD .blank

/-- An input as a number; a missing one is zero. -/
def number (a : Args) (name : String) : Float :=
  match a.get? name with
  | some v => v.toNumber
  | none => 0.0

/-- An input as a text. -/
def text (a : Args) (name : String) : String := (a.value name).toText

/-- An input as a truth value; a missing one is false. -/
def flag (a : Args) (name : String) : Bool :=
  match a.get? name with
  | some v => v.toFlag
  | none => false

end Args

/-- What a primitive produced. -/
inductive Outcome where
  /-- A command finished. -/
  | done
  /-- The value of a reporter. -/
  | value (v : Value)
  /-- The result comes later, on a channel. -/
  | deferred (channel : Nat)
  /-- The primitive failed. -/
  | failed (fault : Fault)
deriving DecidableEq

/-- Where a primitive runs. -/
structure Site where
  /-- The limits of the pass. -/
  scheduler : Scheduler
  /-- The program. -/
  graph : Graph
  /-- The block. -/
  block : Handle
  /-- The position of the frame that executes the block, counted from zero at the bottom. -/
  frame : Nat

namespace Site

/-- The block that runs. -/
def block? (site : Site) : Option Block := site.graph.get? site.block

/-- A field of the block. -/
def field? (site : Site) (name : String) : Option String := site.block?.bind (·.field? name)

/-- The id that a field of the block carries. -/
def fieldId? (site : Site) (name : String) : Option String := site.block?.bind (·.fieldId? name)

end Site

/-- What a primitive may change. -/
structure Scene (σ : Type) where
  /-- The world. -/
  world : World σ
  /-- The thread that has its turn. -/
  thread : Thread

/-- What a host extension answers. -/
inductive Response where
  /-- It came to an end. -/
  | outcome (o : Outcome)
  /-- It broke down, with a message or without one. -/
  | crashed (message : Option String)
deriving DecidableEq

/-- A primitive of the host. -/
abbrev Extension (σ : Type) := Site → Args → Scene σ → Scene σ × Response

/-- The primitives of the host by the names of their operations. -/
abbrev Extensions (σ : Type) := Table String (Extension σ)

namespace Scene

variable {σ : Type}

/-! ### The thread -/

/-- The actor that runs the thread. -/
def actor? (s : Scene σ) : Option Actor := s.world.actor? s.thread.actor

/-- What the executing frame keeps. -/
def progress? (s : Scene σ) (site : Site) : Option Progress :=
  (s.thread.frameAt? site.frame).map (·.progress)

/-- Let the executing frame keep something. -/
def keep (s : Scene σ) (site : Site) (p : Progress) : Scene σ :=
  { s with thread := s.thread.modifyFrame site.frame fun f => { f with progress := p } }

/-- Whether the thread runs without yielding. -/
def isWarp (s : Scene σ) : Bool := Scheduler.inWarp s.thread

/-- End the turn; the block is executed again in the next one. -/
def yield (s : Scene σ) : Scene σ := { s with thread := { s.thread with status := .yielded } }

/-- End the turn and sit out the rest of the pass. -/
def yieldTick (s : Scene σ) : Scene σ :=
  { s with thread := { s.thread with status := .yieldedTick } }

/-- End the thread. -/
def retire (s : Scene σ) : Scene σ := { s with thread := s.thread.retire }

/-- Enter a stack inside the top block. -/
def startBranch (s : Scene σ) (site : Site) (n : Nat) (isLoop : Bool) : Scene σ :=
  { s with thread := s.thread.enterBranch site.graph n isLoop }

/-- Call a procedure; tells whether its body was entered. -/
def startProcedure (s : Scene σ) (site : Site) (code : String) (supplied : Table String Value) :
    Scene σ × Bool :=
  match site.scheduler.enterProcedure s.world.now site.graph s.thread code supplied with
  | (t, .entered) => ({ s with thread := t }, true)
  | (_, .unknown) => (s, false)
  | (_, .tooDeep) =>
    ({ s with world := s.world.notify (.callTooDeep s.thread.id code s.thread.depth) }, false)

/-! ### The world -/

/-- Ask for a redraw. -/
def requestRedraw (s : Scene σ) : Scene σ := { s with world := s.world.requestRedraw }

/-- Change the actor that runs the thread. -/
def modifyActor (s : Scene σ) (f : Actor → Actor) : Scene σ :=
  { s with world := s.world.modifyActor s.thread.actor f }

end Scene

end Stagecraft
