import Stagecraft.World.Cast

/-!
# What the host tells a world

Keys, the pointer, pausing, the user's name and remote updates of shared variables.
-/

namespace Stagecraft.World

variable {σ : Type}

/-- A key goes down or up. -/
def postKey (w : World σ) (key : String) (down : Bool) : World σ :=
  let (keyboard, events) := w.keyboard.post key down
  { w with keyboard := keyboard, events := events.foldl EventQueue.push w.events }

/-- The pointer moves, or its button changes. -/
def postMouse (w : World σ) (e : MouseMove) : World σ := { w with mouse := w.mouse.post e }

/-- Pause or resume the timer that scripts read. -/
def postPause (w : World σ) (paused : Bool) : World σ :=
  { w with timer := if paused then w.timer.pause w.now else w.timer.resume w.now }

/-- A user signs in. -/
def postUser (w : World σ) (name : String) : World σ := { w with user := name }

/-- A shared variable of the stage changed elsewhere. -/
def postCloud (w : World σ) (name : String) (v : Value) : World σ :=
  match w.stage? with
  | none => w.notify (.cloudWithoutStage name)
  | some stage =>
    match stage.variableByName? name .scalar with
    | some shared =>
      if shared.cloud then w.modifyVariable (stage.id, shared.id) (·.set v)
      else w.notify (.cloudUnknown name)
    | none => w.notify (.cloudUnknown name)

/-- Make a request to the provider of shared variables. -/
def requestCloud (w : World σ) (r : CloudRequest) : World σ :=
  { w with cloud := w.cloud.request r }

/-- Send waiting requests to the provider; tells how many were sent. -/
def flushCloud (w : World σ) : World σ × Nat :=
  let (cloud, sent) := w.cloud.flush w.now
  ({ w with cloud := cloud }, sent)

end Stagecraft.World
