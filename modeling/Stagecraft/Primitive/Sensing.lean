import Stagecraft.Primitive.Scene

/-!
# Sensing primitives

Reading the devices, and asking the user, which parks the thread until the host answers.
-/

namespace Stagecraft.Primitive

variable {σ : Type}

/-- Run a sensing primitive. -/
def sensing (op : SensingOp) (site : Site) (args : Args) (s : Scene σ) : Scene σ × Outcome :=
  let w := s.world
  match op with
  | .timer => (s, .value (.number (w.timer.seconds w.now)))
  | .resetTimer => ({ s with world := { w with timer := w.timer.reset w.now } }, .done)
  | .keyPressed => (s, .value (.flag (w.keyboard.isDown (args.value "KEY_OPTION"))))
  | .keyOptions => (s, .value ((site.block?.map Block.menuValue).getD .blank))
  | .mouseX => (s, .value (.number w.mouse.stageX))
  | .mouseY => (s, .value (.number w.mouse.stageY))
  | .mouseDown => (s, .value (.flag w.mouse.down))
  | .username => (s, .value (.text w.user))
  | .askAndWait =>
    let (w, channel) := w.ask (args.text "QUESTION")
    ({ s with world := w }, .deferred channel)
  | .answer => (s, .value (.text w.answer))

end Stagecraft.Primitive
