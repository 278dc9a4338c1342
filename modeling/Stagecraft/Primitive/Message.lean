import Stagecraft.Primitive.Scene

/-!
# Event primitives

Broadcasting a message, with or without waiting for the scripts that receive it. A hat does nothing
when it is executed.
-/

namespace Stagecraft.Primitive

variable {σ : Type}

/-- Yield while one of the threads is active. -/
def awaitThreads (threads : List ThreadId) (s : Scene σ) : Scene σ :=
  if threads.any s.world.isActive then s.yield else s

/-- Broadcast on the first execution, and yield while a thread that it started is active. -/
def broadcastAndWait (site : Site) (args : Args) (s : Scene σ) : Scene σ :=
  match s.progress? site with
  | some (.awaiting threads) => awaitThreads threads s
  | _ =>
    let (w, started) := s.world.broadcast (args.text "BROADCAST_INPUT")
    awaitThreads started ({ s with world := w }.keep site (.awaiting started))

/-- Run an event primitive. -/
def event (op : EventOp) (site : Site) (args : Args) (s : Scene σ) : Scene σ × Outcome :=
  match op with
  | .whenFlagClicked => (s, .done)
  | .whenBroadcastReceived => (s, .done)
  | .whenKeyPressed => (s, .done)
  | .whenThisSpriteClicked => (s, .done)
  | .broadcast =>
    ({ s with world := (s.world.broadcast (args.text "BROADCAST_INPUT")).1 }, .done)
  | .broadcastAndWait => (broadcastAndWait site args s, .done)
  | .broadcastMenu => (s, .value ((site.block?.map Block.menuValue).getD .blank))

end Stagecraft.Primitive
