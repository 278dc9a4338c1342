import Stagecraft.World.State

/-!
# Results that come later, and prompts

The channels of a world. A result is awaited while a thread is parked on it or the host holds it.
A prompt holds the resolver of its answer; dropping the prompt drops the resolver.
-/

namespace Stagecraft.World

variable {σ : Type}

/-! ### Channels -/

/-- Open a channel. -/
def openChannel (w : World σ) (c : Channel) : World σ × Nat :=
  ({ w with
      channels := w.channels.insert w.nextChannel c
      nextChannel := w.nextChannel + 1 }, w.nextChannel)

/-- Whether a thread is parked on a channel. -/
def parkedOn (channel : Nat) (t : Thread) : Bool := t.pending.map (·.channel) == some channel

/-- Whether somebody awaits the result of a channel. -/
def isAwaited (w : World σ) (channel : Nat) : Bool :=
  (w.threads ++ w.spawned).any (parkedOn channel) || w.held.contains channel

/-- Deliver a result; tells whether it was accepted. -/
def deliver (w : World σ) (channel : Nat) (d : Delivery) : World σ × Bool :=
  match w.channels.get? channel with
  | some c =>
    let (c, accepted) := { c with awaited := w.isAwaited channel }.deliver d
    ({ w with channels := w.channels.insert channel c }, accepted)
  | none => (w, false)

/-- Take the result of a channel, if it has come. -/
def poll (w : World σ) (channel : Nat) : World σ × Option Delivery :=
  match w.channels.get? channel with
  | some c =>
    let (c, d) := c.poll
    ({ w with channels := w.channels.insert channel c }, d)
  | none => (w, some (.rejected Channel.lostReason))

/-- Drop a resolver of a channel. -/
def dropResolver (w : World σ) (channel : Nat) : World σ :=
  { w with channels := w.channels.modify channel Channel.dropResolver }

/-- Let the host await a result itself. -/
def hold (w : World σ) (channel : Nat) : World σ := { w with held := w.held ++ [channel] }

/-- The host no longer awaits a result. -/
def release (w : World σ) (channel : Nat) : World σ :=
  { w with held := w.held.filter (· ≠ channel) }

/-! ### Prompts -/

/-- Put a question in line; gives the channel of the answer. -/
def ask (w : World σ) (text : String) : World σ × Nat :=
  let (w, channel) := w.openChannel .fresh
  ({ w with prompts := w.prompts ++ [⟨text, channel⟩] }, channel)

/-- The question on screen. -/
def pendingQuestion? (w : World σ) : Option String := w.prompts.head?.map (·.text)

/-- Answer the question on screen; tells whether there was one. -/
def answerQuestion (w : World σ) (answer : String) : World σ × Bool :=
  match w.prompts with
  | [] => (w, false)
  | p :: rest =>
    let w := { w with prompts := rest, answer := answer }
    let (w, _) := w.deliver p.channel (.resolved (.text answer))
    (w.dropResolver p.channel, true)

/-- Drop all questions. -/
def clearPrompts (w : World σ) : World σ :=
  w.prompts.foldl (fun w p => w.dropResolver p.channel) { w with prompts := [] }

end Stagecraft.World
