import Stagecraft.Value.Basic

/-!
# Results that come later

A primitive that cannot answer at once leaves a deferred result behind, which one or more resolvers
can fill. Between them is a `Channel` that holds at most one delivery. A delivery is accepted while
somebody awaits the result and none is waiting; polling takes the delivery out. Once nothing waits
and no resolver is left, polling reports the loss as a rejection.
-/

namespace Stagecraft

/-- What a resolver delivers. -/
inductive Delivery where
  | resolved (v : Value)
  | rejected (reason : String)
deriving DecidableEq

/-- The channel between resolvers and a deferred result. -/
structure Channel where
  /-- The delivery that has not been polled. -/
  waiting : Option Delivery
  /-- How many resolvers are left. -/
  resolvers : Nat
  /-- Whether the deferred result is still awaited. -/
  awaited : Bool
deriving DecidableEq

namespace Channel

/-- A fresh channel with one resolver. -/
def fresh : Channel := ⟨none, 1, true⟩

/-- A channel that was resolved before anybody could wait. -/
def settled (v : Value) : Channel := ⟨some (.resolved v), 0, true⟩

/-- The reason given when no resolver can answer any more. -/
def lostReason : String := "deferred dropped without a result"

/-- Deliver a result; tells whether it was accepted. -/
def deliver (c : Channel) (d : Delivery) : Channel × Bool :=
  if c.awaited && c.waiting.isNone then ({ c with waiting := some d }, true) else (c, false)

/-- Take the waiting delivery; nothing while the result is still to come. -/
def poll (c : Channel) : Channel × Option Delivery :=
  match c.waiting with
  | some d => ({ c with waiting := none }, some d)
  | none => (c, if c.resolvers = 0 then some (.rejected lostReason) else none)

/-- One more resolver. -/
def copyResolver (c : Channel) : Channel := { c with resolvers := c.resolvers + 1 }

/-- One resolver less. -/
def dropResolver (c : Channel) : Channel := { c with resolvers := c.resolvers - 1 }

/-- Nobody awaits the result any more. -/
def dropDeferred (c : Channel) : Channel := { c with awaited := false }

/-- Whether a delivery is waiting. -/
def isReady (c : Channel) : Bool := c.waiting.isSome

/-- How the deferred side describes itself. -/
def describe (c : Channel) : String :=
  "Deferred(ready: " ++ (if c.isReady then "true" else "false") ++ ")"

/-- How a resolver describes itself. -/
def describeResolver : String := "Resolver"

end Channel

end Stagecraft
