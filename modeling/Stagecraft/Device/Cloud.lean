import Stagecraft.Value.Basic
import Stagecraft.Clock.Limiter

/-!
# Shared variables

Writes to shared variables become requests in an outbox. While a provider is attached the outbox is
sent, oldest first, as fast as a limiter allows; a request that is refused stays in front.
-/

namespace Stagecraft

/-- A request to the provider of shared variables. -/
inductive CloudRequest where
  | update (name : String) (v : Value)
  | create (name : String) (v : Value)
  | rename (old new : String)
  | delete (name : String)
deriving DecidableEq

/-- The connection to the provider. -/
structure Cloud where
  /-- Whether a provider is attached. -/
  attached : Bool
  /-- Requests that wait, oldest first. -/
  outbox : List CloudRequest
  /-- Requests that the provider has received, oldest first. -/
  received : List CloudRequest
  /-- What bounds the rate of requests. -/
  limiter : Limiter Float
deriving DecidableEq

namespace Cloud

/-- No provider yet. -/
def create (updatesPerSecond : Nat) (now : Span) : Cloud :=
  ⟨false, [], [], .start updatesPerSecond now⟩

/-- Attach a provider. -/
def attach (c : Cloud) : Cloud := { c with attached := true }

/-- Detach the provider; requests that wait are dropped. -/
def detach (c : Cloud) : Cloud := { c with attached := false, outbox := [] }

/-- Put a request into the outbox; without a provider it is dropped. -/
def request (c : Cloud) (r : CloudRequest) : Cloud :=
  if c.attached then { c with outbox := c.outbox ++ [r] } else c

/-- Send requests while the limiter allows; gives what stays and what was sent. -/
def drain (now : Span) :
    List CloudRequest → Limiter Float → List CloudRequest × List CloudRequest × Limiter Float
  | [], l => ([], [], l)
  | r :: rest, l =>
    match l.send now with
    | (l, true) =>
      let (left, sent, l) := drain now rest l
      (left, r :: sent, l)
    | (l, false) => (r :: rest, [], l)

/-- Send what can be sent; tells how many requests that were. -/
def flush (c : Cloud) (now : Span) : Cloud × Nat :=
  if c.attached then
    let (left, sent, l) := drain now c.outbox c.limiter
    ({ c with outbox := left, received := c.received ++ sent, limiter := l }, sent.length)
  else (c, 0)

end Cloud

end Stagecraft
