import Stagecraft.Clock.Span

/-!
# Limiting a rate

A `Limiter` is a bucket of tokens. It starts full, refills continuously at its rate and never holds
more than one second's worth. Sending takes one token, and without one it is refused. The token
arithmetic is a parameter: doubles when it runs, any other numbers when it is reasoned about.
-/

namespace Stagecraft

/-- The arithmetic that a bucket of tokens needs. -/
class TokenArithmetic (R : Type) where
  /-- A number of tokens. -/
  ofNat : Nat → R
  /-- The seconds in a span. -/
  seconds : Span → R
  /-- Sum. -/
  add : R → R → R
  /-- Difference. -/
  sub : R → R → R
  /-- Product. -/
  mul : R → R → R
  /-- Whether the first number is below the second. -/
  less : R → R → Bool

instance : TokenArithmetic Float where
  ofNat n := n.toUInt64.toFloat
  seconds := Span.toSeconds
  add := (· + ·)
  sub := (· - ·)
  mul := (· * ·)
  less a b := a < b

/-- A bucket of tokens. -/
structure Limiter (R : Type) where
  /-- Tokens refilled per second, and the most that the bucket holds. -/
  rate : R
  /-- Tokens in the bucket. -/
  tokens : R
  /-- The reading at the last refill. -/
  refilled : Span
deriving DecidableEq

namespace Limiter

variable {R : Type} [TokenArithmetic R]

open TokenArithmetic

/-- A full bucket for a number of sends per second. -/
def start (rate : Nat) (now : Span) : Limiter R := ⟨ofNat rate, ofNat rate, now⟩

/-- Bring a number of tokens into the bucket's range. -/
def clamp (capacity tokens : R) : R :=
  let atLeast : R := if less tokens (ofNat 0) then ofNat 0 else tokens
  if less capacity atLeast then capacity else atLeast

/-- Add the tokens for the time since the last refill. -/
def refill (l : Limiter R) (now : Span) : Limiter R :=
  { l with
    tokens := clamp l.rate (add l.tokens (mul (seconds (now - l.refilled)) l.rate))
    refilled := now }

/-- Refill, then take one token if there is one; tells whether there was. -/
def send (l : Limiter R) (now : Span) : Limiter R × Bool :=
  let l := l.refill now
  if less l.tokens (ofNat 1) then (l, false)
  else ({ l with tokens := sub l.tokens (ofNat 1) }, true)

/-- Refill and tell the tokens in the bucket. -/
def available (l : Limiter R) (now : Span) : Limiter R × R :=
  let l := l.refill now
  (l, l.tokens)

omit [TokenArithmetic R] in
/-- The most tokens that the bucket holds. -/
def capacity (l : Limiter R) : R := l.rate

end Limiter

end Stagecraft
