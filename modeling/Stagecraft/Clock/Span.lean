import Stagecraft.Decimal.Double

/-!
# Spans of time

A span is a natural number of nanoseconds. Seconds given as a double become the nearest span, ties
to even; what is negative, too long or not a number is no span.
-/

namespace Stagecraft

/-- A span of time, or a reading of a clock, in nanoseconds. -/
abbrev Span := Nat

namespace Span

/-- A number of microseconds. -/
def ofMicros (n : Nat) : Span := n * 1000

/-- A number of milliseconds. -/
def ofMillis (n : Nat) : Span := n * 1000000

/-- The longest span that can be waited for. -/
def longest : Span := 18446744073709551615999999999

/-- A quotient of natural numbers, rounded to the nearest, ties to even. -/
def roundDiv (num den : Nat) : Nat :=
  let q := num / den
  let r := num % den
  if den < 2 * r || (2 * r == den && q % 2 == 1) then q + 1 else q

/-- The span of a number of seconds, if there is one. -/
def ofSeconds? (seconds : Float) : Option Span :=
  match Double.ofFloat? seconds with
  | some d =>
    if d.negative && d.significand ≠ 0 then none
    else if UInt64.size * d.denominator ≤ d.numerator then none
    else some (roundDiv (d.numerator * 1000000000) d.denominator)
  | none => none

/-- A span in seconds: the whole seconds and the rest, each as a double. -/
def toSeconds (t : Span) : Float :=
  (t / 1000000000).toUInt64.toFloat + (t % 1000000000).toUInt64.toFloat / 1000000000.0

end Span

end Stagecraft
