import Stagecraft.Clock.Span

/-!
# Stopwatches

A `Stopwatch` measures the time since it was started. A `ProjectTimer` is the timer that scripts
read: it can be reset and paused, and paused time does not count. Both are told the clock's
reading; a reading before the start counts as no time at all.
-/

namespace Stagecraft

/-- A stopwatch, by the reading at which it was started. -/
structure Stopwatch where
  /-- The reading at the start. -/
  started : Span
deriving DecidableEq

/-- The time since the stopwatch was started. -/
def Stopwatch.elapsed (s : Stopwatch) (now : Span) : Span := now - s.started

/-- The timer that scripts read. -/
structure ProjectTimer where
  /-- The reading from which time counts. -/
  origin : Span
  /-- The reading at which the timer was paused, if it is. -/
  pausedAt : Option Span
deriving DecidableEq

namespace ProjectTimer

/-- A running timer at zero. -/
def start (now : Span) : ProjectTimer := ⟨now, none⟩

/-- The time since the last reset, paused time not counted. -/
def elapsed (t : ProjectTimer) (now : Span) : Span := t.pausedAt.getD now - t.origin

/-- The same in seconds. -/
def seconds (t : ProjectTimer) (now : Span) : Float := Span.toSeconds (t.elapsed now)

/-- Start again from zero; a paused timer stays paused. -/
def reset (t : ProjectTimer) (now : Span) : ProjectTimer := ⟨now, t.pausedAt.map fun _ => now⟩

/-- Stop counting. -/
def pause (t : ProjectTimer) (now : Span) : ProjectTimer :=
  { t with pausedAt := some (t.pausedAt.getD now) }

/-- Count again, skipping the time since the pause. -/
def resume (t : ProjectTimer) (now : Span) : ProjectTimer :=
  match t.pausedAt with
  | some p => ⟨t.origin + (now - p), none⟩
  | none => t

/-- Whether the timer is paused. -/
def isPaused (t : ProjectTimer) : Bool := t.pausedAt.isSome

end ProjectTimer

end Stagecraft
