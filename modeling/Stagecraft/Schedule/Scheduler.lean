import Stagecraft.Settings.Basic
import Stagecraft.Script.Thread

/-!
# The scheduler

The scheduler holds the limits of a pass, the reading at which the running pass began, the thread
at which a pass that ran out of time is taken up again, and counters of the last pass.
-/

namespace Stagecraft

/-- Counters of the last pass. -/
structure Stats where
  /-- Passes so far. -/
  passes : Nat
  /-- Rounds over the threads. -/
  rounds : Nat
  /-- Blocks executed. -/
  blocksExecuted : Nat
  /-- Threads that ended. -/
  threadsFinished : Nat
  /-- Whether the pass ran out of time. -/
  budgetExhausted : Bool
deriving DecidableEq

/-- Limits, counters and the place where to go on. -/
structure Scheduler where
  /-- The time that a pass may take. -/
  workTime : Span
  /-- The time that a warp frame may take. -/
  warpTime : Span
  /-- The deepest stack on which a procedure may be called. -/
  maxCallDepth : Nat
  /-- The deepest nesting of reporters. -/
  maxReporterDepth : Nat
  /-- Whether further rounds follow until a redraw is due. -/
  repeatUntilRedraw : Bool
  /-- Whether redraws are ignored. -/
  turboMode : Bool
  /-- When the running pass began. -/
  passStarted : Option Span
  /-- The first thread that a pass did not get to. -/
  resumeAt : Option ThreadId
  /-- Counters of the last pass. -/
  stats : Stats
deriving DecidableEq

namespace Scheduler

/-- Take the limits from settings. -/
def configure (s : Scheduler) (settings : Settings) : Scheduler :=
  { s with
    workTime := settings.workTime?.getD s.workTime
    warpTime := settings.warpTime
    maxCallDepth := settings.maxCallDepth
    maxReporterDepth := settings.reporterDepth
    repeatUntilRedraw := settings.repeatUntilRedraw
    turboMode := settings.turboMode }

/-- A scheduler before its first pass. -/
def create (settings : Settings) : Scheduler :=
  configure ⟨0, 0, 0, 0, false, false, none, none, ⟨0, 0, 0, 0, false⟩⟩ settings

/-- Whether the running pass has used its time up. -/
def budgetExhausted (s : Scheduler) (now : Span) : Bool :=
  match s.passStarted with
  | some started => s.workTime ≤ now - started
  | none => false

/-- Whether the warp frames of a thread are within their time. -/
def warpTimerOk (s : Scheduler) (now : Span) (t : Thread) : Bool :=
  match t.warpSince with
  | some since => now - since ≤ s.warpTime
  | none => true

/-- Whether a warp frame may go on without yielding. -/
def warpOk (s : Scheduler) (now : Span) (t : Thread) : Bool :=
  s.warpTimerOk now t && !s.budgetExhausted now

/-- Count one more executed block. -/
def countBlock (s : Scheduler) : Scheduler :=
  { s with stats := { s.stats with blocksExecuted := s.stats.blocksExecuted + 1 } }

end Scheduler

end Stagecraft
