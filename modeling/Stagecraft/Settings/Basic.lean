import Stagecraft.Clock.Span

/-!
# Settings

What a host can tune: pacing, limits and the size of the stage. The derived times are exact spans;
`Settings.workTime?` has none when the share of a frame is not a number.
-/

namespace Stagecraft

/-- A side of the stage. Where its length is not a number, texts still show whether it was written
with a minus sign; arithmetic does not. -/
structure Extent where
  /-- The length. -/
  length : Float
  /-- Whether the length is not a number and was written with a minus sign. -/
  negatedNaN : Bool
deriving DecidableEq

namespace Extent

/-- A length without such a sign. -/
def ofFloat (x : Float) : Extent := ⟨x, false⟩

/-- A length written with or without a minus sign. -/
def ofSigned (x : Float) (negative : Bool) : Extent := ⟨x, negative && x.isNaN⟩

end Extent

/-- What a host can tune. -/
structure Settings where
  /-- Passes per second that the host aims for. -/
  framerate : Nat
  /-- The share of a frame that may be spent running scripts. -/
  workFraction : Float
  /-- Milliseconds that a warp frame may run before it must yield. -/
  warpTimeMs : Nat
  /-- The deepest stack on which a procedure may be called. -/
  maxCallDepth : Nat
  /-- The deepest nesting of reporters, up to `reporterDepthCeiling`. -/
  maxReporterDepth : Nat
  /-- The most clones at a time. -/
  maxClones : Nat
  /-- Ignore redraws when deciding on another round. -/
  turboMode : Bool
  /-- Run further rounds in a pass until a redraw is due. -/
  repeatUntilRedraw : Bool
  /-- Requests per second to the provider of shared variables. -/
  cloudUpdatesPerSecond : Nat
  /-- The width of the stage. -/
  stageWidth : Extent
  /-- The height of the stage. -/
  stageHeight : Extent
deriving DecidableEq

/-- The deepest nesting of reporters that settings can ask for. -/
def reporterDepthCeiling : Nat := 256

namespace Settings

/-- What holds where a host tunes nothing. -/
def standard : Settings where
  framerate := 30
  workFraction := 0.75
  warpTimeMs := 500
  maxCallDepth := 1024
  maxReporterDepth := 128
  maxClones := 300
  turboMode := false
  repeatUntilRedraw := false
  cloudUpdatesPerSecond := 10
  stageWidth := .ofFloat 480.0
  stageHeight := .ofFloat 360.0

instance : Inhabited Settings := ⟨standard⟩

/-- The duration of a frame; a framerate of zero counts as one. -/
def frameInterval (s : Settings) : Span :=
  (Span.ofSeconds? (1.0 / (max s.framerate 1).toUInt64.toFloat)).getD 0

/-- The share of a frame, brought between zero and one. -/
def share (s : Settings) : Float :=
  if s.workFraction < 0.0 then 0.0 else if 1.0 < s.workFraction then 1.0 else s.workFraction

/-- The time that one pass may take. -/
def workTime? (s : Settings) : Option Span :=
  Span.ofSeconds? (s.share * Span.toSeconds s.frameInterval)

/-- The time that a warp frame may take. -/
def warpTime (s : Settings) : Span := Span.ofMillis s.warpTimeMs

/-- The nesting of reporters that is enforced. -/
def reporterDepth (s : Settings) : Nat := min s.maxReporterDepth reporterDepthCeiling

end Settings

end Stagecraft
