import Stagecraft.Inspect.Value
import Stagecraft.Settings.Format

/-!
# Showing settings

What tools see of settings: every field, the times that follow from them, and their RON text.
-/

namespace Stagecraft.Inspect

/-- Settings; nothing when they leave the work time undefined. -/
def settings? (s : Settings) : Option Json :=
  s.workTime?.map fun workTime =>
    .ofMembers [("framerate", .ofNat s.framerate), ("work_fraction", double s.workFraction),
      ("warp_time_ms", wide s.warpTimeMs), ("max_call_depth", wide s.maxCallDepth),
      ("max_reporter_depth", wide s.maxReporterDepth), ("max_clones", wide s.maxClones),
      ("turbo_mode", .flag s.turboMode), ("repeat_until_redraw", .flag s.repeatUntilRedraw),
      ("cloud_updates_per_second", .ofNat s.cloudUpdatesPerSecond),
      ("stage_width", double s.stageWidth.length), ("stage_height", double s.stageHeight.length),
      ("reporter_depth", .ofNat s.reporterDepth), ("warp_time", wide s.warpTime),
      ("frame_interval", wide s.frameInterval), ("work_time", wide workTime),
      ("ron", .ofString s.toRon)]

end Stagecraft.Inspect
