import Stagecraft.Primitive.Scene

/-!
# Control primitives

Loops, conditions, waits, stopping and clones. A counted loop reads its count on its first execution
only, and a wait its duration; both keep them on the frame.
-/

namespace Stagecraft.Primitive

variable {σ : Type}

/-- The count of a loop: the nearest whole number, halves up, or the nearest one in 64 bits. -/
def roundedCount (n : Float) : Int64 :=
  match Double.ofFloat? (n + 0.5) with
  | some d => .ofInt (max Int64.minValue.toInt (min Int64.maxValue.toInt d.floor))
  | none => if 0.0 < n then .maxValue else if n < 0.0 then .minValue else 0

/-- The duration of a wait; negative numbers count as zero and ones too large as the longest. -/
def waitSpan (seconds : Float) : Span :=
  (Span.ofSeconds? (if seconds < 0.0 then 0.0 else seconds)).getD Span.longest

/-- Enter the body of a loop if a test holds. -/
def loopIf (condition : Bool) (site : Site) (s : Scene σ) : Scene σ :=
  if condition then s.startBranch site 1 true else s

/-- Count a round off and enter the body of the loop while rounds are left. The least count wraps
around. -/
def repeatTimes (site : Site) (args : Args) (s : Scene σ) : Scene σ :=
  match s.progress? site with
  | none => s
  | some p =>
    let remaining := match p with
      | .counting n => n
      | _ => roundedCount (args.number "TIMES")
    loopIf (0 ≤ remaining - 1) site (s.keep site (.counting (remaining - 1)))

/-- Yield until the time is over. The first execution starts the time and always yields. -/
def wait (site : Site) (args : Args) (s : Scene σ) : Scene σ :=
  match s.progress? site with
  | none => s
  | some (.timing started duration) =>
    if s.world.now - started < duration then s.yield else s
  | some _ =>
    let duration := waitSpan (args.number "DURATION")
    ((s.keep site (.timing s.world.now duration)).requestRedraw).yield

/-- Stop scripts, as the block's field says. -/
def stop (site : Site) (s : Scene σ) : Scene σ :=
  match (site.field? "STOP_OPTION").getD "all" with
  | "all" => { s with world := s.world.stopAll }.retire
  | "this script" => { s with thread := s.thread.stopScript site.graph }
  | "other scripts in sprite" =>
    { s with world := s.world.stopActor s.thread.actor (some s.thread.id) }
  | "other scripts in stage" =>
    { s with world := s.world.stopActor s.thread.actor (some s.thread.id) }
  | _ => s

/-- Clone an actor by name, or the running one. -/
def createCloneOf (args : Args) (s : Scene σ) : Scene σ :=
  let option := args.text "CLONE_OPTION"
  let source := if option == "_myself_" then some s.thread.actor
    else (s.world.actorByName? option).map (·.id)
  match source with
  | some id => { s with world := (s.world.createClone id).1 }
  | none => s

/-- Delete the running clone. -/
def deleteThisClone (s : Scene σ) : Scene σ :=
  match s.actor? with
  | some a =>
    if a.isClone then { s with world := (s.world.deleteClone s.thread.actor).1 }.retire else s
  | none => s

/-- Run the body without yielding. -/
def allAtOnce (site : Site) (s : Scene σ) : Scene σ :=
  let s := s.startBranch site 1 false
  if s.thread.topBlock? = some site.block then s
  else { s with thread := s.thread.modifyTop fun f => { f with warp := true } }

/-- Run a control primitive. -/
def control (op : ControlOp) (site : Site) (args : Args) (s : Scene σ) : Scene σ × Outcome :=
  match op with
  | .forever => (s.startBranch site 1 true, .done)
  | .repeatTimes => (repeatTimes site args s, .done)
  | .repeatUntil => (loopIf (!args.flag "CONDITION") site s, .done)
  | .whileTrue => (loopIf (args.flag "CONDITION") site s, .done)
  | .ifThen => (if args.flag "CONDITION" then s.startBranch site 1 false else s, .done)
  | .ifElse => (s.startBranch site (if args.flag "CONDITION" then 1 else 2) false, .done)
  | .wait => (wait site args s, .done)
  | .waitUntil => (if args.flag "CONDITION" then s else s.yield, .done)
  | .stop => (stop site s, .done)
  | .createCloneOf => (createCloneOf args s, .done)
  | .createCloneOfMenu => (s, .value ((site.block?.map Block.menuValue).getD .blank))
  | .deleteThisClone => (deleteThisClone s, .done)
  | .startAsClone => (s, .done)
  | .allAtOnce => (allAtOnce site s, .done)

end Stagecraft.Primitive
