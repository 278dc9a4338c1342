import Stagecraft.Command.Arguments
import Stagecraft.Command.Output
import Stagecraft.Saved.Format
import Stagecraft.Saved.Load
import Stagecraft.Schedule.Pass

/-!
# Commands

Running a project frame by frame and checking one. A run has no host extensions; a question is
answered with the empty text as soon as it is on screen, and the run ends when no thread is left.

`perform` carries a whole command out over files that are given, in a time of its own: a block takes
a microsecond, and a frame that takes its time its interval.
-/

namespace Stagecraft.Command

/-! ### A run -/

/-- The world of a run; nothing more belongs to it. -/
abbrev Stage := World Unit

/-- A run under way. -/
structure RunState where
  /-- The world. -/
  stage : Stage
  /-- How many frames were stepped. -/
  frames : Nat
  /-- Questions that were asked, oldest first. -/
  asked : List String

/-- Settings with the options of a run. -/
def applyOptions (s : Settings) (o : RunOptions) : Settings :=
  if o.turbo then { s with turboMode := true, repeatUntilRedraw := true } else s

/-- The time that blocks take, in microseconds each. -/
def blockTime : Nat := 1

/-- Begin a run, with the random numbers that will be drawn in it: load the project, click the green
flag and broadcast the message. -/
def begin? (s : Settings) (o : RunOptions) (p : SavedProject) (dice : Nat → Nat) :
    Option RunState :=
  (World.create? s () dice).map fun w =>
    let w := { w with drift := fun _ => blockTime }
    let (w, _) := w.load p
    let (w, _) := w.greenFlag
    let w := match o.broadcast with
      | some message => (w.broadcast message).1
      | none => w
    ⟨w, 0, []⟩

/-- Answer the question on screen, if there is one. -/
def answerBlank (p : RunState) : RunState :=
  match p.stage.pendingQuestion? with
  | some question =>
    { p with stage := (p.stage.answerQuestion "").1, asked := p.asked ++ [question] }
  | none => p

/-- Step one frame; tells whether threads are left. Nothing if the frame does not end. -/
def stepFrame (fuel : Nat) (p : RunState) : Option (RunState × Bool) :=
  match p.stage.step .empty fuel with
  | none => none
  | some (w, _) =>
    let p := answerBlank { p with stage := w, frames := p.frames + 1 }
    some (p, !p.stage.threads.isEmpty)

/-- A frame's interval in microseconds, rounded up. -/
def frameMicros (s : Settings) : Nat := (s.frameInterval + 999) / 1000

/-- Let a frame take its time, from the reading at which it started. -/
def sleepOut (s : Settings) (started : Nat) (p : RunState) : RunState :=
  { p with stage := p.stage.setClock (max p.stage.clock (started + frameMicros s)) }

/-- Step up to so many frames. -/
def stepFrames (fuel : Nat) (s : Settings) (realtime : Bool) : Nat → RunState → Option RunState
  | 0, p => some p
  | n + 1, p =>
    match stepFrame fuel p with
    | none => none
    | some (p', false) => some p'
    | some (p', true) =>
      stepFrames fuel s realtime n (if realtime then sleepOut s p.stage.clock p' else p')

/-! ### Reports -/

/-- Positions: the fewest digits, never with an exponent. -/
def positionLayout : Layout where
  plain := none
  pointZero := false
  plusExponent := false
  signedZero := true
  tie := .away
  notANumber := "NaN"
  infinity := "inf"

/-- The line of a variable. -/
def variableLine (v : Variable) : String :=
  let label := match v.kind with
    | .scalar => ""
    | .list => " [list]"
  "  " ++ cyan v.name ++ label ++ " = " ++ v.get.toText ++ "\n"

/-- The lines of an actor. -/
def actorLines (a : Actor) : String :=
  bold a.name ++ " (" ++ dimmed a.kindName ++ ")\n" ++
    (if a.isStage then ""
      else "  position: (" ++ positionLayout.render a.x ++ ", " ++ positionLayout.render a.y ++
        ")\n") ++
    String.join (a.vars.values.map variableLine)

/-- The report at the end of a run. -/
def RunState.report (p : RunState) : String :=
  bold (green "stopped") ++ " after " ++ toString p.frames ++ " frame(s), " ++
    toString p.stage.threads.length ++ " thread(s) still running\n" ++
    String.join (p.stage.actors.values.map actorLines)

/-- The line of a question. -/
def askedLine (question : String) : String := yellow "asked:" ++ " " ++ question ++ "\n"

/-- The line of a fault. -/
def faultLine (r : FaultRecord) : String :=
  bold (red "fault") ++ " thread " ++ ThreadId.text r.thread ++ " on " ++ ActorId.text r.actor ++
    " at " ++ r.opcode ++ ": " ++ r.fault.message ++ "\n"

/-- The line of a warning. -/
def warningLine (n : Notice) : String := " WARN " ++ n.text ++ "\n"

/-- The warnings, if they are told. -/
def warnings (level : LogLevel) (notices : List Notice) : String :=
  if level.showsWarnings then String.join (notices.map warningLine) else ""

/-- What a run leaves behind. -/
def RunState.output (p : RunState) (level : LogLevel) : Output where
  exit := 0
  stdout := warnings level p.stage.notices ++ p.report
  stderr := String.join (p.asked.map askedLine) ++
    String.join (p.stage.faults.records.map faultLine)

/-! ### Reading files -/

/-- What a reader of files gives. -/
abbrev Reader := String → Except FileError String

/-- The settings of a run. -/
def loadSettings (read : Reader) (o : RunOptions) : Except Failure Settings :=
  match o.config with
  | none => .ok .standard
  | some path =>
    match Settings.load path (read path) with
    | .ok s => .ok s
    | .error e => .error ⟨"Failed to load config: " ++ path, settingsCauses e⟩

/-- The project of a file. -/
def loadProject (read : Reader) (context path : String) : Except Failure SavedProject :=
  match read path with
  | .error e => .error ⟨context ++ path, fileCauses e⟩
  | .ok source =>
    match SavedProject.parse? source with
    | some p => .ok p
    | none => .error ⟨context ++ path, projectCauses⟩

/-- The settings and the project of a run. -/
def prepare (read : Reader) (o : RunOptions) : Except Failure (Settings × SavedProject) := do
  let s ← loadSettings read o
  let p ← loadProject read "Failed to run: " o.project
  return (applyOptions s o, p)

/-! ### Commands over given files -/

/-- What a failure leaves behind. -/
def failed (f : Failure) (stdout : String) : Output := ⟨1, stdout, f.report⟩

/-- The exit code of wrong arguments. -/
def mistakeCode : Nat := 2

/-- The exit code when the settings leave the work time undefined. -/
def undefinedCode : Nat := 101

/-- What stays of a command that never ends. -/
def endless : Output := ⟨124, "", ""⟩

/-- Run a project. -/
def performRun (fuel : Nat) (read : Reader) (level : LogLevel) (o : RunOptions)
    (dice : Nat → Nat) : Output :=
  match prepare read o with
  | .error f => failed f ""
  | .ok (s, project) =>
    match begin? s o project dice with
    | none => ⟨undefinedCode, "", ""⟩
    | some p =>
      match stepFrames fuel s o.realtime o.frames p with
      | none => endless
      | some p => p.output level

/-- The line of a checked actor. -/
def countLine (e : String × Nat) : String := bold e.1 ++ ": " ++ toString e.2 ++ " script(s)\n"

/-- Check a project. -/
def performCheck (read : Reader) (path : String) : Output :=
  match loadProject read "Failed to check: " path with
  | .error f => failed f ""
  | .ok p =>
    let counts := String.join (p.scriptCounts.map countLine)
    match p.problems with
    | [] => ⟨0, counts ++ green "Check passed!" ++ "\n", ""⟩
    | problems => failed ⟨"Failed to check: " ++ path, [SavedProject.problemText problems]⟩ counts

/-- Carry a command out. -/
def perform (fuel : Nat) (read : Reader) (args : List String)
    (dice : Nat → Nat := fun _ => 0) : Output :=
  let invocation := readArguments args
  match invocation.request with
  | .run o => performRun fuel read invocation.level o dice
  | .check path => performCheck read path
  | .version => ⟨0, versionText, ""⟩
  | .help topic => ⟨0, topic.text, ""⟩
  | .mistake => ⟨mistakeCode, "", ""⟩

end Stagecraft.Command
