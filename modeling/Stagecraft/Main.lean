import Stagecraft.Command.Run

/-!
# The program

Reads files, steps a run frame by frame in real time and prints. Everything that is decided is
decided by the commands; here is only what they need from outside.
-/

namespace Stagecraft.Command

/-- How many blocks a frame may take before it counts as one that never ends. -/
def frameFuel : Nat := Nat.pow 2 40

/-- Read a file. -/
def readFile (path : String) : IO (Except FileError String) := do
  try
    return .ok (← IO.FS.readFile path)
  catch
    | .noFileOrDirectory .. => return .error .missing
    | .inappropriateType .. => return .error .directory
    | e => return .error (.other (toString e))

/-- A reader that knows some files. -/
def readerOf (files : List (String × Except FileError String)) : Reader := fun path =>
  match files.find? fun f => f.1 == path with
  | some f => f.2
  | none => .error .missing

/-- Read the files that a request needs. -/
def gatherFiles (request : Request) : IO Reader := do
  let paths := match request with
    | .run o => o.config.toList ++ [o.project]
    | .check path => [path]
    | _ => []
  let files ← paths.mapM fun path => do return (path, ← readFile path)
  return readerOf files

/-- Print what a command leaves behind. -/
def printOutput (o : Output) : IO UInt32 := do
  IO.print o.stdout
  IO.eprint o.stderr
  return o.exit.toUInt32

/-- Step up to so many frames, sleeping out each of them if that is wanted. -/
def stepInTime (s : Settings) (realtime : Bool) (origin : Nat) : Nat → RunState → IO RunState
  | 0, p => return p
  | n + 1, p => do
    let started ← IO.monoNanosNow
    let p := { p with stage := p.stage.setClock ((started - origin) / 1000) }
    match stepFrame frameFuel p with
    | none => return p
    | some (p, false) => return p
    | some (p, true) =>
      if realtime then
        let spent := (← IO.monoNanosNow) - started
        IO.sleep ((s.frameInterval - spent + 999999) / 1000000).toUInt32
      stepInTime s realtime origin n p

/-- Random numbers that nobody can tell before. -/
def throwDice : IO (Nat → Nat) := do
  let seed ← IO.getRandomBytes 16
  return fun n => (mixHash (hash seed) (hash n)).toNat

/-- Run a project in real time. -/
def runInTime (read : Reader) (level : LogLevel) (o : RunOptions) : IO UInt32 := do
  match prepare read o with
  | .error f => printOutput (failed f "")
  | .ok (s, project) =>
    match begin? s o project (← throwDice) with
    | none => printOutput ⟨undefinedCode, "", ""⟩
    | some p =>
      let p ← stepInTime s o.realtime (← IO.monoNanosNow) o.frames p
      printOutput (p.output level)

end Stagecraft.Command

open Stagecraft.Command in
/-- The program. -/
def main (args : List String) : IO UInt32 := do
  let invocation := readArguments args
  let read ← gatherFiles invocation.request
  match invocation.request with
  | .run o => runInTime read invocation.level o
  | .mistake =>
    IO.eprint (Topic.text .program)
    return mistakeCode.toUInt32
  | _ => printOutput (perform frameFuel read args)
