import Stagecraft.Script.Frame
import Stagecraft.Text.Quoted

/-!
# Faults and notices

A primitive that fails retires the thread that ran it, and the failure is recorded for the host.
What a run warns about, such a failure among it, is a notice for the host to print.
-/

namespace Stagecraft

/-! ### Faults -/

/-- Why a thread was retired. -/
inductive Fault where
  /-- A primitive reported a failure. -/
  | failed (opcode message : String)
  /-- A result that a thread waited for was refused. -/
  | rejected (reason : String)
  /-- A host extension broke down. -/
  | crashed (opcode message : String)
  /-- Reporters were plugged into each other too deeply. -/
  | tooDeep (depth : Nat)
deriving DecidableEq

/-- The text of a fault. -/
def Fault.message : Fault → String
  | .failed opcode message => opcode ++ " failed: " ++ message
  | .rejected reason => "deferred result rejected: " ++ reason
  | .crashed opcode message => opcode ++ " panicked: " ++ message
  | .tooDeep depth => "reporters nested deeper than " ++ toString depth

/-- A thread that was retired by a fault. -/
structure FaultRecord where
  /-- The thread. -/
  thread : ThreadId
  /-- The actor whose script it ran. -/
  actor : ActorId
  /-- The name of the operation that was executing. -/
  opcode : String
  /-- What went wrong. -/
  fault : Fault
deriving DecidableEq

/-- Faults for the host, oldest first. -/
structure FaultLog where
  /-- The faults. -/
  records : List FaultRecord
deriving DecidableEq

namespace FaultLog

/-- The log without faults. -/
def empty : FaultLog := ⟨[]⟩

/-- Add a fault at the end. -/
def record (l : FaultLog) (f : FaultRecord) : FaultLog := ⟨l.records ++ [f]⟩

/-- Take all faults out. -/
def take (l : FaultLog) : FaultLog × List FaultRecord := (empty, l.records)

/-- The number of faults. -/
def size (l : FaultLog) : Nat := l.records.length

end FaultLog

/-! ### Notices -/

/-- Something to warn about. -/
inductive Notice where
  /-- A second stage took the place of the first. -/
  | stageReplaced (old new : ActorId)
  /-- There are as many clones as there may be. -/
  | cloneLimit (max : Nat)
  /-- An event named an operation that is no hat. -/
  | notAHat (opcode : String)
  /-- A call was refused because the stack is too deep. -/
  | callTooDeep (thread : ThreadId) (code : String) (depth : Nat)
  /-- A fault retired a thread. -/
  | retired (record : FaultRecord)
  /-- A project has problems. -/
  | projectProblem (text : String)
  /-- A remote update came while there is no stage. -/
  | cloudWithoutStage (name : String)
  /-- A remote update came for a variable that is not shared. -/
  | cloudUnknown (name : String)
deriving DecidableEq

namespace Notice

/-- Make control characters that terminals obey visible. -/
def escapeControl (s : String) : String :=
  s.toList.foldl (fun out c =>
    let n := c.toNat
    if n = 0x1B || n = 0x07 || n = 0x08 || n = 0x0C || n = 0x7F then
      out ++ "\\x" ++ (if n < 16 then "0" else "") ++ Text.hex n
    else if 0x80 ≤ n && n ≤ 0x9F then out ++ Text.codePoint c
    else out.push c) ""

/-- The text of a notice: what happened, then the particulars. -/
def text : Notice → String
  | .stageReplaced old new =>
    "replacing stage old=" ++ ActorId.text old ++ " new=" ++ ActorId.text new
  | .cloneLimit max => "clone limit reached max=" ++ toString max
  | .notAHat opcode => "not a hat opcode opcode=" ++ opcode
  | .callTooDeep thread code depth =>
    "call depth limit reached, refusing call thread=" ++ ThreadId.text thread ++
      " proccode=" ++ Text.quoted code ++ " depth=" ++ toString depth
  | .retired r =>
    escapeControl ("thread retired: " ++ r.fault.message) ++ " thread=" ++ ThreadId.text r.thread ++
      " target=" ++ ActorId.text r.actor ++ " opcode=" ++ r.opcode
  | .projectProblem text => escapeControl text
  | .cloudWithoutStage name => "cloud update without a stage name=" ++ name
  | .cloudUnknown name => "cloud update for unknown variable name=" ++ name

end Notice

end Stagecraft
