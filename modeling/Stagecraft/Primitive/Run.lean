import Stagecraft.Primitive.Control
import Stagecraft.Primitive.Message
import Stagecraft.Primitive.Operator
import Stagecraft.Primitive.Procedure
import Stagecraft.Primitive.Stage
import Stagecraft.Primitive.Sensing

/-!
# Running a primitive

The primitive of an operation: a built-in one, or the host's extension of that name. An operation
that nobody knows does nothing, and an extension that breaks down fails with what it left as a
message.
-/

namespace Stagecraft.Primitive

variable {σ : Type}

/-- The message of an extension that broke down without one. -/
def unknownCrash : String := "unknown panic"

/-- Run an extension of the host. -/
def extended (ext : Extensions σ) (name : String) (site : Site) (args : Args) (s : Scene σ) :
    Scene σ × Outcome :=
  match ext.get? name with
  | none => (s, .done)
  | some handler =>
    match handler site args s with
    | (s, .outcome o) => (s, o)
    | (s, .crashed message) => (s, .failed (.crashed name (message.getD unknownCrash)))

/-- Run the primitive of an operation. -/
def run (ext : Extensions σ) (op : Opcode) (site : Site) (args : Args) (s : Scene σ) :
    Scene σ × Outcome :=
  match op with
  | .control op => control op site args s
  | .event op => event op site args s
  | .data op => data op site args s
  | .operator op => operator op site args s
  | .procedure op => procedure op site args s
  | .motion op => motion op args s
  | .looks op => looks op args s
  | .sensing op => sensing op site args s
  | .custom name => extended ext name site args s

end Stagecraft.Primitive
