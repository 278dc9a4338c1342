import Stagecraft.Primitive.Scene

/-!
# Procedure primitives

A call enters the body of its procedure once; the frame remembers that, so the call is complete when
control comes back to it. Argument reporters read what the innermost call bound.
-/

namespace Stagecraft.Primitive

variable {σ : Type}

/-- What a call supplies, by argument id. -/
def suppliedArguments (signature : Signature) (args : Args) : Table String Value :=
  .ofList (signature.argumentIds.filterMap fun id => (args.get? id).map fun v => (id, v))

/-- Call a procedure, unless the frame has called it already. -/
def call (site : Site) (args : Args) (s : Scene σ) : Scene σ :=
  if s.progress? site = some .called then s
  else match site.block?.bind (·.signature) with
    | none => s
    | some signature =>
      ((s.keep site .called).startProcedure site signature.code
        (suppliedArguments signature args)).1

/-- The argument that the block names. -/
def argument? (site : Site) (s : Scene σ) : Option Value :=
  s.thread.argument? ((site.field? "VALUE").getD "")

/-- Run a procedure primitive. -/
def procedure (op : ProcedureOp) (site : Site) (args : Args) (s : Scene σ) : Scene σ × Outcome :=
  match op with
  | .definition => (s, .done)
  | .prototype => (s, .done)
  | .call => (call site args s, .done)
  | .argumentText => (s, .value ((argument? site s).getD (.number 0.0)))
  | .argumentFlag =>
    (s, .value (.flag (match argument? site s with
      | some v => v.toFlag
      | none => false)))

end Stagecraft.Primitive
