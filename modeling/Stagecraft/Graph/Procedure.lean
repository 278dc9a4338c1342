import Stagecraft.Graph.Arena

/-!
# Procedures of a program

A procedure is a definition block with a prototype in its `custom_block` input; the prototype's
signature names it. Of several definitions of one signature the first in slot order counts.
`Graph.scanProcedures` works the index out from the blocks, and `Graph.indexed` keeps it for later
look-ups.
-/

namespace Stagecraft

/-- The input that holds the prototype of a definition. -/
def prototypeInput : String := "custom_block"

/-- The arguments of a procedure. -/
structure Parameters where
  /-- Argument ids. -/
  ids : List String
  /-- Argument names. -/
  names : List String
  /-- Values of arguments that a call leaves out. -/
  defaults : List String
  /-- Whether the body runs without yielding. -/
  warp : Bool
deriving DecidableEq

namespace Graph

/-- The prototype of a definition. -/
def prototype? (g : Graph) (definition : Handle) : Option Block :=
  (((g.get? definition).bind fun b => b.inputs.get? prototypeInput).bind Input.block?).bind g.get?

/-- The signature that a definition block defines. -/
def definedCode? (g : Graph) (b : Block) : Option String :=
  if b.opcode = .procedure .definition then
    ((g.prototype? b.handle).bind (·.signature)).map (·.code)
  else none

/-- The definition of every signature, by the first definition block that has it. -/
def scanProcedures (g : Graph) : Table String Handle :=
  g.blocks.foldl (fun index b =>
    match g.definedCode? b with
    | some code => if index.contains code then index else index.insert code b.handle
    | none => index) .empty

/-- The graph with its index of procedures worked out. -/
def indexed (g : Graph) : Graph :=
  match g.procedures with
  | some _ => g
  | none => { g with procedures := some g.scanProcedures }

/-- The definition of a procedure. -/
def definition? (g : Graph) (code : String) : Option Handle :=
  match g.procedures with
  | some index => index.get? code
  | none => g.scanProcedures.get? code

/-- The arguments of a procedure, from its prototype. -/
def parameters? (g : Graph) (code : String) : Option Parameters :=
  (((g.definition? code).bind g.prototype?).bind (·.signature)).map fun s =>
    ⟨s.argumentIds, s.argumentNames, s.argumentDefaults, s.warp⟩

end Graph

end Stagecraft
