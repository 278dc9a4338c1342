import Stagecraft.Table
import Stagecraft.Value.Basic
import Stagecraft.Graph.Opcode

/-!
# Blocks

A block is a node of a program: an operation with input slots, fields and links to the block after
it and the block that holds it. Blocks refer to each other by `Handle`, a slot of the arena with
the slot's generation, so that a handle to a deleted block stays invalid when its slot is used
again.
-/

namespace Stagecraft

/-- A reference to a block: a slot of the arena and the generation of that slot. -/
@[ext] structure Handle where
  /-- The slot. -/
  index : Nat
  /-- The generation of the slot. -/
  generation : Nat
deriving DecidableEq

namespace Handle

/-- The handle of a block that is in no arena. -/
def nowhere : Handle := ⟨4294967295, 0⟩

/-- The text of a handle. -/
def text (h : Handle) : String := "block@" ++ toString h.index ++ "v" ++ toString h.generation

/-- Order by slot, then by generation. -/
def before (a b : Handle) : Bool :=
  a.index < b.index || (a.index == b.index && a.generation ≤ b.generation)

end Handle

/-- What an input slot holds. -/
inductive Input where
  /-- A value typed into the slot. -/
  | literal (v : Value)
  /-- A block evaluated for its value. -/
  | reporter (h : Handle)
  /-- The first block of a stack inside the block. -/
  | branch (h : Handle)
deriving DecidableEq

/-- The block that an input refers to. -/
def Input.block? : Input → Option Handle
  | .literal _ => none
  | .reporter h => some h
  | .branch h => some h

/-- The value of a field, and the id of the variable, list or message it names. -/
structure Field where
  /-- The value shown. -/
  value : String
  /-- The id of what the field refers to, if any. -/
  id : Option String
deriving DecidableEq

/-- The signature of a procedure, carried by prototypes and calls. -/
structure Signature where
  /-- The text that identifies the procedure. -/
  code : String
  /-- Argument ids, which are the input names of calls. -/
  argumentIds : List String
  /-- Argument names, as argument reporters see them. -/
  argumentNames : List String
  /-- Values of arguments that a call leaves out. -/
  argumentDefaults : List String
  /-- Whether the body runs without yielding. -/
  warp : Bool
deriving DecidableEq

/-- A node of a program. -/
structure Block where
  /-- The handle that the arena assigned. -/
  handle : Handle
  /-- The name of the block in a saved program, unique within it. -/
  key : String
  /-- The operation. -/
  opcode : Opcode
  /-- The input slots by name. -/
  inputs : Table String Input
  /-- The fields by name. -/
  fields : Table String Field
  /-- The signature, on procedure blocks. -/
  signature : Option Signature
  /-- The block to run afterwards. -/
  next : Option Handle
  /-- The block that holds this one as its successor or in an input. -/
  parent : Option Handle
  /-- Whether the block stands in for a value that was left out. -/
  shadow : Bool
  /-- Whether the block starts a script. -/
  topLevel : Bool
  /-- Horizontal place in the editor. -/
  x : Float
  /-- Vertical place in the editor. -/
  y : Float
deriving DecidableEq

namespace Block

/-- A block without links that is in no arena yet. -/
def detached (key : String) (opcode : Opcode) : Block where
  handle := .nowhere
  key := key
  opcode := opcode
  inputs := .empty
  fields := .empty
  signature := none
  next := none
  parent := none
  shadow := false
  topLevel := false
  x := 0.0
  y := 0.0

/-- The value of a field. -/
def field? (b : Block) (name : String) : Option String := (b.fields.get? name).map (·.value)

/-- The id that a field carries. -/
def fieldId? (b : Block) (name : String) : Option String := (b.fields.get? name).bind (·.id)

/-- The blocks that the inputs refer to, in input order. -/
def inputBlocks (b : Block) : List Handle := b.inputs.values.filterMap Input.block?

/-- The blocks that a block refers to: its successor, then those in its inputs. -/
def children (b : Block) : List Handle := b.next.toList ++ b.inputBlocks

/-- The value of the first field, which is what a menu block reports. -/
def menuValue (b : Block) : Value :=
  match b.fields.values with
  | [] => .blank
  | f :: _ => .text f.value

end Block

end Stagecraft
