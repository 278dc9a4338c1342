import Stagecraft.Graph.Edit
import Stagecraft.Graph.Procedure

/-!
# Building programs

A `Builder` adds blocks to a program under keys of its own, `block0`, `block1` and so on, passing
over keys that the program uses or reserves.
-/

namespace Stagecraft

/-- A program under construction. -/
structure Builder where
  /-- The blocks so far. -/
  graph : Graph
  /-- The number to try for the next key. -/
  nextKey : Nat

namespace Builder

/-- Continue an existing program. -/
def ofGraph (g : Graph) : Builder := ⟨g, g.size⟩

/-- The first number from `n` on, at most `fuel` further, whose key is not in use. -/
def freshFrom (g : Graph) : Nat → Nat → Nat
  | 0, n => n
  | fuel + 1, n =>
    if (g.handleOf? ("block" ++ toString n)).isNone then n else freshFrom g fuel (n + 1)

/-- Add a block without links. -/
def block (b : Builder) (opcode : Opcode) : Builder × Handle :=
  let n := freshFrom b.graph b.graph.keys.size b.nextKey
  let (g, h) := b.graph.create (.detached ("block" ++ toString n) opcode)
  (⟨g, n + 1⟩, h)

/-- Change a block of the program. -/
def modify (b : Builder) (h : Handle) (f : Block → Block) : Builder :=
  { b with graph := b.graph.modify h f }

/-- Put a literal into an input. -/
def literal (b : Builder) (h : Handle) (name : String) (v : Value) : Builder :=
  b.modify h fun blk => { blk with inputs := blk.inputs.insert name (.literal v) }

/-- Add a block whose inputs are literals. -/
def command (b : Builder) (opcode : Opcode) (inputs : List (String × Value)) : Builder × Handle :=
  let (b, h) := b.block opcode
  (inputs.foldl (fun b e => b.literal h e.1 e.2) b, h)

/-- Set a field. -/
def field (b : Builder) (h : Handle) (name value : String) (id : Option String) : Builder :=
  b.modify h fun blk => { blk with fields := blk.fields.insert name ⟨value, id⟩ }

/-- Put a block into an input of another and make that its parent. -/
def plug (b : Builder) (parent : Handle) (name : String) (input : Input) (child : Handle) :
    Builder :=
  (b.modify parent fun blk => { blk with inputs := blk.inputs.insert name input }).modify child
    fun blk => { blk with parent := some parent }

/-- Plug a reporter into an input. -/
def reporter (b : Builder) (parent : Handle) (name : String) (child : Handle) : Builder :=
  b.plug parent name (.reporter child) child

/-- Link blocks one after the other; the result is the first of them. -/
def chain (b : Builder) : List Handle → Builder × Option Handle
  | [] => (b, none)
  | [h] => (b, some h)
  | h :: n :: rest =>
    let b := (b.modify h fun blk => { blk with next := some n }).modify n
      fun blk => { blk with parent := some h }
    ((b.chain (n :: rest)).1, some h)

/-- Make blocks the `n`-th stack inside another. -/
def branch (b : Builder) (parent : Handle) (n : Nat) (body : List Handle) : Builder :=
  match b.chain body with
  | (b, some first) => b.plug parent (branchName n) (.branch first) first
  | (b, none) => b

/-- Make a block the top of a script with blocks below it. -/
def attachBody (b : Builder) (top : Handle) (body : List Handle) : Builder :=
  let b := b.modify top fun blk => { blk with topLevel := true }
  match b.chain body with
  | (b, some first) =>
    (b.modify top fun blk => { blk with next := some first }).modify first
      fun blk => { blk with parent := some top }
  | (b, none) => b

/-- Add a script under a hat. -/
def script (b : Builder) (hat : Opcode) (body : List Handle) : Builder × Handle :=
  let (b, top) := b.block hat
  (b.attachBody top body, top)

/-- Add a script under a hat with one field, such as a message or a key. -/
def scriptWithField (b : Builder) (hat : Opcode) (name value : String) (body : List Handle) :
    Builder × Handle :=
  let (b, top) := b.block hat
  ((b.field top name value none).attachBody top body, top)

/-- Make blocks a script of their own without a hat; the result is the first of them. -/
def stack (b : Builder) (body : List Handle) : Builder × Option Handle :=
  match b.chain body with
  | (b, some first) => (b.modify first fun blk => { blk with topLevel := true }, some first)
  | (b, none) => (b, none)

/-- Define a procedure, with an id, a name and a default for each argument. -/
def procedure (b : Builder) (code : String) (arguments : List (String × String × String))
    (warp : Bool) (body : List Handle) : Builder × Handle :=
  let (b, prototype) := b.block (.procedure .prototype)
  let signature : Signature :=
    ⟨code, arguments.map (·.1), arguments.map (·.2.1), arguments.map (·.2.2), warp⟩
  let b := b.modify prototype fun blk => { blk with shadow := true, signature := some signature }
  let (b, definition) := b.block (.procedure .definition)
  let b := b.plug definition prototypeInput (.reporter prototype) prototype
  (b.attachBody definition body, definition)

/-- Add a call with an id and a value for each argument. -/
def call (b : Builder) (code : String) (arguments : List (String × Value)) : Builder × Handle :=
  let (b, h) := b.block (.procedure .call)
  let b := b.modify h fun blk =>
    { blk with signature := some ⟨code, arguments.map (·.1), [], [], false⟩ }
  (arguments.foldl (fun b e => b.literal h e.1 e.2) b, h)

end Builder

end Stagecraft
