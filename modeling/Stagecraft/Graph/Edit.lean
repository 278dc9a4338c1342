import Stagecraft.Graph.Walk

/-!
# Editing a program

Deleting a block takes the blocks after it and everything plugged into it along. Moving a block
re-attaches it, with the blocks after it, somewhere else; a move that would make a block its own
ancestor is refused.
-/

namespace Stagecraft

/-- Where a block is moved to. -/
inductive Destination where
  /-- To the top of a script of its own. -/
  | topLevel (x y : Float)
  /-- Right after another block. -/
  | after (parent : Handle)
  /-- Into an input of another block, as a stack or as a reporter. -/
  | input (parent : Handle) (name : String) (branch : Bool)

/-- The block that a destination attaches to. -/
def Destination.parent? : Destination → Option Handle
  | .topLevel _ _ => none
  | .after p => some p
  | .input p _ _ => some p

namespace Graph

/-! ### Links -/

/-- Cut the link from a parent to a child: its successor link if that leads to the child, else
every input that does. -/
def unlinkChild (child : Handle) (b : Block) : Block :=
  if b.next = some child then { b with next := none }
  else { b with inputs := b.inputs.filter fun _ input => input.block? ≠ some child }

/-- Cut a child off its parent. -/
def detach (g : Graph) (parent child : Handle) : Graph :=
  (g.modify parent (unlinkChild child)).modify child fun b => { b with parent := none }

/-- Cut a block off its parent, if it has one. -/
def cutOff (g : Graph) (h : Handle) : Graph :=
  match g.parent? h with
  | some p => g.detach p h
  | none => g

/-- Make one block the parent of another and change the parent to refer to it. -/
def link (g : Graph) (parent child : Handle) (attach : Block → Block) : Graph :=
  (g.modify parent attach).modify child fun b =>
    { b with parent := some parent, topLevel := false }

/-! ### Deletion -/

/-- The number of references that live blocks hold to other blocks. -/
def references (g : Graph) : Nat :=
  (g.blocks.flatMap Block.children).length

/-- Free pending blocks, the last one first, adding what they refer to. -/
def vacateAll : Nat → List Handle → Graph → Graph
  | 0, _, g => g
  | _ + 1, [], g => g
  | fuel + 1, h :: pending, g =>
    match g.vacate h with
    | some (g, b) => vacateAll fuel (b.children.reverse ++ pending) g
    | none => vacateAll fuel pending g

/-- Delete a block, the blocks after it and everything plugged into it; tells whether the block
was live. -/
def delete (g : Graph) (h : Handle) : Graph × Bool :=
  match g.get? h with
  | none => (g, false)
  | some _ =>
    let g := g.cutOff h
    ({ vacateAll (g.references + 1) [h] g with procedures := none }, true)

/-! ### Moves -/

/-- Attach a block that was cut off its old place. -/
def attach (g : Graph) (h : Handle) : Destination → Graph
  | .topLevel x y => g.modify h fun b => { b with topLevel := true, x := x, y := y }
  | .after p =>
    let oldNext := ((g.get? p).bind (·.next)).filter (· ≠ h)
    let g := g.link p h fun b => { b with next := some h }
    match oldNext with
    | some n => g.link (g.lastInChain h) n fun b => { b with next := some n }
    | none => g
  | .input p name branch =>
    let held := (g.get? p).bind fun b => b.inputs.get? name
    let displaced := (held.bind Input.block?).filter (· ≠ h)
    let g := match displaced with
      | some old => (g.detach p old).modify old fun b => { b with topLevel := true }
      | none => g
    let input : Input := if branch then .branch h else .reporter h
    g.link p h fun b => { b with inputs := b.inputs.insert name input }

/-- Whether a move is refused: the block to attach to is gone, or it is the moved block or below
it. -/
def refuses (g : Graph) (h : Handle) (place : Destination) : Bool :=
  match place.parent? with
  | some p => !g.contains p || g.isAncestorOrSelf h p
  | none => false

/-- Move a block; tells whether it was moved. -/
def move (g : Graph) (h : Handle) (place : Destination) : Graph × Bool :=
  match g.get? h with
  | none => (g, false)
  | some _ => if g.refuses h place then (g, false) else ((g.cutOff h).attach h place, true)

end Graph

end Stagecraft
