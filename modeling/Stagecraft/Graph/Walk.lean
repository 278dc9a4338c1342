import Stagecraft.Graph.Arena

/-!
# Walking a program

Links between blocks may be cyclic, so every walk carries the number of live blocks as a bound.
-/

namespace Stagecraft

/-- The name of the input that holds the `n`-th stack inside a block. -/
def branchName (n : Nat) : String :=
  if n ≤ 1 then "SUBSTACK" else "SUBSTACK" ++ toString n

namespace Graph

/-- The first block of the `n`-th stack inside a block, if it is live. -/
def branch? (g : Graph) (h : Handle) (n : Nat) : Option Handle :=
  (((g.get? h).bind fun b => b.inputs.get? (branchName n)).bind Input.block?).filter g.contains

/-- Follow parents from a block, at most `fuel` times, to one whose parent is not live. -/
def topFrom (g : Graph) : Nat → Block → Option Handle
  | 0, _ => none
  | fuel + 1, b =>
    match b.parent.bind g.get? with
    | some p => topFrom g fuel p
    | none => some b.handle

/-- The block at the top of a block's parent chain; nothing if the chain has no end. -/
def topBlock? (g : Graph) (h : Handle) : Option Handle :=
  (g.get? h).bind (g.topFrom (g.size + 1))

/-- The handle of a block's parent. -/
def parent? (g : Graph) (h : Handle) : Option Handle := (g.get? h).bind (·.parent)

/-- Whether a handle occurs among the first `fuel` of a parent chain. -/
def onParentChain (g : Graph) (ancestor : Handle) : Nat → Option Handle → Bool
  | 0, _ => false
  | _ + 1, none => false
  | fuel + 1, some h =>
    if h = ancestor then true
    else onParentChain g ancestor fuel (g.parent? h)

/-- Whether a handle is another one or on its parent chain. -/
def isAncestorOrSelf (g : Graph) (ancestor h : Handle) : Bool :=
  g.onParentChain ancestor (g.size + 1) (some h)

/-- Follow successors at most `fuel` times. -/
def lastFrom (g : Graph) : Nat → Handle → Handle
  | 0, h => h
  | fuel + 1, h =>
    match g.next? h with
    | some n => lastFrom g fuel n
    | none => h

/-- The last handle of the chain of successors. -/
def lastInChain (g : Graph) (h : Handle) : Handle := g.lastFrom g.size h

end Graph

end Stagecraft
