import Stagecraft.Proofs.Graph.Lookup

/-!
# Histories of a program

A program comes from the empty one by reserving keys and creating, deleting, moving and editing
blocks. `Operation` is one such step and `Graph.run` a whole history.

Deleting and moving are made of edits of single blocks and of freed slots, so what those keep is
kept by them too (`Graph.delete_induction`, `Graph.move_induction`).
-/

namespace Stagecraft

/-- A step in the history of a program. -/
inductive Operation where
  /-- Give a key a handle. -/
  | reserve (key : String)
  /-- Insert a block. -/
  | create (b : Block)
  /-- Delete a block with all below it. -/
  | delete (h : Handle)
  /-- Move a block. -/
  | move (h : Handle) (place : Destination)
  /-- Change a block in place. -/
  | edit (h : Handle) (f : Block → Block)

/-- The same block but for its links, and for whether and where it starts a script. -/
def Block.Rewired (b b' : Block) : Prop :=
  b' = { b with
    next := b'.next
    parent := b'.parent
    inputs := b'.inputs
    topLevel := b'.topLevel
    x := b'.x
    y := b'.y }

/-- A change of blocks that leaves their handles and keys alone. -/
def KeepsLabels (f : Block → Block) : Prop := ∀ b, (f b).handle = b.handle ∧ (f b).key = b.key

/-- An operation that leaves the handles and keys of blocks alone; only an edit may not. -/
def Operation.KeepsLabels : Operation → Prop
  | .edit _ f => Stagecraft.KeepsLabels f
  | _ => True

namespace Graph

/-- Carry out one operation. -/
def apply (g : Graph) : Operation → Graph
  | .reserve key => (g.reserve key).1
  | .create b => (g.create b).1
  | .delete h => (g.delete h).1
  | .move h place => (g.move h place).1
  | .edit h f => g.modify h f

/-- Carry out operations one after the other. -/
def run (g : Graph) (ops : List Operation) : Graph := ops.foldl apply g

variable {g : Graph} {h : Handle}

theorem run_append (g : Graph) (before after : List Operation) :
    g.run (before ++ after) = (g.run before).run after :=
  List.foldl_append

/-- What every operation keeps holds after a whole history. -/
theorem run_induction {P : Graph → Prop} {Q : Operation → Prop}
    (step : ∀ g op, Q op → P g → P (g.apply op)) {ops : List Operation} (hops : ∀ op ∈ ops, Q op)
    (hg : P g) : P (g.run ops) := by
  induction ops generalizing g with
  | nil => exact hg
  | cons op rest ih =>
    exact ih (fun o ho => hops o (List.mem_cons_of_mem _ ho))
      (step g op (hops op List.mem_cons_self) hg)

/-! ### What edits keep, moves and deletions keep -/

/-- A change of blocks as deletions and moves make it. -/
def Rewires (f : Block → Block) : Prop := ∀ b : Block, b.Rewired (f b)

theorem Rewires.keepsLabels {f : Block → Block} (hf : Rewires f) : KeepsLabels f := by
  intro b
  rw [hf b]
  exact ⟨rfl, rfl⟩

theorem rewires_unlinkChild (c : Handle) : Rewires (unlinkChild c) := by
  intro b
  unfold unlinkChild
  split <;> rfl

section Induction

variable {P : Graph → Prop} (edit : ∀ g h f, Rewires f → P g → P (g.modify h f))

include edit

theorem detach_induction (hg : P g) (p c : Handle) : P (g.detach p c) :=
  edit _ _ _ (fun _ => rfl) (edit _ _ _ (rewires_unlinkChild c) hg)

theorem cutOff_induction (hg : P g) (h : Handle) : P (g.cutOff h) := by
  unfold cutOff
  split
  · exact detach_induction edit hg _ _
  · exact hg

theorem link_induction (hg : P g) (p c : Handle) {f : Block → Block} (hf : Rewires f) :
    P (g.link p c f) :=
  edit _ _ _ (fun _ => rfl) (edit _ _ _ hf hg)

theorem attach_induction (hg : P g) (h : Handle) (place : Destination) : P (g.attach h place) := by
  cases place with
  | topLevel x y => exact edit _ _ _ (fun _ => rfl) hg
  | after p =>
    have hl := link_induction edit hg p h (f := fun b => { b with next := some h })
      fun _ => rfl
    unfold attach
    simp only
    split
    · exact link_induction edit hl _ _ fun _ => rfl
    · exact hl
  | input p name branch =>
    unfold attach
    simp only
    refine link_induction edit ?_ _ _ fun _ => rfl
    split
    · exact edit _ _ _ (fun _ => rfl) (detach_induction edit hg _ _)
    · exact hg

/-- A move is made of edits. -/
theorem move_induction (hg : P g) (h : Handle) (place : Destination) : P (g.move h place).1 := by
  unfold move
  split
  · exact hg
  · split
    · exact hg
    · exact attach_induction edit (cutOff_induction edit hg h) _ _

omit edit in
theorem vacateAll_induction
    (free : ∀ g h g' b, g.vacate h = some (g', b) → P g → P g') (fuel : Nat) :
    ∀ (pending : List Handle) (g : Graph), P g → P (vacateAll fuel pending g) := by
  induction fuel with
  | zero => exact fun _ _ hg => hg
  | succ fuel ih =>
    intro pending g hg
    cases pending with
    | nil => exact hg
    | cons h rest =>
      unfold vacateAll
      split
      · rename_i g' b hv
        exact ih _ _ (free _ _ _ _ hv hg)
      · exact ih _ _ hg

/-- A deletion is made of edits and freed slots. -/
theorem delete_induction (free : ∀ g h g' b, g.vacate h = some (g', b) → P g → P g')
    (reset : ∀ g, P g → P { g with procedures := none }) (hg : P g) (h : Handle) :
    P (g.delete h).1 := by
  unfold delete
  split
  · exact hg
  · exact reset _ (vacateAll_induction free _ _ _ (cutOff_induction edit hg h))

end Induction

end Graph

end Stagecraft
