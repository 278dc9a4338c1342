import Stagecraft.Proofs.Graph.Index
import Stagecraft.Proofs.Graph.Preservation

/-!
# Looking procedures up between edits and copies

A program is edited, copied, and asked for its procedures in any order. Asking works the index out
and keeps it, and a copy takes the index along, so an edit may meet an index that was worked out
just before. Edits drop it where it could be wrong, and what is left is what a fresh look at the
blocks would give.

* `Graph.Use` : an edit, a copy or a question, to one of the programs there are;
* `Graph.forall_copies` : what edits and questions keep holds of all programs, copies included;
* `Graph.Addressed.apply` : blocks carry the handle at which they are found, as long as edits leave
  that alone;
* `Graph.current_of_uses` : **the index is never stale**.
-/

namespace Stagecraft

/-- An operation that leaves the handles of blocks alone; only an edit may not. -/
def Operation.KeepsHandles : Operation → Prop
  | .edit _ f => ∀ b, (f b).handle = b.handle
  | _ => True

namespace Graph

/-- What is done to one of several programs, told by its place among them. -/
inductive Use where
  /-- Carry out an operation. -/
  | edit (i : Nat) (op : Operation)
  /-- Add a copy at the end, with the index as it is. -/
  | copy (i : Nat)
  /-- Ask for a procedure or its arguments, which keeps the index for the next time. -/
  | ask (i : Nat)

/-- A use that leaves the handles of blocks alone. -/
def Use.KeepsHandles : Use → Prop
  | .edit _ op => op.KeepsHandles
  | _ => True

/-- Use one of several programs. -/
def use (gs : List Graph) : Use → List Graph
  | .edit i op => gs.modify i fun g => g.apply op
  | .copy i => gs ++ gs[i]?.toList
  | .ask i => gs.modify i indexed

/-- The programs that come of an empty one. -/
def copies (uses : List Use) : List Graph := uses.foldl use [empty]

variable {g : Graph} {h : Handle} {code : String}

/-! ### What holds of all copies -/

/-- What holds of all programs still does after one was changed into another it holds of. -/
theorem forall_mem_modify {P : Graph → Prop} {f : Graph → Graph} {gs : List Graph}
    (hgs : ∀ g ∈ gs, P g) (hf : ∀ g, P g → P (f g)) (i : Nat) : ∀ g ∈ gs.modify i f, P g := by
  intro g hg
  obtain ⟨j, hj⟩ := List.mem_iff_getElem?.1 hg
  rw [List.getElem?_modify] at hj
  obtain ⟨g', hg', rfl⟩ := Option.map_eq_some_iff.1 hj
  have hP : P g' := hgs g' (List.mem_of_getElem? hg')
  split
  · exact hf g' hP
  · exact hP

/-- One use keeps of all programs what edits and questions keep of one. -/
theorem forall_use {P : Graph → Prop} {gs : List Graph} {u : Use} (hgs : ∀ g ∈ gs, P g)
    (edit : ∀ i op, u = .edit i op → ∀ g, P g → P (g.apply op))
    (ask : ∀ g, P g → P g.indexed) : ∀ g ∈ use gs u, P g := by
  cases u with
  | edit i op => exact forall_mem_modify hgs (edit i op rfl) i
  | copy i =>
    intro g hg
    rcases List.mem_append.1 hg with hg | hg
    · exact hgs g hg
    · exact hgs g (List.mem_of_getElem? (Option.mem_toList.1 hg))
  | ask i => exact forall_mem_modify hgs ask i

/-- **What edits and questions keep holds of all programs**, copies included. -/
theorem forall_copies {P : Graph → Prop} {Q : Use → Prop} (start : P empty)
    (edit : ∀ i op, Q (.edit i op) → ∀ g, P g → P (g.apply op)) (ask : ∀ g, P g → P g.indexed)
    {uses : List Use} (huses : ∀ u ∈ uses, Q u) : ∀ g ∈ copies uses, P g := by
  induction uses using List.reverseRecOn with
  | nil => exact fun g hg => List.mem_singleton.1 hg ▸ start
  | append_singleton before u ih =>
    rw [copies, List.foldl_append]
    refine forall_use (ih fun v hv => huses v (List.mem_append_left _ hv)) ?_ ask
    rintro i op rfl
    exact edit i op (huses _ (List.mem_append_right _ List.mem_cons_self))

/-- Every copy is consistent, and its index is right, whatever edits do to the blocks. -/
theorem faithful_of_mem_copies (uses : List Use) :
    ∀ g ∈ copies uses, g.Consistent ∧ g.Faithful :=
  forall_copies (Q := fun _ => True) ⟨consistent_empty, faithful_of_none rfl⟩
    (fun _ op _ _ hg => ⟨hg.1.apply op, hg.2.apply hg.1 op⟩)
    (fun _ hg => ⟨hg.1.indexed, hg.2.indexed⟩) fun _ _ => trivial

/-! ### Handles that blocks carry -/

theorem addressed_empty : empty.Addressed := by
  intro h b hb
  cases hb

namespace Addressed

theorem of_get? {g' : Graph} (ha : g.Addressed) (hget : ∀ x, g'.get? x = g.get? x) :
    g'.Addressed := fun h b hb => ha h b (hget h ▸ hb)

theorem indexed (ha : g.Addressed) : g.indexed.Addressed := by
  unfold Graph.indexed
  split
  · exact ha
  · exact ha.of_get? (get?_congr rfl)

theorem modify (ha : g.Addressed) (h : Handle) {f : Block → Block}
    (hf : ∀ b, (f b).handle = b.handle) : (g.modify h f).Addressed := by
  intro x b hb
  rw [get?_modify] at hb
  split at hb
  · obtain ⟨b', hb', rfl⟩ := Option.map_eq_some_iff.1 hb
    rw [hf, ha x b' hb']
  · exact ha x b hb

theorem vacate {g' : Graph} {b : Block} (ha : g.Addressed) (hv : g.vacate h = some (g', b)) :
    g'.Addressed := by
  intro x b' hb'
  rw [get?_vacate hv] at hb'
  split at hb'
  · cases hb'
  · exact ha x b' hb'

theorem create (ha : g.Addressed) (hc : g.Consistent) (b : Block) : (g.create b).1.Addressed := by
  cases hlive : g.contains (g.reserve b.key).2 with
  | true =>
    rw [hc.create_eq, if_pos hlive]
    exact ha
  | false =>
    intro x b' hb'
    rw [get?_create hc b hlive] at hb'
    split at hb'
    · rename_i hx
      cases hb'
      exact hx.symm
    · exact ha x b' hb'

theorem apply (ha : g.Addressed) (hc : g.Consistent) {op : Operation} (hop : op.KeepsHandles) :
    (g.apply op).Addressed := by
  -- deletions and moves are made of edits that keep the handle, and of freed slots
  have edit : ∀ (g : Graph) (h : Handle) (f : Block → Block), Rewires f → g.Addressed →
      (g.modify h f).Addressed := fun g h f hf hg => hg.modify h fun b => (hf.keepsLabels b).1
  cases op with
  | reserve key => exact ha.of_get? (hc.get?_reserve key)
  | create b => exact ha.create hc b
  | delete h =>
    exact delete_induction edit (fun _ _ _ _ hv hg => hg.vacate hv)
      (fun _ hg => hg.of_get? (get?_congr rfl)) ha h
  | move h place => exact move_induction edit ha h place
  | edit h f => exact ha.modify h hop

end Addressed

/-- Every copy has its blocks carry the handle at which they are found. -/
theorem addressed_of_mem_copies {uses : List Use} (huses : ∀ u ∈ uses, u.KeepsHandles) :
    ∀ g ∈ copies uses, g.Consistent ∧ g.Addressed :=
  forall_copies ⟨consistent_empty, addressed_empty⟩
    (fun _ op hop _ hg => ⟨hg.1.apply op, hg.2.apply hg.1 hop⟩)
    (fun _ hg => ⟨hg.1.indexed, hg.2.indexed⟩) huses

/-! ### Looking procedures up -/

/-- **The index is never stale.** Whatever edits, copies and questions there were, in whatever
order, a procedure and its arguments are what a fresh look at the blocks gives. That is the first
live block in slot order that names the procedure, by the handle that the block carries, and the
arguments of its prototype; where no block does it is nothing. If edits leave alone the handles that
blocks carry, that is the first live definition in slot order with a live prototype of this
signature. -/
theorem current_of_uses (uses : List Use) {g : Graph} (hg : g ∈ copies uses) (code : String) :
    (g.definition? code = g.scanProcedures.get? code ∧
      g.parameters? code = ({ g with procedures := none } : Graph).parameters? code) ∧
    ((∀ h, g.definition? code = some h ↔ ∃ s b, g.FirstNames code b s ∧ b.handle = h) ∧
      (∀ p, g.parameters? code = some p ↔ ∃ h s, (∃ b, g.FirstNames code b s ∧ b.handle = h) ∧
        p = ⟨s.argumentIds, s.argumentNames, s.argumentDefaults, s.warp⟩) ∧
      ((∀ b ∈ g.blocks, ∀ s, ¬ g.Names code b s) →
        g.definition? code = none ∧ g.parameters? code = none)) ∧
    ((∀ u ∈ uses, u.KeepsHandles) →
      (∀ h, g.definition? code = some h ↔ ∃ s, g.FirstDefinedAt code h s) ∧
      (∀ p, g.parameters? code = some p ↔ ∃ h s, g.FirstDefinedAt code h s ∧
        p = ⟨s.argumentIds, s.argumentNames, s.argumentDefaults, s.warp⟩) ∧
      ((∀ h s, ¬ g.DefinedAt code h s) →
        g.definition? code = none ∧ g.parameters? code = none)) := by
  have hf : g.Faithful := (faithful_of_mem_copies uses g hg).2
  have hdef := hf.definition?_eq code
  have hnames : ∀ h, g.definition? code = some h ↔ ∃ s b, g.FirstNames code b s ∧ b.handle = h :=
    fun _ => hf.definition?_eq_some_iff
  refine ⟨⟨hdef, ?_⟩, ⟨hnames, fun p => parameters?_eq_some_iff hnames ?_, fun hnone => ?_⟩,
    fun huses => ?_⟩
  · -- both follow the same handle into the same slots
    have hget : ({ g with procedures := none } : Graph).get? = g.get? := funext (get?_congr rfl)
    unfold parameters? prototype?
    rw [hdef, hget]
    rfl
  · rintro h s ⟨b, hfirst, rfl⟩
    exact hfirst.1.prototype?
  · refine lookups_eq_none hnames ?_
    rintro h s ⟨b, ⟨hb, before, after, hblocks, -⟩, -⟩
    exact hnone b (by simp [hblocks]) s hb
  · have ha : g.Addressed := (addressed_of_mem_copies huses g hg).2
    have hdefines : ∀ h, g.definition? code = some h ↔ ∃ s, g.FirstDefinedAt code h s :=
      fun _ => ha.definition?_eq_some_iff hf
    exact ⟨hdefines, fun p => parameters?_eq_some_iff hdefines fun h s hs => hs.1.prototype?,
      fun hnone => lookups_eq_none hdefines fun h s hs => hnone h s hs.1⟩

/-- A procedure is defined and asked for. Then its definition is deleted, with its prototype, from a
copy that took the index along. -/
def fading : List Use :=
  [.edit 0 (.create { Block.detached "prototype" (.procedure .prototype) with
      signature := some ⟨"jump %s", ["height"], ["n"], ["1"], false⟩ }),
    .edit 0 (.create { Block.detached "definition" (.procedure .definition) with
      inputs := Table.empty.insert prototypeInput (.reporter ⟨0, 0⟩) }),
    .ask 0, .copy 0, .edit 1 (.delete ⟨1, 0⟩)]

theorem current_of_fading :
    (∀ u ∈ fading, u.KeepsHandles) ∧ ∃ g g', copies fading = [g, g'] ∧
      (∃ s, g.FirstDefinedAt "jump %s" ⟨1, 0⟩ s) ∧
      (∃ s b, g.FirstNames "jump %s" b s ∧ b.handle = ⟨1, 0⟩) ∧
      g'.scanProcedures.get? "jump %s" = none ∧ g'.definition? "jump %s" = none := by
  have hkeeps : ∀ u ∈ fading, u.KeepsHandles := by
    simp [fading, Use.KeepsHandles, Operation.KeepsHandles]
  obtain ⟨g, g', hcopies⟩ : ∃ g g', copies fading = [g, g'] := ⟨_, _, rfl⟩
  have hg : g ∈ copies fading := hcopies ▸ List.mem_cons_self
  have hg' : g' ∈ copies fading := hcopies ▸ List.mem_cons_of_mem _ List.mem_cons_self
  have hfound : (copies fading).map (·.definition? "jump %s") = [some ⟨1, 0⟩, none] := rfl
  rw [hcopies] at hfound
  obtain ⟨hdef, hdef'⟩ :
      g.definition? "jump %s" = some ⟨1, 0⟩ ∧ g'.definition? "jump %s" = none := by
    simpa using hfound
  have h := current_of_uses fading hg "jump %s"
  have h' := current_of_uses fading hg' "jump %s"
  exact ⟨hkeeps, g, g', hcopies, ((h.2.2 hkeeps).1 _).1 hdef, (h.2.1.1 _).1 hdef,
    h'.1.1 ▸ hdef', hdef'⟩

end Graph

end Stagecraft
