import Stagecraft.Proofs.Graph.Rewire
import Stagecraft.Proofs.Graph.Trail

/-!
# Edits keep a program a forest

A deletion cuts a block off and prunes all that is below it. A move cuts a block off and joins it to
its new parent; what it pushes aside becomes the top of a script of its own, or is joined to the end
of the chain that was moved. A move below the moved block itself is refused, so no step closes a
cycle.

* `Graph.Forest.delete`, `Graph.Forest.move`, `Graph.Forest.create` : one edit keeps a forest;
* `Graph.wellFormed_edit` : **every edit of a well-formed program leaves it well-formed**, and one
  that is refused leaves it alone;
* `Graph.wellFormed_run` : so does every history made of such edits.
-/

namespace Stagecraft

/-- A block that refers to nothing and has no parent. -/
structure Block.Unlinked (b : Block) : Prop where
  next : b.next = none
  parent : b.parent = none
  inputs : b.inputBlocks = []

/-- An operation that changes links only as deletions and moves do. -/
def Operation.KeepsLinks : Operation → Prop
  | .create b => b.Unlinked
  | .edit _ _ => False
  | _ => True

namespace Graph

variable {g : Graph} {h p : Handle} {b : Block}

/-! ### Deletion and creation -/

theorem Forest.delete (hf : g.Forest) (h : Handle) : (g.delete h).1.Forest := by
  unfold Graph.delete
  split
  · exact hf
  · have hcut := hf.cut_cutOff h
    have hf₁ := hf.cut hcut
    have hp : (g.cutOff h).parent? h = none := (hcut.parent h).trans (if_pos rfl)
    -- all references and the one pending handle are the fuel of the deletion
    have hpruned : (vacateAll ((g.cutOff h).references + 1) [h] (g.cutOff h)).Forest := by
      refine hf₁.prune hp fun x b => ?_
      have hv := get?_vacateAll _ [h] (g.cutOff h) (Nat.le_refl ((g.cutOff h).references + 1)) x b
      simpa only [List.mem_singleton, forall_eq, hf₁.reaches_iff] using hv
    exact hpruned.of_get? fun x => get?_congr rfl x

/-- A created block has a handle that was not live. -/
theorem get?_create (hc : g.Consistent) (b : Block) (hn : g.contains (g.reserve b.key).2 = false)
    (x : Handle) : (g.create b).1.get? x =
      if x = (g.reserve b.key).2 then some { b with handle := (g.reserve b.key).2 }
      else g.get? x := by
  obtain ⟨s, hs, hg, -⟩ := ((hc.reserve b.key).handleOf?_iff _ _).1 (hc.handleOf?_reserve b.key)
  rw [hc.create_eq, hn]
  simp only [Bool.false_eq_true, if_false]
  have hfill := Consistent.getElem?_fill (g.reserve b.key).1 (g.reserve b.key).2 b x.index
  by_cases hi : (g.reserve b.key).2.index = x.index
  · rw [if_pos hi, ← hi, hs, Option.map_some, hi] at hfill
    by_cases hx : x = (g.reserve b.key).2
    · rw [if_pos hx, get?_of_slot hfill (hx ▸ hg)]
    · have hne : s.generation ≠ x.generation := fun hsx =>
        hx (Handle.ext hi.symm (hsx.symm.trans hg))
      rw [if_neg hx, get?_of_generation_ne hfill hne, ← hc.get?_reserve b.key]
      exact (get?_of_generation_ne (hi ▸ hs) hne).symm
  · rw [if_neg hi] at hfill
    rw [get?_of_slot_eq hfill, hc.get?_reserve, if_neg fun hx => hi (by rw [hx])]

theorem Forest.create (hf : g.Forest) (hc : g.Consistent) (hnext : b.next = none)
    (hparent : b.parent = none) (hinputs : b.inputBlocks = []) : (g.create b).1.Forest := by
  cases hlive : g.contains (g.reserve b.key).2 with
  | true =>
    rw [hc.create_eq, if_pos hlive]
    exact hf
  | false =>
    have hget := get?_create hc b hlive
    have hnone : g.get? (g.reserve b.key).2 = none := Option.not_isSome_iff_eq_none.1 <| by
      unfold contains at hlive
      rw [hlive]
      exact Bool.false_ne_true
    -- the new block has no links, as if there were no block
    refine hf.of_links ?_ ?_ ?_ ?_
    · intro x
      unfold parent?
      rw [hget]
      split
      · rename_i hx
        rw [hx, hnone]
        exact hparent
      · rfl
    · intro x
      unfold children
      rw [hget]
      by_cases hx : x = (g.reserve b.key).2
      · rw [if_pos hx, hx, hnone]
        simp only [Block.children, hnext, Option.toList_none, List.nil_append]
        exact hinputs
      · rw [if_neg hx]
    · intro x hx
      obtain ⟨b', hb'⟩ := contains_iff.1 hx
      refine contains_of_get? (b := b') ?_
      rw [hget, if_neg, hb']
      rintro rfl
      rw [hnone] at hb'
      cases hb'
    · intro x b' hb' ht
      rw [hget] at hb'
      split at hb'
      · rename_i hx
        rw [hx, parent?, hnone]
        rfl
      · exact (parent?_of_get? hb').trans (hf.top hb' ht)

/-! ### Attaching a block that has no parent -/

/-- Joining a block as a successor to one that has none. -/
theorem Forest.join_next (hf : g.Forest) (hlive : g.contains h = true) (hn : g.parent? h = none)
    (hp : g.contains p = true) (hpn : g.next? p = none) (hph : ¬g.Below p h) :
    Joined g p h (g.link p h fun b => { b with next := some h }) := by
  obtain ⟨b, hb⟩ := contains_iff.1 hp
  refine hf.joined_link hlive hn (fun he => hph (he ▸ Below.refl _ _)) hb ?_ rfl rfl
  rw [Block.children_next ((next?_of_get? hb).symm.trans hpn)]

/-- Joining a block in an input that holds none. -/
theorem Forest.join_input (hf : g.Forest) (hlive : g.contains h = true) (hn : g.parent? h = none)
    (hb : g.get? p = some b) (hph : ¬g.Below p h) {name : String} {input : Input}
    (hheld : (b.inputs.get? name).bind Input.block? = none) (hi : input.block? = some h) :
    Joined g p h (g.link p h fun b => { b with inputs := b.inputs.insert name input }) :=
  hf.joined_link hlive hn (fun he => hph (he ▸ Below.refl _ _)) hb
    (Block.children_insert hheld hi) rfl rfl

/-- **A chain put after a block and what is put at its end.** -/
theorem Forest.join_chain (hf : g.Forest) (hc : g.Consistent) {n : Handle}
    (hlive : g.contains h = true) (hh : g.parent? h = none) (hnlive : g.contains n = true)
    (hn : g.parent? n = none) (hnh : n ≠ h) (hp : g.contains p = true) (hpn : g.next? p = none)
    (hph : ¬g.Below p h) (hpn' : ¬g.Below p n) :
    (g.link p h fun b => { b with next := some h }).lastInChain h ≠ n ∧
      ((g.link p h fun b => { b with next := some h }).link
        ((g.link p h fun b => { b with next := some h }).lastInChain h) n
        fun b => { b with next := some n }).Forest := by
  have hj := hf.join_next hlive hh hp hpn hph
  have hf' := hf.join hlive hh hph hj
  have hc' : (g.link p h fun b => { b with next := some h }).Consistent :=
    (hc.modify _ _).modify _ _
  have hlive' := (hj.contains h).trans hlive
  have hn' : (g.link p h fun b => { b with next := some h }).parent? n = none := by
    rw [hj.parent, if_neg hnh, hn]
  -- the last block is below `h`, and `h` is not below `n`
  have hlast : ¬(g.link p h fun b => { b with next := some h }).Below
      ((g.link p h fun b => { b with next := some h }).lastInChain h) n := by
    intro hb
    rcases (hf'.below_lastFrom _ h).total hb with hhn | hnh'
    · rcases Relation.ReflTransGen.cases_head hhn with rfl | ⟨q, hq, hqn⟩
      · exact hnh rfl
      · rw [hj.parent, if_pos rfl] at hq
        cases hq
        exact hpn' (hj.below hph hqn)
    · exact hnh (hnh'.eq_of_parent?_eq_none hn')
  refine ⟨fun he => hlast (he ▸ Below.refl _ _), ?_⟩
  have hlast_live := hf'.contains_lastFrom
    (g.link p h fun b => { b with next := some h }).size h hlive'
  exact hf'.join ((hj.contains n).trans hnlive) hn' hlast
    (hf'.join_next ((hj.contains n).trans hnlive) hn' hlast_live
      (hf'.next?_lastInChain hc' h) hlast)

section Successor

variable {n : Handle} (hpn : p ≠ n) (hnh : n ≠ h) (hb : g.get? p = some b) (hbn : b.next = some n)

include hpn hnh hb hbn

/-- Cutting the old successor off before a new one is linked changes nothing but its parent. -/
theorem get?_detach_link (x : Handle) :
    ((g.detach p n).link p h fun b => { b with next := some h }).get? x =
      if x = n then ((g.link p h fun b => { b with next := some h }).get? x).map fun b =>
        { b with parent := none }
      else (g.link p h fun b => { b with next := some h }).get? x := by
  rw [get?_link, get?_detach, get?_link]
  by_cases hxn : x = n
  · subst hxn
    simp only [if_neg hnh, if_neg hpn.symm, if_true]
  · rw [if_neg hxn, if_neg hxn]
    by_cases hxp : x = p
    · subst hxp
      simp only [if_true, hb, Option.map_some, unlinkChild, hbn]
    · simp only [if_neg hxp]

theorem lastInChain_detach_link (x : Handle) :
    (g.link p h fun b => { b with next := some h }).lastInChain x =
      ((g.detach p n).link p h fun b => { b with next := some h }).lastInChain x := by
  have hsize : (g.link p h fun b => { b with next := some h }).size =
      ((g.detach p n).link p h fun b => { b with next := some h }).size := by
    simp only [link, detach, size_modify]
  rw [lastInChain, lastInChain, hsize]
  refine lastFrom_congr (fun y => ?_) _ x
  unfold next?
  rw [get?_detach_link hpn hnh hb hbn]
  split
  · rw [Option.bind_map]
    rfl
  · rfl

end Successor

/-- **Putting a block between another one and its successor.** The successor goes to the end of the
chain that is put in; the outcome is the same as if it had been cut off first. -/
theorem Forest.attach_after (hf : g.Forest) (hc : g.Consistent) (hlive : g.contains h = true)
    (hn : g.parent? h = none) (hp : g.contains p = true) (hph : ¬g.Below p h) :
    (g.attach h (.after p)).Forest := by
  obtain ⟨b, hb⟩ := contains_iff.1 hp
  have hnext := next?_of_get? hb
  unfold Graph.attach
  simp only [hb, Option.bind_some]
  cases hbn : b.next with
  | none => exact hf.join hlive hn hph (hf.join_next hlive hn hp (hnext.trans hbn) hph)
  | some n =>
    have hchild : n ∈ g.children p := mem_children_of_next? (hnext.trans hbn)
    have hpar : g.parent? n = some p := hf.parent_iff.2 hchild
    have hpn : p ≠ n := hf.parent_ne hpar
    have hnh : n ≠ h := by
      rintro rfl
      rw [hn] at hpar
      cases hpar
    rw [Option.filter_some, if_pos (by simpa using hnh)]
    -- with the old successor cut off first, both links join a block without parent
    have hcut := hf.cut_detach hpar
    have hnext' : (g.detach p n).next? p = none := by
      rw [next?, get?_detach, if_neg hpn, if_pos rfl, hb, Option.map_some, unlinkChild, if_pos hbn]
      rfl
    obtain ⟨hlast, hjoined⟩ := (hf.cut hcut).join_chain ((hc.modify _ _).modify _ _)
      ((hcut.contains h).trans hlive) (by rw [hcut.parent, if_neg hnh.symm, hn])
      ((hcut.contains n).trans (hf.live hchild)) (by rw [hcut.parent, if_pos rfl]) hnh
      ((hcut.contains p).trans hp) hnext' (fun h' => hph (hcut.below h'))
      fun h' => hf.not_below hpar (hcut.below h')
    rw [lastInChain_detach_link hpn hnh hb hbn]
    refine hjoined.of_get? (get?_link_congr hlast (fun x hx => ?_) ?_ _)
    · rw [get?_detach_link hpn hnh hb hbn, if_neg hx]
    · rw [get?_detach_link hpn hnh hb hbn, if_pos rfl, Option.map_map]
      rfl

/-- **Putting a block into an input.** What the input held becomes the top of a script. -/
theorem Forest.attach_input (hf : g.Forest) (hlive : g.contains h = true)
    (hn : g.parent? h = none) (hp : g.contains p = true) (hph : ¬g.Below p h) (name : String)
    (branch : Bool) : (g.attach h (.input p name branch)).Forest := by
  obtain ⟨b, hb⟩ := contains_iff.1 hp
  have hinput : (if branch then Input.branch h else Input.reporter h).block? = some h := by
    cases branch <;> rfl
  unfold Graph.attach
  simp only [hb, Option.bind_some]
  cases hheld : (b.inputs.get? name).bind Input.block? with
  | none => exact hf.join hlive hn hph (hf.join_input hlive hn hb hph hheld hinput)
  | some old =>
    obtain ⟨input, hget, hold⟩ := Option.bind_eq_some_iff.1 hheld
    have hmem : old ∈ b.inputBlocks := by
      rw [Table.get?_eq_some_iff] at hget
      exact List.mem_filterMap.2 ⟨input, List.mem_map.2 ⟨_, hget, rfl⟩, hold⟩
    have hchild : old ∈ g.children p :=
      children_of_get? hb ▸ List.mem_append_right _ hmem
    have hpar : g.parent? old = some p := hf.parent_iff.2 hchild
    have hpo : p ≠ old := hf.parent_ne hpar
    have holdh : old ≠ h := by
      rintro rfl
      rw [hn] at hpar
      cases hpar
    rw [Option.filter_some, if_pos (by simpa using holdh)]
    -- what was in the input is cut off and promoted
    have hcut : Cut g old ((g.detach p old).modify old fun b => { b with topLevel := true }) :=
      (hf.cut_detach hpar).modify (fun _ => rfl) fun _ => rfl
    have hb' : ((g.detach p old).modify old fun b => { b with topLevel := true }).get? p =
        some (unlinkChild old b) := by
      rw [get?_modify, if_neg hpo, get?_detach, if_neg hpo, if_pos rfl, hb]
      rfl
    -- it is no successor, so it was cut out of the inputs
    have hnext : b.next ≠ some old := by
      intro hnext
      have hnodup := children_of_get? hb ▸ hf.nodup p
      rw [Block.children, hnext] at hnodup
      exact (List.nodup_cons.1 hnodup).1 hmem
    have hheld' : ((unlinkChild old b).inputs.get? name).bind Input.block? = none := by
      rw [unlinkChild, if_neg hnext, Table.get?_filter, hget]
      simp [hold]
    have hf' := hf.cut hcut
    have hlive' := (hcut.contains h).trans hlive
    have hn' := (hcut.parent h).trans ((if_neg holdh.symm).trans hn)
    have hph' : ¬Below _ p h := fun hb => hph (hcut.below hb)
    exact hf'.join hlive' hn' hph' (hf'.join_input hlive' hn' hb' hph' hheld' hinput)

/-! ### Moves -/

theorem Forest.attach (hf : g.Forest) (hc : g.Consistent) (hlive : g.contains h = true)
    (hn : g.parent? h = none) {place : Destination}
    (hplace : ∀ p, place.parent? = some p → g.contains p = true ∧ ¬g.Below p h) :
    (g.attach h place).Forest := by
  cases place with
  | topLevel x y => exact hf.cut ((hf.cut_self hn).modify (fun _ => rfl) fun _ => rfl)
  | after p => exact hf.attach_after hc hlive hn (hplace p rfl).1 (hplace p rfl).2
  | input p name branch =>
    exact hf.attach_input hlive hn (hplace p rfl).1 (hplace p rfl).2 name branch

theorem Forest.move (hf : g.Forest) (hc : g.Consistent) (h : Handle) (place : Destination) :
    (g.move h place).1.Forest := by
  unfold Graph.move
  split
  · exact hf
  · rename_i b hb
    split
    · exact hf
    · rename_i hrefuses
      have hcut := hf.cut_cutOff h
      have hc' := hc.cutOff h
      refine (hf.cut hcut).attach hc' ((hcut.contains h).trans (contains_of_get? hb))
        ((hcut.parent h).trans (if_pos rfl)) fun p hp => ?_
      rw [refuses, hp] at hrefuses
      simp only [Bool.or_eq_true, Bool.not_eq_true', not_or, Bool.not_eq_false] at hrefuses
      -- the check walks all the way up, so the new parent is not below the block
      exact ⟨(hcut.contains p).trans hrefuses.1, fun hb =>
        hrefuses.2 (isAncestorOrSelf_of_below hc (hcut.below hb))⟩

/-! ### Edits that are refused -/

theorem delete_of_refused (hr : (g.delete h).2 = false) : (g.delete h).1 = g := by
  unfold Graph.delete at hr ⊢
  cases hb : g.get? h with
  | none => rfl
  | some b => rw [hb] at hr; cases hr

theorem move_of_refused {place : Destination} (hr : (g.move h place).2 = false) :
    (g.move h place).1 = g := by
  unfold Graph.move at hr ⊢
  cases hb : g.get? h with
  | none => rfl
  | some b =>
    rw [hb] at hr
    cases hrefuses : g.refuses h place with
    | true => rfl
    | false => rw [hrefuses] at hr; cases hr

/-! ### Histories -/

theorem forest_empty : empty.Forest := by
  have hget : ∀ x, empty.get? x = none := fun x => get?_of_no_slot rfl
  refine ⟨?_, ?_, ?_, ?_, ?_⟩
  · intro p c hc
    obtain ⟨b, hb, -⟩ := exists_of_mem_children hc
    rw [hget] at hb
    cases hb
  · intro p
    simp only [children, hget, List.nodup_nil]
  · intro p c
    simp [parent?, children, hget]
  · intro x b hb
    rw [hget] at hb
    cases hb
  · intro x
    refine .intro fun p hp => ?_
    rw [parent?, hget] at hp
    cases hp

/-- **Every history of creations, deletions and moves leads to a well-formed program.** -/
theorem wellFormed_run {ops : List Operation} (hops : ∀ op ∈ ops, op.KeepsLinks) :
    (empty.run ops).WellFormed := by
  refine wellFormed_iff_forest.2 (run_induction (P := fun g => g.Consistent ∧ g.Forest) ?_ hops
    ⟨consistent_empty, forest_empty⟩).2
  intro g op hop hg
  refine ⟨hg.1.apply op, ?_⟩
  cases op with
  | reserve key => exact hg.2.of_get? (hg.1.get?_reserve key)
  | create b => exact hg.2.create hg.1 hop.next hop.parent hop.inputs
  | delete h => exact hg.2.delete h
  | move h place => exact hg.2.move hg.1 h place
  | edit h f => exact hop.elim

/-- **Edits keep a program a forest.** Deleting any block, moving any block to any place and
creating a block without links leave a well-formed program well-formed, and a deletion or move that
is refused leaves it as it was. That the arena is consistent is no restriction: every history makes
it so (`Graph.consistent_run`). -/
theorem wellFormed_edit (hc : g.Consistent) (hw : g.WellFormed) :
    (∀ h, (g.delete h).1.WellFormed) ∧
      (∀ h place, (g.move h place).1.WellFormed) ∧
      (∀ b : Block, b.Unlinked → (g.create b).1.WellFormed) ∧
      (∀ h, (g.delete h).2 = false → (g.delete h).1 = g) ∧
      ∀ h place, (g.move h place).2 = false → (g.move h place).1 = g := by
  have hf := wellFormed_iff_forest.1 hw
  refine ⟨?_, ?_, ?_, fun h => delete_of_refused, fun h place => move_of_refused⟩
  · intro h
    exact wellFormed_iff_forest.2 (hf.delete h)
  · intro h place
    exact wellFormed_iff_forest.2 (hf.move hc h place)
  · intro b hb
    exact wellFormed_iff_forest.2 (hf.create hc hb.next hb.parent hb.inputs)

/-- A script of three blocks. -/
def stack : List Operation :=
  [.create (.detached "hat" (.event .whenFlagClicked)),
    .create (.detached "first" (.control .wait)), .create (.detached "second" (.control .wait)),
    .move ⟨1, 0⟩ (.after ⟨0, 0⟩), .move ⟨2, 0⟩ (.after ⟨1, 0⟩)]

/-- Deleting the middle block leaves a forest; moving it behind the last one is refused. -/
theorem wellFormed_edit_stack :
    (empty.run stack).Consistent ∧ (empty.run stack).WellFormed ∧
      ((empty.run stack).delete ⟨1, 0⟩).1.WellFormed ∧
      ((empty.run stack).move ⟨1, 0⟩ (.after ⟨2, 0⟩)).2 = false ∧
      ((empty.run stack).move ⟨1, 0⟩ (.after ⟨2, 0⟩)).1 = empty.run stack := by
  have hops : ∀ op ∈ stack, op.KeepsLinks := by
    intro op hop
    simp only [stack, List.mem_cons, List.not_mem_nil, or_false] at hop
    rcases hop with rfl | rfl | rfl | rfl | rfl
    · exact ⟨rfl, rfl, rfl⟩
    · exact ⟨rfl, rfl, rfl⟩
    · exact ⟨rfl, rfl, rfl⟩
    · trivial
    · trivial
  have hc := consistent_run stack
  have hw := wellFormed_run hops
  have hrefused : ((empty.run stack).move ⟨1, 0⟩ (.after ⟨2, 0⟩)).2 = false := rfl
  have h := wellFormed_edit hc hw
  exact ⟨hc, hw, h.1 _, hrefused, h.2.2.2.2 _ _ hrefused⟩

end Graph

end Stagecraft
