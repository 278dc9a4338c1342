import Stagecraft.Proofs.Graph.Preservation
import Mathlib.Data.Set.Finite.List
import Mathlib.Order.WellFounded

/-!
# Programs with parents that do not fit

The blocks of a program that was loaded name their parents, and nobody has checked that. A block
may name a parent that does not refer to it. Such a program is no forest, but it is one once these
parents are left out, and that makes no difference to what a move does to successors and inputs:
they are only looked at to refuse moves, of which more are refused with them.

A block may also name another parent than the one that refers to it, or none. Then it is not cut off
that one when it is moved, and neither is a block that is both the successor and in an input. Such a
block is loose, and nothing keeps the one that refers to it from being moved below it.

* `Graph.Mends` : the same program, but for parents that are left out;
* `Graph.Mendable.move` : a program that is a forest without them stays one when a block is moved,
  and such a program has no cycle (`Graph.Mendable.acyclic`);
* `Graph.Mendable.move_refused` : **it refuses to move blocks below themselves**;
* `Graph.mendable_of_acyclic` : which programs these are;
* `Graph.cycle_of_loose` : **two moves close a cycle where a block is loose**.
-/

namespace Stagecraft

/-- The same links, but the parent may be left out. -/
structure Block.Mends (b b' : Block) : Prop where
  next : b'.next = b.next
  inputs : b'.inputs = b.inputs
  parent : b'.parent = b.parent ∨ b'.parent = none

namespace Block.Mends

variable {b b' : Block}

theorem children (h : b.Mends b') : b'.children = b.children := by
  rw [Block.children, Block.children, inputBlocks, inputBlocks, h.next, h.inputs]

theorem unlinkChild (h : b.Mends b') (c : Handle) :
    (Graph.unlinkChild c b).Mends (Graph.unlinkChild c b') := by
  unfold Graph.unlinkChild
  rw [h.next]
  split
  · exact ⟨rfl, h.inputs, h.parent⟩
  · exact ⟨rfl, by rw [h.inputs], h.parent⟩

end Block.Mends

/-- Unlinking what a block does not refer to changes nothing. -/
theorem Block.unlinkChild_of_notMem {b : Block} {c : Handle} (hc : c ∉ b.children) :
    Graph.unlinkChild c b = b := by
  rw [Block.children, List.mem_append, not_or, Option.mem_toList] at hc
  have hinputs : (b.inputs.filter fun _ input => input.block? ≠ some c) = b.inputs := by
    refine Table.eq_of_entries (List.filter_eq_self.2 fun e he => ?_)
    have hne : e.2.block? ≠ some c := fun hb =>
      hc.2 (List.mem_filterMap.2 ⟨e.2, List.mem_map.2 ⟨e, he, rfl⟩, hb⟩)
    simpa using hne
  rw [Graph.unlinkChild, if_neg hc.1, hinputs]

/-- Unlinking a child leaves the others. -/
theorem Block.mem_children_unlinkChild {b : Block} {c d : Handle} (hne : d ≠ c)
    (hd : d ∈ b.children) : d ∈ (Graph.unlinkChild c b).children := by
  rw [Block.children, List.mem_append, Option.mem_toList] at hd
  unfold Graph.unlinkChild
  split
  · rename_i hnext
    rw [hnext] at hd
    exact List.mem_append_right _ (hd.resolve_left fun he => hne (Option.some.inj he).symm)
  · refine List.mem_append.2 (hd.imp Option.mem_toList.2 fun hd => ?_)
    rw [inputBlocks, inputBlocks_filter]
    exact List.mem_filter.2 ⟨hd, by simpa using hne⟩

/-- An operation that moves a block. -/
def Operation.IsMove (op : Operation) : Prop := ∃ h place, op = .move h place

namespace Graph

variable {g g' : Graph} {h p c x : Handle} {f f' : Block → Block}

/-- No block is reached from itself along successors and inputs. -/
def Acyclic (g : Graph) : Prop := ∀ h, ¬Relation.TransGen (fun x c => c ∈ g.children x) h h

/-- In a forest the blocks that are reached from a block are those below it. -/
theorem Forest.acyclic (hf : g.Forest) : g.Acyclic := by
  intro h hcycle
  obtain ⟨p, hp, hc⟩ := Relation.TransGen.tail'_iff.1 hcycle
  exact hf.not_below (hf.parent_iff.2 hc) (hf.reaches_iff.1 hp)

/-- The same program, but some parents may be left out. -/
structure Mends (g g' : Graph) : Prop where
  size : g'.size = g.size
  blocks : ∀ x, (g.get? x = none ∧ g'.get? x = none) ∨
    ∃ b b', g.get? x = some b ∧ g'.get? x = some b' ∧ b.Mends b'

namespace Mends

/-! ### What is the same -/

theorem contains (hm : Mends g g') (x : Handle) : g'.contains x = g.contains x := by
  unfold Graph.contains
  rcases hm.blocks x with ⟨hx, hx'⟩ | ⟨b, b', hx, hx', -⟩
  · rw [hx, hx']
  · rw [hx, hx', Option.isSome_some, Option.isSome_some]

theorem children (hm : Mends g g') (x : Handle) : g'.children x = g.children x := by
  rcases hm.blocks x with ⟨hx, hx'⟩ | ⟨b, b', hx, hx', hb⟩
  · rw [Graph.children, Graph.children, hx, hx']
  · rw [children_of_get? hx, children_of_get? hx', hb.children]

theorem next? (hm : Mends g g') (x : Handle) : g'.next? x = g.next? x := by
  rcases hm.blocks x with ⟨hx, hx'⟩ | ⟨b, b', hx, hx', hb⟩
  · rw [Graph.next?, Graph.next?, hx, hx']
  · rw [next?_of_get? hx, next?_of_get? hx', hb.next]

theorem parent? (hm : Mends g g') (x : Handle) :
    g'.parent? x = g.parent? x ∨ g'.parent? x = none := by
  rcases hm.blocks x with ⟨hx, hx'⟩ | ⟨b, b', hx, hx', hb⟩
  · exact .inl (by rw [Graph.parent?, Graph.parent?, hx, hx'])
  · rw [parent?_of_get? hx, parent?_of_get? hx']
    exact hb.parent

theorem acyclic (hm : Mends g g') (ha : g'.Acyclic) : g.Acyclic := by
  intro h hcycle
  refine ha h (Relation.TransGen.mono (fun x c hc => ?_) _ _ hcycle)
  rwa [hm.children]

theorem lastInChain (hm : Mends g g') (x : Handle) : g'.lastInChain x = g.lastInChain x := by
  rw [Graph.lastInChain, Graph.lastInChain, hm.size]
  exact lastFrom_congr hm.next? _ x

/-- What is found on a chain of parents is found when there are more of them. -/
theorem onParentChain (hm : Mends g g') (a : Handle) (fuel : Nat) :
    ∀ x, g'.onParentChain a fuel x = true → g.onParentChain a fuel x = true := by
  induction fuel with
  | zero => exact fun _ hx => hx
  | succ fuel ih =>
    intro x hx
    cases x with
    | none => exact hx
    | some x =>
      rw [Graph.onParentChain] at hx ⊢
      split at hx
      · rename_i he
        rw [if_pos he]
      · rename_i hne
        rw [if_neg hne]
        rcases hm.parent? x with hp | hp
        · exact ih _ (hp ▸ hx)
        · rw [hp] at hx
          cases fuel <;> cases hx

/-- More moves are refused. -/
theorem refuses (hm : Mends g g') {place : Destination} (hr : g'.refuses h place = true) :
    g.refuses h place = true := by
  unfold Graph.refuses at hr ⊢
  split
  · rename_i p hp
    rw [hp] at hr
    simp only [hm.contains, Bool.or_eq_true] at hr ⊢
    refine hr.imp_right fun ha => ?_
    rw [isAncestorOrSelf, hm.size] at ha
    exact hm.onParentChain h _ _ ha
  · rename_i hp
    rw [hp] at hr
    cases hr

/-! ### Edits -/

theorem modify (hm : Mends g g') (x : Handle) (hf : ∀ b b', b.Mends b' → (f b).Mends (f' b')) :
    Mends (g.modify x f) (g'.modify x f') := by
  refine ⟨by rw [size_modify, size_modify, hm.size], fun y => ?_⟩
  rw [get?_modify, get?_modify]
  split
  · rcases hm.blocks y with ⟨hy, hy'⟩ | ⟨b, b', hy, hy', hb⟩
    · exact .inl ⟨by rw [hy]; rfl, by rw [hy']; rfl⟩
    · exact .inr ⟨f b, f' b', by rw [hy]; rfl, by rw [hy']; rfl, hf b b' hb⟩
  · exact hm.blocks y

theorem detach (hm : Mends g g') (p c : Handle) : Mends (g.detach p c) (g'.detach p c) :=
  (hm.modify p fun _ _ hb => hb.unlinkChild c).modify c fun _ _ hb =>
    ⟨hb.next, hb.inputs, .inl rfl⟩

theorem link (hm : Mends g g') (p c : Handle) (hf : ∀ b b', b.Mends b' → (f b).Mends (f b')) :
    Mends (g.link p c f) (g'.link p c f) :=
  (hm.modify p hf).modify c fun _ _ hb => ⟨hb.next, hb.inputs, .inl rfl⟩

theorem attach (hm : Mends g g') (h : Handle) (place : Destination) :
    Mends (g.attach h place) (g'.attach h place) := by
  cases place with
  | topLevel x y => exact hm.modify h fun _ _ hb => ⟨hb.next, hb.inputs, hb.parent⟩
  | after p =>
    have hl := hm.link p h (f := fun b => { b with next := some h }) fun _ _ hb =>
      ⟨rfl, hb.inputs, hb.parent⟩
    have hnext : (g'.get? p).bind (·.next) = (g.get? p).bind (·.next) := hm.next? p
    unfold Graph.attach
    simp only [hnext]
    split
    · rw [hl.lastInChain]
      exact hl.link _ _ fun _ _ hb => ⟨rfl, hb.inputs, hb.parent⟩
    · exact hl
  | input p name branch =>
    have hheld : ((g'.get? p).bind fun b => b.inputs.get? name) =
        (g.get? p).bind fun b => b.inputs.get? name := by
      rcases hm.blocks p with ⟨hx, hx'⟩ | ⟨b, b', hx, hx', hb⟩
      · rw [hx, hx']
      · rw [hx, hx', Option.bind_some, Option.bind_some, hb.inputs]
    unfold Graph.attach
    simp only [hheld]
    refine link ?_ p h fun _ _ hb => ⟨hb.next, by rw [hb.inputs], hb.parent⟩
    cases (((g.get? p).bind fun b => b.inputs.get? name).bind Input.block?).filter (· ≠ h) with
    | none => exact hm
    | some old => exact (hm.detach p old).modify old fun _ _ hb => ⟨hb.next, hb.inputs, hb.parent⟩

/-- A block whose parent does not refer to it is cut off already. -/
theorem detach_stray (hm : Mends g g') (hp : c ∉ g.children p) (hc : g'.parent? c = none) :
    Mends (g.detach p c) g' := by
  refine ⟨by simp only [Graph.detach, size_modify, hm.size], fun x => ?_⟩
  rw [get?_detach]
  rcases hm.blocks x with ⟨hx, hx'⟩ | ⟨b, b', hx, hx', hb⟩
  · exact .inl ⟨by simp [hx], hx'⟩
  · -- the parent does not refer to the block, so it stays as it is
    have hsame : (if x = p then (g.get? x).map (unlinkChild c) else g.get? x) = some b := by
      split
      · rename_i he
        rw [← he, children_of_get? hx] at hp
        rw [hx, Option.map_some, Block.unlinkChild_of_notMem hp]
      · exact hx
    rw [hsame]
    refine .inr ?_
    split
    · rename_i he
      rw [← he, parent?_of_get? hx'] at hc
      exact ⟨_, b', rfl, hx', hb.next, hb.inputs, .inr hc⟩
    · exact ⟨b, b', rfl, hx', hb⟩

theorem cutOff (hm : Mends g g') (hf : g'.Forest) (h : Handle) :
    Mends (g.cutOff h) (g'.cutOff h) := by
  unfold Graph.cutOff
  cases hp' : g'.parent? h with
  | some p =>
    rcases hm.parent? h with hp | hp
    · rw [← hp, hp']
      exact hm.detach p h
    · rw [hp] at hp'
      cases hp'
  | none =>
    cases hp : g.parent? h with
    | none => exact hm
    | some q =>
      refine hm.detach_stray (fun hmem => ?_) hp'
      rw [← hm.children, ← hf.parent_iff, hp'] at hmem
      cases hmem

end Mends

/-! ### Moves -/

/-- A program is a forest once some parents are left out. -/
def Mendable (g : Graph) : Prop := ∃ g', Mends g g' ∧ g'.Forest ∧ g'.Consistent

/-- **A move keeps to a program that can be mended.** If it is not refused there, then neither is it
where parents are left out. -/
theorem Mendable.move (hm : g.Mendable) (h : Handle) (place : Destination) :
    (g.move h place).1.Mendable := by
  obtain ⟨g', hmends, hf, hc⟩ := hm
  cases hb : g.get? h with
  | none =>
    rw [Graph.move, hb]
    exact ⟨g', hmends, hf, hc⟩
  | some b =>
    cases hr : g.refuses h place with
    | true =>
      rw [Graph.move, hb]
      simp only [hr, if_true]
      exact ⟨g', hmends, hf, hc⟩
    | false =>
      have hr' : g'.refuses h place = false := by
        rw [← Bool.not_eq_true]
        intro hr'
        rw [hmends.refuses hr'] at hr
        cases hr
      have hlive : g'.contains h = true := (hmends.contains h).trans (contains_of_get? hb)
      obtain ⟨b', hb'⟩ := contains_iff.1 hlive
      refine ⟨(g'.move h place).1, ?_, hf.move hc h place, hc.apply (.move h place)⟩
      rw [Graph.move, Graph.move, hb, hb']
      simp only [hr, hr', Bool.false_eq_true, if_false]
      exact (hmends.cutOff hf h).attach h place

theorem Mendable.run (hm : g.Mendable) {ops : List Operation} (hops : ∀ op ∈ ops, op.IsMove) :
    (g.run ops).Mendable := by
  refine run_induction (P := Mendable) ?_ hops hm
  rintro g' _ ⟨h, place, rfl⟩ hg'
  exact hg'.move h place

theorem Mendable.acyclic (hm : g.Mendable) : g.Acyclic := by
  obtain ⟨g', hmends, hf, -⟩ := hm
  exact hmends.acyclic hf.acyclic

/-- No block of a program that can be mended is moved to one that is reached from it. -/
theorem Mendable.move_refused (hm : g.Mendable) {place : Destination}
    (hplace : place.parent? = some p) (hp : g.Reaches h p) : (g.move h place).2 = false := by
  obtain ⟨g', hmends, hf, hc⟩ := hm
  have hbelow : g'.Below p h := by
    rw [← hf.reaches_iff, Reaches]
    simp only [hmends.children]
    exact hp
  have hrefuses : g.refuses h place = true := by
    refine hmends.refuses ?_
    simp only [Graph.refuses, hplace, Bool.or_eq_true, Bool.not_eq_true']
    exact .inr (isAncestorOrSelf_of_below hc hbelow)
  unfold Graph.move
  split
  · rfl
  · rw [if_pos hrefuses]

/-! ### Mending -/

/-- A block without its parent, if that does not refer to it. -/
def mendBlock (g : Graph) (b : Block) : Block :=
  { b with
    parent := b.parent.filter fun p => b.handle ∈ g.children p
    topLevel := false }

/-- The program without the parents that do not refer to their blocks. -/
def mended (g : Graph) : Graph :=
  { g with slots := g.slots.map fun s => { s with block := s.block.map g.mendBlock } }

theorem get?_mended (g : Graph) (x : Handle) : g.mended.get? x = (g.get? x).map g.mendBlock := by
  unfold get? slot? mended
  rw [Array.getElem?_map]
  cases g.slots[x.index]? with
  | none => rfl
  | some s =>
    simp only [Option.map_some]
    split <;> rfl

theorem mends_mended (g : Graph) : Mends g g.mended := by
  refine ⟨rfl, fun x => ?_⟩
  rw [get?_mended]
  cases g.get? x with
  | none => exact .inl ⟨rfl, rfl⟩
  | some b =>
    refine .inr ⟨b, g.mendBlock b, rfl, rfl, rfl, rfl, ?_⟩
    cases hp : b.parent with
    | none => exact .inl (by rw [mendBlock, hp]; rfl)
    | some p =>
      rw [mendBlock, hp, Option.filter_some]
      split
      · exact .inl rfl
      · exact .inr rfl

theorem Consistent.mended (hc : g.Consistent) : g.mended.Consistent := by
  refine hc.of_outline ?_ rfl rfl rfl
  rw [Graph.mended, Array.map_map]
  congr 1
  funext s
  simp [Slot.outline]

/-- Where parents refer to their blocks and no block is reached from itself, chains of parents
end. -/
theorem rooted_of_acyclic (ha : g.Acyclic)
    (hpar : ∀ x p, g.parent? x = some p → x ∈ g.children p) (x : Handle) : g.Rooted x := by
  have hfinite : Finite {y // y ∈ g.handles} := (List.finite_toSet g.handles).to_subtype
  let above : {y // y ∈ g.handles} → {y // y ∈ g.handles} → Prop := fun p y =>
    Relation.TransGen (fun x c => c ∈ g.children x) p.1 y.1
  have : IsTrans _ above := ⟨fun _ _ _ h h' => h.trans h'⟩
  have : Std.Irrefl above := ⟨fun y => ha y.1⟩
  have hlive : ∀ y p, g.parent? y = some p → p ∈ g.handles := fun y p hp => by
    obtain ⟨b, hb, -⟩ := exists_of_mem_children (hpar y p hp)
    exact mem_handles hb
  -- there are finitely many blocks to go up to
  have hall : ∀ y : {y // y ∈ g.handles}, g.Rooted y.1 := by
    intro y
    induction y using (Finite.wellFounded_of_trans_of_irrefl above).induction with
    | h y ih => exact Rooted.intro fun p hp => ih ⟨p, hlive y.1 p hp⟩ (.single (hpar y.1 p hp))
  exact Rooted.intro fun p hp => hall ⟨p, hlive x p hp⟩

/-- **A program can be mended** if its links lead to live blocks, each block is referred to in one
place, blocks name those that refer to them as their parents, and no block is reached from itself.
-/
theorem mendable_of_acyclic (hc : g.Consistent) (hl : g.Labelled)
    (hlive : ∀ p, ∀ c ∈ g.children p, g.contains c = true) (hnodup : ∀ p, (g.children p).Nodup)
    (hpar : ∀ p, ∀ c ∈ g.children p, g.parent? c = some p) (ha : g.Acyclic) : g.Mendable := by
  have hm := g.mends_mended
  have hiff : ∀ c p, g.mended.parent? c = some p ↔ c ∈ g.children p := by
    intro c p
    rw [Graph.parent?, get?_mended]
    cases hb : g.get? c with
    | none =>
      constructor
      · intro hp
        cases hp
      · intro hmem
        have hlive' := hlive p c hmem
        rw [Graph.contains, hb] at hlive'
        cases hlive'
    | some b =>
      obtain ⟨s, hs, hg, hsb⟩ := get?_eq_some_iff.1 hb
      have hhandle : b.handle = c := by rw [hl.handle_eq _ s b hs hsb, hg]
      have hparent : g.parent? c = b.parent := parent?_of_get? hb
      rw [Option.map_some, Option.bind_some, mendBlock, Option.filter_eq_some_iff, hhandle,
        decide_eq_true_iff, ← hparent]
      exact ⟨And.right, fun hmem => ⟨hpar p c hmem, hmem⟩⟩
  refine ⟨g.mended, hm, ⟨?_, ?_, ?_, ?_, ?_⟩, hc.mended⟩
  · intro p c hmem
    rw [hm.contains]
    exact hlive p c (hm.children p ▸ hmem)
  · intro p
    rw [hm.children]
    exact hnodup p
  · intro p c
    rw [hm.children]
    exact hiff c p
  · intro x b hb htop
    rw [get?_mended] at hb
    obtain ⟨_, -, rfl⟩ := Option.map_eq_some_iff.1 hb
    cases htop
  · have ha' : g.mended.Acyclic := fun y hcycle => ha y
      (Relation.TransGen.mono (fun x c hmem => hm.children x ▸ hmem) _ _ hcycle)
    exact rooted_of_acyclic ha' fun y p hp => (hm.children p).symm ▸ (hiff y p).1 hp

/-! ### Loose children -/

theorem mem_children_modify (hf : ∀ b : Block, c ∈ b.children → c ∈ (f b).children)
    (hc : c ∈ g.children p) : c ∈ (g.modify x f).children p := by
  obtain ⟨b, hb, hmem⟩ := exists_of_mem_children hc
  by_cases he : p = x
  · rw [children_of_get? (b := f b) (by rw [get?_modify, if_pos he, hb]; rfl)]
    exact hf b hmem
  · rw [children_of_get? (b := b) (by rw [get?_modify, if_neg he, hb])]
    exact hmem

/-- A block that is cut off leaves the other children where they are. -/
theorem mem_children_detach (hx : c ≠ x) (hc : c ∈ g.children p) (q : Handle) :
    c ∈ (g.detach q x).children p :=
  mem_children_modify (fun _ hmem => hmem)
    (mem_children_modify (fun _ => Block.mem_children_unlinkChild hx) hc)

theorem mem_children_cutOff (hx : c ≠ x) (hc : c ∈ g.children p) :
    c ∈ (g.cutOff x).children p := by
  unfold cutOff
  split
  · exact mem_children_detach hx hc _
  · exact hc

theorem contains_cutOff (g : Graph) (h x : Handle) : (g.cutOff h).contains x = g.contains x := by
  unfold cutOff
  split
  · rw [detach, contains_modify, contains_modify]
  · rfl

theorem parent?_cutOff (g : Graph) (h : Handle) : (g.cutOff h).parent? h = none := by
  unfold cutOff
  split
  · rename_i p _
    rw [Graph.parent?, detach, get?_modify, if_pos rfl]
    cases (g.modify p (unlinkChild h)).get? h <;> rfl
  · assumption

/-- A block that names another parent, or none, is not cut off the one that refers to it. -/
theorem loose_of_parent?_ne (hc : c ∈ g.children p) (hpc : p ≠ c) (hp : g.parent? c ≠ some p) :
    c ∈ (g.cutOff c).children p := by
  unfold cutOff
  split
  · rename_i q hq
    have hqp : p ≠ q := fun he => hp (he ▸ hq)
    obtain ⟨b, hb, hmem⟩ := exists_of_mem_children hc
    rw [children_of_get? (b := b) (by rw [get?_detach, if_neg hpc, if_neg hqp, hb])]
    exact hmem
  · exact hc

/-- Nor is one that is both the successor and in an input. -/
theorem loose_of_doubled {b : Block} (hb : g.get? p = some b) (hpc : p ≠ c)
    (hnext : b.next = some c) (hin : c ∈ b.inputBlocks) : c ∈ (g.cutOff c).children p := by
  unfold cutOff
  split
  · rename_i q hq
    by_cases hqp : p = q
    · -- only the successor is unlinked
      rw [children_of_get? (b := { b with next := none })
        (by rw [get?_detach, if_neg hpc, if_pos hqp, hb, Option.map_some, unlinkChild,
          if_pos hnext])]
      exact List.mem_append_right _ hin
    · rw [children_of_get? (b := b) (by rw [get?_detach, if_neg hpc, if_neg hqp, hb])]
      exact List.mem_append_right _ hin
  · rw [children_of_get? hb]
    exact List.mem_append_right _ hin

/-- **A loose child is moved to the top of a script** and then has no parent, while the block that
refers to it still does. -/
theorem loose_after_move (hlive : g.contains c = true) (hloose : c ∈ (g.cutOff c).children p)
    (x y : Float) :
    (g.move c (.topLevel x y)).1.contains c = true ∧
      (g.move c (.topLevel x y)).1.parent? c = none ∧
      c ∈ (g.move c (.topLevel x y)).1.children p := by
  obtain ⟨b, hb⟩ := contains_iff.1 hlive
  have hmove : (g.move c (.topLevel x y)).1 =
      (g.cutOff c).modify c fun b => { b with topLevel := true, x := x, y := y } := by
    rw [Graph.move, hb]
    rfl
  rw [hmove]
  refine ⟨by rw [contains_modify, contains_cutOff, hlive], ?_,
    mem_children_modify (fun _ hmem => hmem) hloose⟩
  have hnone := g.parent?_cutOff c
  rw [Graph.parent?] at hnone ⊢
  rw [get?_modify, if_pos rfl, Option.bind_map]
  exact hnone

/-- A block that is put into an input of one that it refers to closes a cycle. -/
theorem cycle_of_link (hlive : g.contains c = true) (hc : c ∈ g.children p) (hpc : p ≠ c)
    {name : String} {input : Input} (hi : input.block? = some p) :
    ¬(g.link c p fun b => { b with inputs := b.inputs.insert name input }).Acyclic := by
  intro ha
  obtain ⟨b, hb⟩ := contains_iff.1 hlive
  obtain ⟨a, ha', hmem⟩ := exists_of_mem_children hc
  refine ha p (.tail (.single (b := c) ?_) ?_)
  · rw [children_of_get? (b := { a with parent := some c, topLevel := false })
      (by rw [get?_link, if_pos rfl, if_neg hpc, ha']; rfl)]
    exact hmem
  · rw [children_of_get? (b := { b with inputs := b.inputs.insert name input })
      (by rw [get?_link, if_neg hpc.symm, if_pos rfl, hb]; rfl)]
    refine List.mem_append_right _ (List.mem_filterMap.2 ⟨input, ?_, hi⟩)
    exact List.mem_map.2
      ⟨_, (Table.entries_insert_perm b.inputs name input).mem_iff.2 List.mem_cons_self, rfl⟩

/-- **A block is moved into an input of one that it refers to**, if that has no parent. -/
theorem cycle_after_move (hlive : g.contains c = true) (hc : c ∈ g.children p) (hpc : p ≠ c)
    (hnone : g.parent? c = none) (name : String) (branch : Bool) :
    ¬(g.move p (.input c name branch)).1.Acyclic := by
  obtain ⟨b, hb, -⟩ := exists_of_mem_children hc
  have hrefuses : g.refuses p (.input c name branch) = false := by
    have htop : g.onParentChain p g.size none = false := by cases g.size <;> rfl
    simp [refuses, Destination.parent?, hlive, isAncestorOrSelf, onParentChain, hnone, hpc.symm,
      htop]
  have hmove : (g.move p (.input c name branch)).1 =
      (g.cutOff p).attach p (.input c name branch) := by
    rw [Graph.move, hb]
    simp only [hrefuses, Bool.false_eq_true, if_false]
  have hinput : (if branch then Input.branch p else Input.reporter p).block? = some p := by
    cases branch <;> rfl
  have hlive' : (g.cutOff p).contains c = true := (g.contains_cutOff p c).trans hlive
  have hc' := mem_children_cutOff hpc.symm hc
  rw [hmove]
  unfold Graph.attach
  simp only
  refine cycle_of_link ?_ ?_ hpc hinput
  all_goals
    cases ((((g.cutOff p).get? c).bind fun b => b.inputs.get? name).bind
      Input.block?).filter (· ≠ p)
  · exact hlive'
  · rw [contains_modify, detach, contains_modify, contains_modify, hlive']
  · exact hc'
  · -- what was in the input leaves it, and that is another block
    rename_i old
    obtain ⟨a, ha, hmem⟩ := exists_of_mem_children hc'
    refine mem_children_modify (fun _ hmem => hmem) (mem_children_modify (fun _ hmem => hmem) ?_)
    rw [children_of_get? (b := a) (by rw [get?_modify, if_neg hpc, ha])]
    exact hmem

/-- **Two moves close a cycle** where a block is not cut off one that refers to it. -/
theorem cycle_of_loose (hlive : g.contains c = true) (hpc : p ≠ c)
    (hloose : c ∈ (g.cutOff c).children p) (x y : Float) (name : String) (branch : Bool) :
    ¬(g.run [.move c (.topLevel x y), .move p (.input c name branch)]).Acyclic := by
  obtain ⟨hlive', hnone, hc⟩ := loose_after_move hlive hloose x y
  exact cycle_after_move hlive' hc hpc hnone name branch

end Graph

end Stagecraft
