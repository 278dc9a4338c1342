import Stagecraft.Proofs.Graph.Consistency
import Mathlib.Data.List.Nodup

/-!
# Stale handles stay stale

The generation of a slot counts, in 32 bits, how often the slot was freed. A handle whose block was
deleted is one generation behind, so nothing is seen through it until the count has gone all the way
around.

* `Graph.slot_apply` : what one operation does to a slot;
* `Graph.generation_run` : the generation counts how often the slot was freed, modulo `2 ^ 32`;
* `Graph.stale_of_gone` : a handle whose block is gone stays stale, whatever the slot is used for;
* `Graph.stale_of_run` : **a handle of a deleted block sees nothing ever after**, short of `2 ^ 32`
  freed slots;
* `Graph.nodup_handles` : live blocks have handles of their own.
-/

namespace Stagecraft

namespace Slot

/-- What editing and freeing blocks does to a slot: it looks the same from outside, or it was
freed. -/
def Worn (s s' : Slot) : Prop := s'.outline = s.outline ∨ (s.block ≠ none ∧ s' = s.freed)

/-- What an operation does to a slot: it keeps its generation and its block, if it has one, or it
was freed. -/
def Aged (s s' : Slot) : Prop :=
  (s'.generation = s.generation ∧ (s.block ≠ none → s'.block ≠ none)) ∨
    (s.block ≠ none ∧ s' = s.freed)

theorem Worn.aged {s s' : Slot} (hw : s.Worn s') : s.Aged s' := by
  rcases hw with ho | hf
  · exact Or.inl ⟨generation_of_outline ho, fun hb hb' => hb ((block_eq_none_of_outline ho).1 hb')⟩
  · exact Or.inr hf

end Slot

namespace Graph

variable {g g' : Graph} {h : Handle} {b : Block} {i : Nat} {s : Slot}

/-- Whether a slot holds a block. -/
def holds (g : Graph) (i : Nat) : Bool := (g.slots[i]?.bind (·.block)).isSome

/-- How often a slot is freed in the course of a history: the number of operations before which it
holds a block and after which it does not. -/
def frees (i : Nat) : Graph → List Operation → Nat
  | _, [] => 0
  | g, op :: rest =>
    (if g.holds i && !(g.apply op).holds i then 1 else 0) + frees i (g.apply op) rest

theorem holds_of_slot (hs : g.slots[i]? = some s) : g.holds i = s.block.isSome := by
  unfold holds
  rw [hs]
  rfl

/-! ### One operation and one slot -/

theorem worn_modify (h : Handle) (f : Block → Block)
    (hw : ∃ s', g.slots[i]? = some s' ∧ s.Worn s') :
    ∃ s', (g.modify h f).slots[i]? = some s' ∧ s.Worn s' := by
  obtain ⟨s', hs', hw⟩ := hw
  rw [getElem?_modify, hs', Option.map_some]
  refine ⟨_, rfl, ?_⟩
  rcases hw with ho | ⟨hb, rfl⟩
  · left
    rw [← ho]
    split <;> simp [Slot.outline]
  · right
    refine ⟨hb, ?_⟩
    split <;> rfl

theorem worn_vacate (hv : g.vacate h = some (g', b))
    (hw : ∃ s', g.slots[i]? = some s' ∧ s.Worn s') :
    ∃ s', g'.slots[i]? = some s' ∧ s.Worn s' := by
  obtain ⟨s', hs', hw⟩ := hw
  rw [getElem?_vacate hv, hs']
  split
  · rename_i hi
    subst hi
    -- the slot still holds a block, so it was not freed before
    obtain ⟨t, ht, -, hb, -⟩ := vacate_cases hv
    rw [hs'] at ht
    cases ht
    refine ⟨_, rfl, Or.inr ?_⟩
    rcases hw with ho | ⟨-, rfl⟩
    · refine ⟨fun hn => ?_, ?_⟩
      · rw [(Slot.block_eq_none_of_outline ho).2 hn] at hb
        cases hb
      · unfold Slot.freed
        rw [Slot.generation_of_outline ho]
    · cases hb
  · exact ⟨s', rfl, hw⟩

theorem worn_self (hs : g.slots[i]? = some s) : ∃ s', g.slots[i]? = some s' ∧ s.Worn s' :=
  ⟨s, hs, Or.inl rfl⟩

theorem worn_delete (h : Handle) (hs : g.slots[i]? = some s) :
    ∃ s', (g.delete h).1.slots[i]? = some s' ∧ s.Worn s' :=
  delete_induction (P := fun g => ∃ s', g.slots[i]? = some s' ∧ s.Worn s')
    (fun _ _ _ _ hw => worn_modify _ _ hw) (fun _ _ _ _ hv hw => worn_vacate hv hw)
    (fun _ hw => hw) (worn_self hs) h

theorem worn_move (h : Handle) (place : Destination) (hs : g.slots[i]? = some s) :
    ∃ s', (g.move h place).1.slots[i]? = some s' ∧ s.Worn s' :=
  move_induction (P := fun g => ∃ s', g.slots[i]? = some s' ∧ s.Worn s')
    (fun _ _ _ _ hw => worn_modify _ _ hw) (worn_self hs) h place

theorem aged_reserve (hc : g.Consistent) (key : String) (hs : g.slots[i]? = some s) :
    ∃ s', (g.reserve key).1.slots[i]? = some s' ∧ s'.generation = s.generation ∧
      s'.block = s.block := by
  rcases hc.reserve_cases key with ⟨-, he⟩ | ⟨-, ha⟩
  · exact ⟨s, by rw [he, hs], rfl, rfl⟩
  · by_cases hi : i = (g.reserve key).2.index
    · subst hi
      exact ⟨_, ha.slot, by rw [ha.slot_before s hs], by rw [ha.slot_before s hs]⟩
    · exact ⟨s, by rw [ha.slot_other i hi, hs], rfl, rfl⟩

/-- **What one operation does to a slot**: a slot that is freed is freed once. -/
theorem slot_apply (hc : g.Consistent) (op : Operation) (hs : g.slots[i]? = some s) :
    ∃ s', (g.apply op).slots[i]? = some s' ∧ s.Aged s' := by
  cases op with
  | reserve key =>
    obtain ⟨s', hs', hg, hb⟩ := aged_reserve hc key hs
    exact ⟨s', hs', Or.inl ⟨hg, fun h => hb ▸ h⟩⟩
  | create b =>
    simp only [apply, hc.create_eq]
    split
    · exact ⟨s, hs, Or.inl ⟨rfl, id⟩⟩
    · obtain ⟨s', hs', hg, hb⟩ := aged_reserve hc b.key hs
      rw [Consistent.getElem?_fill, hs']
      split
      · exact ⟨_, rfl, Or.inl ⟨hg, fun _ h => by cases h⟩⟩
      · exact ⟨s', rfl, Or.inl ⟨hg, fun h => hb ▸ h⟩⟩
  | delete h =>
    obtain ⟨s', hs', hw⟩ := worn_delete h hs
    exact ⟨s', hs', hw.aged⟩
  | move h place =>
    obtain ⟨s', hs', hw⟩ := worn_move h place hs
    exact ⟨s', hs', hw.aged⟩
  | edit h f =>
    obtain ⟨s', hs', hw⟩ := worn_modify h f (worn_self hs)
    exact ⟨s', hs', hw.aged⟩

/-! ### Generations count -/

/-- One operation adds to the generation of a slot exactly if it frees the slot. -/
theorem generation_apply (hc : g.Consistent) (op : Operation) (hs : g.slots[i]? = some s) :
    ∃ s', (g.apply op).slots[i]? = some s' ∧
      s'.generation = (s.generation +
        if g.holds i && !(g.apply op).holds i then 1 else 0) % UInt32.size := by
  obtain ⟨s', hs', hw⟩ := slot_apply hc op hs
  refine ⟨s', hs', ?_⟩
  rw [holds_of_slot hs, holds_of_slot hs']
  rcases hw with ⟨hg, hb⟩ | ⟨hb, rfl⟩
  · -- a slot that keeps its block was not freed
    have hn : ¬((s.block.isSome && !s'.block.isSome) = true) := by
      cases hsb : s.block with
      | none => simp
      | some b =>
        obtain ⟨b', hb'⟩ := Option.ne_none_iff_exists'.1 (hb (by simp [hsb]))
        simp [hb']
    rw [if_neg hn, Nat.add_zero, Nat.mod_eq_of_lt (hc.generation_lt i s hs), hg]
  · obtain ⟨b, hb⟩ := Option.ne_none_iff_exists'.1 hb
    rw [hb]
    rfl

/-- **The generation of a slot counts how often it was freed**, in 32 bits. -/
theorem generation_run (ops : List Operation) :
    ∀ {g : Graph} {s : Slot}, g.Consistent → g.slots[i]? = some s →
      ∃ s', (g.run ops).slots[i]? = some s' ∧
        s'.generation = (s.generation + frees i g ops) % UInt32.size := by
  induction ops with
  | nil =>
    intro g s hc hs
    exact ⟨s, hs, (Nat.mod_eq_of_lt (hc.generation_lt i s hs)).symm⟩
  | cons op rest ih =>
    intro g s hc hs
    obtain ⟨s₁, hs₁, hg₁⟩ := generation_apply hc op hs
    obtain ⟨s₂, hs₂, hg₂⟩ := ih (hc.apply op) hs₁
    refine ⟨s₂, hs₂, ?_⟩
    rw [hg₂, hg₁, frees, Nat.mod_add_mod, Nat.add_assoc]

/-- The generation has moved on as long as it has not gone all the way around. -/
theorem add_mod_ne {n k : Nat} (hk : 0 < k) (hk' : k < UInt32.size) :
    (n + k) % UInt32.size ≠ n := by
  unfold UInt32.size at *
  omega

/-! ### Handles of deleted blocks -/

/-- A deletion frees the slot of the block, so the handle is one generation behind. -/
theorem exists_freed (hc : g.Consistent) {op : Operation} (hlive : g.contains h = true)
    (hdead : (g.apply op).contains h = false) :
    ∃ s, (g.apply op).slots[h.index]? = some s ∧
      s.generation = (h.generation + 1) % UInt32.size := by
  obtain ⟨b, hb⟩ := contains_iff.1 hlive
  obtain ⟨s, hs, hg, hsb⟩ := get?_eq_some_iff.1 hb
  obtain ⟨s', hs', ⟨hg', hkeep⟩ | ⟨-, rfl⟩⟩ := slot_apply hc op hs
  · have hlive' : (g.apply op).contains h = true := by
      obtain ⟨b', hb'⟩ := Option.ne_none_iff_exists'.1 (hkeep (by simp [hsb]))
      exact contains_of_get? (get?_eq_some_iff.2 ⟨s', hs', hg'.trans hg, hb'⟩)
    rw [hdead] at hlive'
    cases hlive'
  · exact ⟨_, hs', by rw [← hg]; rfl⟩

/-- A handle whose slot has another generation is stale for every purpose. -/
structure Stale (g : Graph) (h : Handle) : Prop where
  get? : g.get? h = none
  contains : g.contains h = false
  next? : g.next? h = none
  opcode? : g.opcode? h = none
  keyOf? : g.keyOf? h = none
  handleOf? : ∀ key, g.handleOf? key ≠ some h
  /-- No block can be changed through the handle. -/
  modify : ∀ f, g.modify h f = { g with procedures := none }
  delete : g.delete h = (g, false)
  move : ∀ place, g.move h place = (g, false)
  /-- No key and no block gets the handle again. -/
  reserve : ∀ key, (g.reserve key).2 ≠ h
  create : ∀ b, (g.create b).2 ≠ h

theorem stale_of_generation_ne (hc : g.Consistent) (hs : g.slots[h.index]? = some s)
    (hg : s.generation ≠ h.generation) : g.Stale h := by
  have hslot : g.slot? h = none := by
    unfold slot?
    rw [hs]
    exact if_neg hg
  have hget : g.get? h = none := get?_of_generation_ne hs hg
  have hreserve : ∀ key, (g.reserve key).2 ≠ h := by
    intro key hr
    obtain ⟨t, ht, hgt, -⟩ := ((hc.reserve key).handleOf?_iff _ _).1 (hc.handleOf?_reserve key)
    obtain ⟨s', hs', hgs, -⟩ := aged_reserve hc key hs
    rw [hr, hs'] at ht
    cases ht
    rw [hr] at hgt
    exact hg (hgs.symm.trans hgt)
  constructor
  · exact hget
  · rw [Graph.contains, hget]; rfl
  · rw [Graph.next?, hget]; rfl
  · rw [Graph.opcode?, hget]; rfl
  · rw [Graph.keyOf?, hslot]; rfl
  · intro key hk
    obtain ⟨t, ht, hgt, -⟩ := (hc.handleOf?_iff _ _).1 hk
    rw [hs] at ht
    cases ht
    exact hg hgt
  · intro f
    have hslot' : ({ g with procedures := none } : Graph).slot? h = none :=
      (slot?_congr rfl h).trans hslot
    simp only [Graph.modify, hslot']
  · rw [Graph.delete, hget]
  · intro place
    rw [Graph.move, hget]
  · exact hreserve
  · intro b
    rw [hc.create_snd]
    exact hreserve b.key

/-! ### Blocks that are gone -/

/-- No operation frees a slot more than once. -/
theorem frees_le_length (i : Nat) (ops : List Operation) :
    ∀ g : Graph, frees i g ops ≤ ops.length := by
  induction ops with
  | nil => exact fun _ => Nat.le_refl 0
  | cons op rest ih =>
    intro g
    rw [frees, List.length_cons, Nat.add_comm rest.length]
    refine Nat.add_le_add ?_ (ih _)
    split <;> decide

theorem frees_append (i : Nat) (before after : List Operation) :
    ∀ g : Graph, frees i g (before ++ after) = frees i g before + frees i (g.run before) after := by
  induction before with
  | nil => exact fun _ => (Nat.zero_add _).symm
  | cons op rest ih =>
    intro g
    rw [List.cons_append, frees, ih, frees, Nat.add_assoc]
    rfl

/-- A slot whose block is gone was freed. -/
theorem frees_pos (ops : List Operation) :
    ∀ {g : Graph}, g.Consistent → g.contains h = true → (g.run ops).contains h = false →
      0 < frees h.index g ops := by
  induction ops with
  | nil =>
    intro g _ hlive hdead
    exact absurd hlive (Bool.eq_false_iff.1 hdead)
  | cons op rest ih =>
    intro g hc hlive hdead
    rw [frees]
    cases hnext : (g.apply op).contains h with
    | true => exact Nat.add_pos_right _ (ih (hc.apply op) hnext hdead)
    | false =>
      obtain ⟨b, hb⟩ := contains_iff.1 hlive
      obtain ⟨s, hs, hg, hsb⟩ := get?_eq_some_iff.1 hb
      obtain ⟨s', hs', ⟨hg', hkeep⟩ | ⟨-, rfl⟩⟩ := slot_apply hc op hs
      · obtain ⟨b', hb'⟩ := Option.ne_none_iff_exists'.1 (hkeep (by simp [hsb]))
        have hlive' := contains_of_get? (get?_eq_some_iff.2 ⟨s', hs', hg'.trans hg, hb'⟩)
        exact absurd hlive' (Bool.eq_false_iff.1 hnext)
      · have hfreed : (g.holds h.index && !(g.apply op).holds h.index) = true := by
          rw [holds_of_slot hs, holds_of_slot hs', hsb]
          rfl
        rw [if_pos hfreed]
        exact Nat.add_pos_left Nat.one_pos _

/-- **A handle whose block is gone stays stale**, whatever the slot is used for afterwards. -/
theorem stale_of_gone (hc : g.Consistent) {before after : List Operation}
    (hlive : g.contains h = true) (hdead : (g.run before).contains h = false)
    (hfew : frees h.index g (before ++ after) < UInt32.size) :
    (g.run (before ++ after)).Stale h := by
  obtain ⟨b, hb⟩ := contains_iff.1 hlive
  obtain ⟨s, hs, hg, -⟩ := get?_eq_some_iff.1 hb
  obtain ⟨s', hs', hg'⟩ := generation_run (before ++ after) hc hs
  have hc' : (g.run (before ++ after)).Consistent :=
    run_induction (fun _ op _ h => h.apply op) (Q := fun _ => True) (fun _ _ => trivial) hc
  refine stale_of_generation_ne hc' hs' ?_
  have hpos := frees_pos before hc hlive hdead
  rw [hg', hg]
  exact add_mod_ne (by rw [frees_append]; exact Nat.add_pos_left hpos _) hfew

/-- Live blocks have handles of their own. -/
theorem nodup_handles (hl : g.Labelled) : (g.blocks.map (·.handle)).Nodup := by
  unfold blocks
  rw [List.Nodup, List.pairwise_map, List.pairwise_filterMap, List.pairwise_iff_getElem]
  intro i j hi hj hij b hb b' hb' he
  have hsi : g.slots[i]? = some g.slots.toList[i] := by simp [Array.getElem?_eq_getElem hi]
  have hsj : g.slots[j]? = some g.slots.toList[j] := by simp [Array.getElem?_eq_getElem hj]
  rw [hl.handle_eq i _ b hsi hb, hl.handle_eq j _ b' hsj hb'] at he
  simp only [Handle.mk.injEq] at he
  omega

/-- **Stale handles stay stale.** Take any history in which the block of a handle is deleted.
However the program is changed afterwards, as long as the slot is freed fewer than `2 ^ 32 - 1` more
times the handle stays stale for every look-up and every edit, and no new block gets it. And after
every history that leaves handles and keys alone, live blocks have handles of their own. -/
theorem stale_of_run {before : List Operation} {op : Operation} {after : List Operation}
    (hlive : (empty.run before).contains h = true)
    (hdead : ((empty.run before).apply op).contains h = false)
    (hfew : frees h.index ((empty.run before).apply op) after < UInt32.size - 1) :
    (((empty.run before).apply op).run after).Stale h ∧
      ∀ ops : List Operation, (∀ o ∈ ops, o.KeepsLabels) →
        ((empty.run ops).blocks.map (·.handle)).Nodup := by
  have hc := consistent_run before
  have hrun : empty.run (before ++ op :: after) = ((empty.run before).apply op).run after :=
    run_append _ _ _
  have hc' : (((empty.run before).apply op).run after).Consistent := hrun ▸ consistent_run _
  refine ⟨?_, fun ops hops => nodup_handles (labelled_run hops)⟩
  obtain ⟨s, hs, hg⟩ := exists_freed hc hlive hdead
  obtain ⟨s', hs', hg'⟩ := generation_run after (hc.apply op) hs
  refine stale_of_generation_ne hc' hs' ?_
  -- the deletion itself counts as one, so the total is at least one and short of a full turn
  rw [hg', hg, Nat.mod_add_mod, Nat.add_assoc]
  exact add_mod_ne (by omega) (by omega)

/-- The slot of a deleted block is used twice more, and the old handle still sees nothing. -/
theorem stale_of_reuse :
    (empty.run [.create (.detached "first" (.control .wait))]).contains ⟨0, 0⟩ = true ∧
      ((empty.run [.create (.detached "first" (.control .wait))]).apply
        (.delete ⟨0, 0⟩)).contains ⟨0, 0⟩ = false ∧
      (((empty.run [.create (.detached "first" (.control .wait))]).apply (.delete ⟨0, 0⟩)).run
        [.create (.detached "second" (.control .wait)), .delete ⟨0, 1⟩,
          .create (.detached "first" (.control .forever))]).get? ⟨0, 0⟩ = none := by
  have hlive : (empty.run [.create (.detached "first" (.control .wait))]).contains ⟨0, 0⟩ = true :=
    rfl
  have hdead : ((empty.run [.create (.detached "first" (.control .wait))]).apply
      (.delete ⟨0, 0⟩)).contains ⟨0, 0⟩ = false := rfl
  have hfew : frees 0 ((empty.run [.create (.detached "first" (.control .wait))]).apply
      (.delete ⟨0, 0⟩)) [.create (.detached "second" (.control .wait)), .delete ⟨0, 1⟩,
        .create (.detached "first" (.control .forever))] = 1 := rfl
  exact ⟨hlive, hdead, (stale_of_run hlive hdead (hfew ▸ by decide)).1.get?⟩

end Graph

end Stagecraft
