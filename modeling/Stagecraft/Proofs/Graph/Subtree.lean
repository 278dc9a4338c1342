import Stagecraft.Graph.Edit
import Stagecraft.Proofs.Graph.Forest

/-!
# Deleting what is below a block

A deletion frees the blocks on a list of pending handles and puts what they refer to on the list.
Each freed block takes its references with it, so references and pending handles together grow
fewer and the fuel of the deletion lasts.

* `Graph.get?_vacateAll` : exactly what is reached from the pending handles is freed;
* `Graph.Forest.prune` : a forest without all that is below a block with no parent is a forest.
-/

namespace Stagecraft.Graph

variable {g g' : Graph} {h p c x y : Handle} {b : Block}

/-- A handle is another one or is referred to from what that one leads to. -/
def Reaches (g : Graph) : Handle → Handle → Prop :=
  Relation.ReflTransGen fun p c => c ∈ g.children p

/-- In a forest exactly the blocks below a block are reached from it. -/
theorem Forest.reaches_iff (hf : g.Forest) : g.Reaches p c ↔ g.Below c p := by
  have hswap : (fun p c => c ∈ g.children p) = Function.swap fun c p => g.parent? c = some p := by
    funext p c
    exact propext hf.parent_iff.symm
  rw [Reaches, Below, hswap, Relation.reflTransGen_swap]

/-! ### Freeing one block -/

theorem children_vacate (hv : g.vacate h = some (g', b)) (x : Handle) :
    g'.children x = if x = h then [] else g.children x := by
  unfold children
  rw [get?_vacate hv]
  by_cases hx : x = h
  · rw [if_pos hx, if_pos hx]
  · rw [if_neg hx, if_neg hx]

/-- A freed block takes its references with it. -/
theorem references_vacate (hv : g.vacate h = some (g', b)) :
    g'.references + b.children.length = g.references := by
  obtain ⟨s, hs, -, hb, rfl⟩ := vacate_cases hv
  obtain ⟨l₁, l₂, hl, hm⟩ := exists_split_modifySlot hs Slot.freed
  have hfreed : s.freed.block = none := rfl
  simp only [references, blocks, hl, hm, List.filterMap_append, List.filterMap_cons, hb, hfreed,
    List.flatMap_append, List.flatMap_cons, List.length_append]
  omega

theorem Reaches.of_vacate (hv : g.vacate h = some (g', b)) (hr : g'.Reaches y x) :
    g.Reaches y x := by
  refine Relation.ReflTransGen.mono ?_ _ _ hr
  intro p c hc
  rw [children_vacate hv] at hc
  split at hc
  · cases hc
  · exact hc

/-- After a block is freed, what was reached is reached still, or was reached through the block. -/
theorem Reaches.vacate (hv : g.vacate h = some (g', b)) (hr : g.Reaches y x) :
    g'.Reaches y x ∨ x = h ∨ ∃ c ∈ b.children, g'.Reaches c x := by
  induction hr with
  | refl => exact Or.inl .refl
  | @tail z x _ hc ih =>
    by_cases hz : z = h
    · subst hz
      rw [children_of_get? (get?_of_vacate hv)] at hc
      exact Or.inr (Or.inr ⟨x, hc, .refl⟩)
    · have hc' : x ∈ g'.children z := by rwa [children_vacate hv, if_neg hz]
      rcases ih with hr | hzh | ⟨c, hcb, hr⟩
      · exact Or.inl (hr.tail hc')
      · exact absurd hzh hz
      · exact Or.inr (Or.inr ⟨c, hcb, hr.tail hc'⟩)

/-- A handle without block reaches nothing but itself. -/
theorem Reaches.eq_of_get?_eq_none (hn : g.get? y = none) (hr : g.Reaches y x) : y = x := by
  rcases Relation.ReflTransGen.cases_head hr with he | ⟨c, hc, -⟩
  · exact he
  · obtain ⟨b, hb, -⟩ := exists_of_mem_children hc
    rw [hn] at hb
    cases hb

/-! ### Freeing all of them -/

/-- **Exactly what is reached from the pending handles is freed.** -/
theorem get?_vacateAll (fuel : Nat) :
    ∀ (pending : List Handle) (g : Graph), g.references + pending.length ≤ fuel →
      ∀ x b, (vacateAll fuel pending g).get? x = some b ↔
        g.get? x = some b ∧ ∀ h ∈ pending, ¬g.Reaches h x := by
  induction fuel with
  | zero =>
    intro pending g hle x b
    have : pending = [] := List.eq_nil_of_length_eq_zero (by omega)
    subst this
    simp [vacateAll]
  | succ fuel ih =>
    intro pending g hle x b
    cases pending with
    | nil => simp [vacateAll]
    | cons h rest =>
      rw [List.length_cons] at hle
      rw [vacateAll, List.forall_mem_cons]
      split
      · rename_i g' b' hv
        have href := references_vacate hv
        rw [ih _ _ (by rw [List.length_append, List.length_reverse]; omega), get?_vacate hv]
        constructor
        · rintro ⟨hb, hr⟩
          by_cases hx : x = h
          · rw [if_pos hx] at hb
            cases hb
          rw [if_neg hx] at hb
          -- a way from `h` or from the rest would go on from the children or the rest
          have hway : ∀ y ∈ h :: rest, ¬g.Reaches y x := by
            intro y hy hyx
            rcases hyx.vacate hv with hyx | hxh | ⟨c, hc, hcx⟩
            · rcases List.mem_cons.1 hy with rfl | hy
              · have hn : g'.get? y = none := by rw [get?_vacate hv, if_pos rfl]
                exact hx (hyx.eq_of_get?_eq_none hn).symm
              · exact hr y (List.mem_append_right _ hy) hyx
            · exact hx hxh
            · exact hr c (List.mem_append_left _ (List.mem_reverse.2 hc)) hcx
          exact ⟨hb, List.forall_mem_cons.1 hway⟩
        · rintro ⟨hb, hh, hr⟩
          have hx : x ≠ h := fun hx => hh (hx ▸ .refl)
          refine ⟨by rwa [if_neg hx], fun y hy hyx => ?_⟩
          rcases List.mem_append.1 hy with hy | hy
          · have hc : y ∈ g.children h := by
              rw [children_of_get? (get?_of_vacate hv)]
              exact List.mem_reverse.1 hy
            exact hh (.head hc (hyx.of_vacate hv))
          · exact hr y hy (hyx.of_vacate hv)
      · rename_i hv
        rw [ih _ _ (by omega)]
        -- nothing is live at a handle that cannot be freed, so nothing is reached from it
        refine ⟨fun ⟨hb, hr⟩ => ⟨hb, fun hx => ?_, hr⟩, fun ⟨hb, _, hr⟩ => ⟨hb, hr⟩⟩
        have hn := vacate_eq_none_iff.1 hv
        rw [← hx.eq_of_get?_eq_none hn, hn] at hb
        cases hb

/-! ### What is left -/

/-- **A forest without all that is below a block with no parent is a forest.** -/
theorem Forest.prune (hf : g.Forest) (hp : g.parent? h = none)
    (hget : ∀ x b, g'.get? x = some b ↔ g.get? x = some b ∧ ¬g.Below x h) : g'.Forest := by
  -- a block and its parent stay or go together
  have hup : ∀ {x p}, g.parent? x = some p → (g.Below x h ↔ g.Below p h) := by
    intro x p hxp
    refine ⟨fun hx => ?_, Below.parent hxp⟩
    rcases Relation.ReflTransGen.cases_head hx with rfl | ⟨q, hq, hqh⟩
    · rw [hp] at hxp
      cases hxp
    · rwa [Option.some.inj (hxp.symm.trans hq)]
  have hchild : ∀ {p c}, c ∈ g'.children p ↔ c ∈ g.children p ∧ ¬g.Below p h := by
    intro p c
    constructor
    · intro hc
      obtain ⟨b, hb, hc⟩ := exists_of_mem_children hc
      obtain ⟨hb, hpb⟩ := (hget p b).1 hb
      exact ⟨children_of_get? hb ▸ hc, hpb⟩
    · rintro ⟨hc, hpb⟩
      obtain ⟨b, hb, hc⟩ := exists_of_mem_children hc
      exact children_of_get? ((hget p b).2 ⟨hb, hpb⟩) ▸ hc
  have hpar : ∀ {x p}, g'.parent? x = some p ↔ g.parent? x = some p ∧ ¬g.Below x h := by
    intro x p
    constructor
    · intro hxp
      obtain ⟨b, hb, hbp⟩ := exists_of_parent? hxp
      obtain ⟨hb, hxb⟩ := (hget x b).1 hb
      exact ⟨(parent?_of_get? hb).trans hbp, hxb⟩
    · rintro ⟨hxp, hxb⟩
      obtain ⟨b, hb, hbp⟩ := exists_of_parent? hxp
      exact (parent?_of_get? ((hget x b).2 ⟨hb, hxb⟩)).trans hbp
  refine ⟨?_, ?_, ?_, ?_, ?_⟩
  · intro p c hc
    obtain ⟨hc, hpb⟩ := hchild.1 hc
    obtain ⟨b, hb⟩ := contains_iff.1 (hf.live hc)
    exact contains_of_get? ((hget c b).2 ⟨hb, fun hcb => hpb ((hup (hf.parent_iff.2 hc)).1 hcb)⟩)
  · intro p
    cases hb : g'.get? p with
    | none => simp [children, hb]
    | some b =>
      rw [children_of_get? hb, ← children_of_get? ((hget p b).1 hb).1]
      exact hf.nodup p
  · intro p c
    rw [hpar, hchild, ← hf.parent_iff]
    exact and_congr_right fun hcp => not_congr (hup hcp)
  · intro x b hb ht
    exact hf.top ((hget x b).1 hb).1 ht
  · intro x
    refine (hf.rooted x).of_parent? fun y _ => ?_
    cases hy : g'.parent? y with
    | none =>
      right
      refine .intro fun p hyp => ?_
      rw [hy] at hyp
      cases hyp
    | some p => exact Or.inl (hpar.1 hy).1.symm

end Stagecraft.Graph
