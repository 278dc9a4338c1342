import Stagecraft.Proofs.Graph.Attach

/-!
# What a deletion frees

A deletion first cuts the block off its parent and then frees what is pending, the last handle
first, until nothing is. Links may lead in circles, to one block from several places or to no
block at all: handles without block are passed over, and each block that is freed takes its links
with it.

* `Graph.Frees` : the loop of a deletion from its start to its end, with the blocks that it frees;
* `Graph.exists_frees` : the loop ends, on every program;
* `Graph.delete_frees` : **a deletion frees exactly what is reached from the block**, lowers the
  counter by that many and changes no other block but the parent.

The parent does not always lose its link. If the block is both its successor and in an input, only
the successor is unlinked, and the input goes on referring to the block that is gone.
-/

namespace Stagecraft.Graph

variable {g g' g'' : Graph} {h p x : Handle} {b : Block} {pending freed : List Handle}

/-! ### The loop -/

/-- The loop of a deletion, with the blocks that it frees. -/
inductive Frees : List Handle → Graph → List Handle → Graph → Prop
  /-- Nothing is pending. -/
  | done {g : Graph} : Frees [] g [] g
  /-- A block is freed, and what it refers to becomes pending. -/
  | free {g g' g'' : Graph} {h : Handle} {b : Block} {pending freed : List Handle} :
      g.vacate h = some (g', b) → Frees (b.children.reverse ++ pending) g' freed g'' →
      Frees (h :: pending) g (h :: freed) g''
  /-- There is no block. -/
  | skip {g g' : Graph} {h : Handle} {pending freed : List Handle} :
      g.vacate h = none → Frees pending g freed g' → Frees (h :: pending) g freed g'

/-- **The loop ends**, and the fuel of a deletion lasts that long. -/
theorem exists_frees (fuel : Nat) : ∀ (pending : List Handle) (g : Graph),
    g.references + pending.length ≤ fuel →
      ∃ freed, Frees pending g freed (vacateAll fuel pending g) := by
  induction fuel with
  | zero =>
    intro pending g hle
    have : pending = [] := List.eq_nil_of_length_eq_zero (by omega)
    subst this
    exact ⟨[], .done⟩
  | succ fuel ih =>
    intro pending g hle
    cases pending with
    | nil => exact ⟨[], .done⟩
    | cons h rest =>
      rw [List.length_cons] at hle
      rw [vacateAll]
      split
      · rename_i g' b hv
        have href := references_vacate hv
        obtain ⟨freed, hfrees⟩ := ih (b.children.reverse ++ rest) g'
          (by rw [List.length_append, List.length_reverse]; omega)
        exact ⟨h :: freed, .free hv hfrees⟩
      · rename_i hv
        obtain ⟨freed, hfrees⟩ := ih rest g (by omega)
        exact ⟨freed, .skip hv hfrees⟩

namespace Frees

/-- Only live blocks are freed. -/
theorem live (hf : Frees pending g freed g') : ∀ x ∈ freed, g.contains x = true := by
  induction hf with
  | done => exact fun _ hx => absurd hx List.not_mem_nil
  | @free g g' _ h b _ _ hv _ ih =>
    refine List.forall_mem_cons.2 ⟨contains_of_get? (get?_of_vacate hv), fun x hx => ?_⟩
    have hlive := ih x hx
    rw [contains, get?_vacate hv] at hlive
    by_cases he : x = h
    · rw [if_pos he] at hlive
      cases hlive
    · rwa [if_neg he] at hlive
  | skip _ _ ih => exact ih

/-- **No block is freed twice.** -/
theorem nodup (hf : Frees pending g freed g') : freed.Nodup := by
  induction hf with
  | done => exact .nil
  | @free g g' _ h b _ _ hv hrest ih =>
    refine List.nodup_cons.2 ⟨fun hmem => ?_, ih⟩
    have hlive := hrest.live h hmem
    rw [contains, get?_vacate hv, if_pos rfl] at hlive
    cases hlive
  | skip _ _ ih => exact ih

/-- The other blocks are not touched. -/
theorem get? (hf : Frees pending g freed g') (x : Handle) :
    g'.get? x = if x ∈ freed then none else g.get? x := by
  induction hf with
  | done => rfl
  | @free g g' _ h b _ freed hv _ ih =>
    rw [ih, get?_vacate hv]
    by_cases he : x = h
    · have hmem : x ∈ h :: freed := he ▸ List.mem_cons_self
      rw [if_pos he, if_pos hmem, ite_self]
    · simp only [he, if_false, List.mem_cons, false_or]
  | skip _ _ ih => exact ih

/-- Nor are the keys of the other handles. -/
theorem keyOf? (hf : Frees pending g freed g') (hx : x ∉ freed) : g'.keyOf? x = g.keyOf? x := by
  induction hf with
  | done => rfl
  | @free g g' _ h b _ freed hv _ ih =>
    obtain ⟨hne, hx⟩ := not_or.1 (mt List.mem_cons.2 hx)
    rw [ih hx, keyOf?_vacate hv hne]
  | skip _ _ ih => exact ih hx

/-- **The counter goes down by the number of blocks that are freed.** -/
theorem size (hf : Frees pending g freed g') (hc : g.Consistent) :
    g'.size + freed.length = g.size := by
  induction hf with
  | done => rfl
  | @free g g' _ h b _ freed hv _ ih =>
    have hpos : 1 ≤ g.size := hc.length_le_size (List.nodup_singleton h)
      (List.forall_mem_singleton.2 (contains_of_get? (get?_of_vacate hv)))
    have hsize : g'.size = g.size - 1 := by
      obtain ⟨s, -, -, -, rfl⟩ := vacate_cases hv
      rfl
    have hrest := ih (hc.vacate hv)
    rw [List.length_cons]
    omega
  | skip _ _ ih => exact ih hc

/-- **What is freed is what is reached** from the pending handles. -/
theorem mem_iff {fuel : Nat} (hf : Frees pending g freed (vacateAll fuel pending g))
    (hfuel : g.references + pending.length ≤ fuel) (x : Handle) :
    x ∈ freed ↔ g.contains x = true ∧ ∃ h ∈ pending, g.Reaches h x := by
  have hget := hf.get? x
  have hleft := get?_vacateAll fuel pending g hfuel x
  constructor
  · intro hx
    obtain ⟨b, hb⟩ := contains_iff.1 (hf.live x hx)
    refine ⟨contains_of_get? hb, ?_⟩
    by_contra hnone
    have hleft := (hleft b).2 ⟨hb, fun h hh hr => hnone ⟨h, hh, hr⟩⟩
    rw [hget, if_pos hx] at hleft
    cases hleft
  · rintro ⟨hlive, h, hh, hr⟩
    by_contra hx
    obtain ⟨b, hb⟩ := contains_iff.1 hlive
    rw [if_neg hx, hb] at hget
    exact ((hleft b).1 hget).2 h hh hr

end Frees

/-! ### Deletion -/

theorem keyOf?_cutOff (g : Graph) (h x : Handle) : (g.cutOff h).keyOf? x = g.keyOf? x :=
  cutOff_induction (P := fun g' => g'.keyOf? x = g.keyOf? x)
    (fun g' y f _ hg' => (keyOf?_modify g' y f x).trans hg') rfl h

theorem size_cutOff (g : Graph) (h : Handle) : (g.cutOff h).size = g.size :=
  cutOff_induction (P := fun g' => g'.size = g.size)
    (fun g' y f _ hg' => (size_modify g' y f).trans hg') rfl h

/-- The parent of a block that is cut off is left without the block as its successor or without the
inputs that hold it, so it refers to it still if it was both. -/
theorem get?_cutOff_parent (hp : g.parent? h = some p) (hne : p ≠ h) (hb : g.get? p = some b) :
    (g.cutOff h).get? p = some { b with
      next := if b.next = some h then none else b.next
      inputs := if b.next = some h then b.inputs
        else b.inputs.filter fun _ input => input.block? ≠ some h } ∧
    (h ∈ (g.cutOff h).children p ↔ b.next = some h ∧ h ∈ b.inputBlocks) := by
  have hget : (g.cutOff h).get? p = some { b with
      next := if b.next = some h then none else b.next
      inputs := if b.next = some h then b.inputs
        else b.inputs.filter fun _ input => input.block? ≠ some h } := by
    rw [get?_cutOff]
    by_cases hn : b.next = some h <;> simp [hp, hne, hb, hn]
  refine ⟨hget, ?_⟩
  rw [children_of_get? hget, Block.children, Block.inputBlocks]
  by_cases hn : b.next = some h
  · simp [hn, Block.inputBlocks]
  · simp only [if_neg hn, Block.inputBlocks_filter]
    simp [hn]

/-- **A deletion frees exactly what is reached from the block.** On every arena, however its links
run, the loop of a deletion ends. It frees each block that is reached along successors and inputs
once the block is cut off its parent, and each of them once; the counter goes down by their
number. All other handles keep their keys, and all other blocks are as they were but for the
parent, which is left without the block as its successor or, if that is another one, without the
inputs that hold it. So the parent goes on referring to the block exactly if it was both its
successor and in an input. -/
theorem delete_frees (hc : g.Consistent) (hlive : g.contains h = true) :
    (g.delete h).2 = true ∧ ∃ freed g', Frees [h] (g.cutOff h) freed g' ∧
      (g.delete h).1 = { g' with procedures := none } ∧
      freed.Nodup ∧
      (∀ x, x ∈ freed ↔ g.contains x = true ∧ (g.cutOff h).Reaches h x) ∧
      (g.delete h).1.size + freed.length = g.size ∧
      (∀ x ∈ freed, (g.delete h).1.contains x = false) ∧
      (∀ x, x ∉ freed → (g.delete h).1.keyOf? x = g.keyOf? x) ∧
      (∀ x, x ∉ freed → g.parent? h ≠ some x → (g.delete h).1.get? x = g.get? x) ∧
      ∀ p b, p ∉ freed → g.parent? h = some p → g.get? p = some b →
        (g.delete h).1.get? p = some { b with
          next := if b.next = some h then none else b.next
          inputs := if b.next = some h then b.inputs
            else b.inputs.filter fun _ input => input.block? ≠ some h } ∧
        (h ∈ (g.delete h).1.children p ↔ b.next = some h ∧ h ∈ b.inputBlocks) := by
  obtain ⟨b₀, hb₀⟩ := contains_iff.1 hlive
  have hfuel : (g.cutOff h).references + [h].length ≤ (g.cutOff h).references + 1 := Nat.le_refl _
  obtain ⟨freed, hfrees⟩ := exists_frees _ [h] (g.cutOff h) hfuel
  have hdelete : g.delete h =
      ({ vacateAll ((g.cutOff h).references + 1) [h] (g.cutOff h) with
          procedures := none }, true) := by
    rw [delete, hb₀]
  have hmem : ∀ x, x ∈ freed ↔ g.contains x = true ∧ (g.cutOff h).Reaches h x := fun x => by
    rw [hfrees.mem_iff hfuel, contains_cutOff]
    simp only [List.mem_singleton, exists_eq_left]
  have hget : ∀ x, (g.delete h).1.get? x =
      if x ∈ freed then none else (g.cutOff h).get? x := fun x => by
    rw [hdelete, ← hfrees.get? x]
    exact get?_congr rfl x
  have hself : h ∈ freed := (hmem h).2 ⟨hlive, .refl⟩
  have hne : ∀ x, x ∉ freed → x ≠ h := fun x hx he => hx (he.symm ▸ hself)
  refine ⟨by rw [hdelete], freed, _, hfrees, by rw [hdelete], hfrees.nodup, hmem,
    ?_, ?_, ?_, ?_, ?_⟩
  · rw [hdelete, ← size_cutOff g h]
    exact hfrees.size (hc.cutOff h)
  · intro x hx
    rw [contains, hget, if_pos hx]
    rfl
  · intro x hx
    rw [hdelete, ← keyOf?_cutOff g h x, ← hfrees.keyOf? hx]
    rfl
  · intro x hx hp
    rw [hget, if_neg hx, get?_cutOff]
    simp [hp, hne x hx]
  · intro p b hx hp hb
    have hkept := (hget p).trans (if_neg hx)
    rw [children, hkept]
    exact get?_cutOff_parent hp (hne p hx) hb

/-- A loop and its body that lead to each other. The body is the successor of the loop and in its
branch, and one of its inputs refers to no block. -/
def tangle : List Operation :=
  [.create (.detached "hat" (.event .whenFlagClicked)),
   .create (.detached "loop" (.control .repeatTimes)),
    .create (.detached "body" (.control .wait)), .create (.detached "other" (.control .wait)),
    .edit ⟨0, 0⟩ fun b => { b with next := some ⟨1, 0⟩ },
    .edit ⟨1, 0⟩ fun b => { b with
      parent := some ⟨0, 0⟩
      next := some ⟨2, 0⟩
      inputs := b.inputs.insert "SUBSTACK" (.branch ⟨2, 0⟩) },
    .edit ⟨2, 0⟩ fun b => { b with
      next := some ⟨1, 0⟩
      inputs := b.inputs.insert "DURATION" (.reporter ⟨9, 0⟩) }]

/-- With the loop its body is freed, once; the hat is left without successor, and the block beside
them as it was. -/
theorem delete_frees_tangle :
    (empty.run tangle).Consistent ∧ (empty.run tangle).contains ⟨1, 0⟩ = true ∧
      ((empty.run tangle).delete ⟨1, 0⟩).1.size = 2 ∧
      ((empty.run tangle).delete ⟨1, 0⟩).1.next? ⟨0, 0⟩ = none ∧
      ∃ freed : List Handle, freed.Nodup ∧ freed.length = 2 ∧ ⟨2, 0⟩ ∈ freed ∧
        ((empty.run tangle).delete ⟨1, 0⟩).1.get? ⟨3, 0⟩ = (empty.run tangle).get? ⟨3, 0⟩ := by
  have hc := consistent_run tangle
  have hlive : (empty.run tangle).contains ⟨1, 0⟩ = true := by decide +kernel
  have hsize : ((empty.run tangle).delete ⟨1, 0⟩).1.size = 2 := by decide +kernel
  have hreached : ((empty.run tangle).cutOff ⟨1, 0⟩).Reaches ⟨1, 0⟩ ⟨2, 0⟩ :=
    .single (by decide +kernel)
  have hother : ((empty.run tangle).delete ⟨1, 0⟩).1.contains ⟨3, 0⟩ = true := by decide +kernel
  obtain ⟨-, freed, -, -, -, hnodup, hmem, hcount, hgone, -, hkept, -⟩ := delete_frees hc hlive
  have htotal : (empty.run tangle).size = 4 := by decide +kernel
  refine ⟨hc, hlive, hsize, by decide +kernel, freed, hnodup, by omega,
    (hmem _).2 ⟨by decide +kernel, hreached⟩, hkept ⟨3, 0⟩ (fun hx => ?_) (by decide +kernel)⟩
  rw [hgone _ hx] at hother
  cases hother

/-- A block that is the successor of another one and in its branch as well. -/
def doubled : List Operation :=
  [.create (.detached "loop" (.control .repeatTimes)), .create (.detached "body" (.control .wait)),
    .edit ⟨0, 0⟩ fun b => { b with
      next := some ⟨1, 0⟩
      inputs := b.inputs.insert "SUBSTACK" (.branch ⟨1, 0⟩) },
    .edit ⟨1, 0⟩ fun b => { b with parent := some ⟨0, 0⟩ }]

/-- When it is deleted, the branch of its parent goes on referring to it. -/
theorem dangling_delete_doubled :
    (empty.run doubled).Consistent ∧ (empty.run doubled).parent? ⟨1, 0⟩ = some ⟨0, 0⟩ ∧
      ((empty.run doubled).delete ⟨1, 0⟩).2 = true ∧
      ((empty.run doubled).delete ⟨1, 0⟩).1.contains ⟨1, 0⟩ = false ∧
      ⟨1, 0⟩ ∈ ((empty.run doubled).delete ⟨1, 0⟩).1.children ⟨0, 0⟩ :=
  ⟨consistent_run doubled, by decide +kernel⟩

end Stagecraft.Graph
