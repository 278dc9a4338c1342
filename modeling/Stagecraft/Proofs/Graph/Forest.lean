import Stagecraft.Proofs.Graph.Lookup
import Mathlib.Logic.Relation

/-!
# Programs as forests

A program is well-formed when its links fit together: every link leads to a live block, no block is
referred to twice, a block is the parent of exactly the blocks that it refers to, and parents lead
up to a block without one.

`Graph.WellFormed` says this of the blocks. `Graph.Forest` says the same of two functions, the
parent of a handle and the list of its children, and is what the proofs work with
(`Graph.wellFormed_iff_forest`). An edit of a program cuts a block off its parent or joins it to a
new one:

* `Graph.Forest.cut` : cutting a block off leaves a forest;
* `Graph.Forest.join` : so does joining a block without parent to one that is not below it.
-/

namespace Stagecraft.Graph

/-- The blocks that a block refers to, by handle. -/
def children (g : Graph) (h : Handle) : List Handle :=
  match g.get? h with
  | some b => b.children
  | none => []

/-- The chain of parents that starts at a block ends. -/
inductive Rooted (g : Graph) : Handle → Prop
  | intro {h : Handle} : (∀ p, g.parent? h = some p → g.Rooted p) → g.Rooted h

/-- A block is another one or has it on its chain of parents. -/
def Below (g : Graph) : Handle → Handle → Prop :=
  Relation.ReflTransGen fun x p => g.parent? x = some p

/-- The links of a program fit together. -/
structure WellFormed (g : Graph) : Prop where
  /-- Links lead to live blocks. -/
  next_live : ∀ (h : Handle) (b : Block), g.get? h = some b →
    ∀ n, b.next = some n → g.contains n = true
  parent_live : ∀ (h : Handle) (b : Block), g.get? h = some b →
    ∀ p, b.parent = some p → g.contains p = true
  input_live : ∀ (h : Handle) (b : Block), g.get? h = some b →
    ∀ c ∈ b.inputBlocks, g.contains c = true
  /-- No block refers to a block in two places. -/
  once : ∀ (h : Handle) (b : Block), g.get? h = some b → b.children.Nodup
  /-- No two blocks refer to the same block. -/
  sole : ∀ (p q : Handle) (b b' : Block), g.get? p = some b → g.get? q = some b' →
    ∀ c ∈ b.children, c ∈ b'.children → p = q
  /-- A block is the parent of exactly the blocks that it refers to. -/
  parent_iff : ∀ (c : Handle) (b : Block), g.get? c = some b →
    ∀ p, b.parent = some p ↔ ∃ b', g.get? p = some b' ∧ c ∈ b'.children
  /-- The top of a script has no parent. -/
  top : ∀ (h : Handle) (b : Block), g.get? h = some b → b.topLevel = true → b.parent = none
  /-- Chains of parents end. -/
  rooted : ∀ h, g.contains h = true → g.Rooted h

/-- The links of a program fit together, said of parents and children. -/
structure Forest (g : Graph) : Prop where
  live : ∀ {p c : Handle}, c ∈ g.children p → g.contains c = true
  nodup : ∀ p, (g.children p).Nodup
  parent_iff : ∀ {p c : Handle}, g.parent? c = some p ↔ c ∈ g.children p
  top : ∀ {h : Handle} {b : Block}, g.get? h = some b → b.topLevel = true → b.parent = none
  rooted : ∀ h, g.Rooted h

variable {g g' : Graph} {h p c x y : Handle} {b : Block}

/-! ### Parents and children -/

theorem children_of_get? (hb : g.get? h = some b) : g.children h = b.children := by
  unfold children
  rw [hb]

theorem parent?_of_get? (hb : g.get? h = some b) : g.parent? h = b.parent := by
  unfold parent?
  rw [hb]
  rfl

theorem exists_of_mem_children (hc : c ∈ g.children p) :
    ∃ b, g.get? p = some b ∧ c ∈ b.children := by
  unfold children at hc
  cases hb : g.get? p with
  | none => rw [hb] at hc; cases hc
  | some b => rw [hb] at hc; exact ⟨b, rfl, hc⟩

theorem exists_of_parent? (hp : g.parent? c = some p) :
    ∃ b, g.get? c = some b ∧ b.parent = some p :=
  Option.bind_eq_some_iff.1 hp

/-- Children are in the arena. -/
theorem WellFormed.live_of_mem_children (hw : g.WellFormed) (hc : c ∈ g.children p) :
    g.contains c = true := by
  obtain ⟨b, hb, hc⟩ := exists_of_mem_children hc
  rcases List.mem_append.1 hc with hn | hi
  · exact hw.next_live p b hb c (Option.mem_toList.1 hn)
  · exact hw.input_live p b hb c hi

/-- What is said of the blocks makes a forest of their handles. -/
theorem WellFormed.forest (hw : g.WellFormed) : g.Forest := by
  refine ⟨fun {_ _} => hw.live_of_mem_children, fun p => ?_,
    fun {p c} => ⟨fun hp => ?_, fun hc => ?_⟩,
    fun {h b} hb ht => hw.top h b hb ht, fun h => ?_⟩
  · cases hb : g.get? p with
    | none => simp [children, hb]
    | some b => exact children_of_get? hb ▸ hw.once p b hb
  · obtain ⟨b, hb, hp⟩ := exists_of_parent? hp
    obtain ⟨b', hb', hc⟩ := (hw.parent_iff c b hb p).1 hp
    exact children_of_get? hb' ▸ hc
  · obtain ⟨b, hb⟩ := contains_iff.1 (hw.live_of_mem_children hc)
    exact (parent?_of_get? hb).trans
      ((hw.parent_iff c b hb p).2 (exists_of_mem_children hc))
  · cases hh : g.contains h with
    | true => exact hw.rooted h hh
    | false =>
      -- a handle without a block has no parent
      refine .intro fun p hp => ?_
      obtain ⟨b, hb, -⟩ := exists_of_parent? hp
      rw [contains_of_get? hb] at hh
      cases hh

/-- In a forest the blocks refer to each other in both directions. -/
theorem Forest.wellFormed (hf : g.Forest) : g.WellFormed := by
  have hmem : ∀ {p c : Handle} {b : Block}, g.get? p = some b → c ∈ b.children →
      g.parent? c = some p := fun hb hc => hf.parent_iff.2 (children_of_get? hb ▸ hc)
  refine ⟨?_, ?_, ?_, ?_, ?_, ?_, fun h b hb ht => hf.top hb ht, fun h _ => hf.rooted h⟩
  · intro h b hb n hn
    refine hf.live (p := h) (children_of_get? hb ▸ ?_)
    exact List.mem_append_left _ (Option.mem_toList.2 hn)
  · intro h b hb p hp
    obtain ⟨b', hb', -⟩ := exists_of_mem_children
      (hf.parent_iff.1 ((parent?_of_get? hb).trans hp))
    exact contains_of_get? hb'
  · intro h b hb c hc
    exact hf.live (p := h) (children_of_get? hb ▸ List.mem_append_right _ hc)
  · intro h b hb
    exact children_of_get? hb ▸ hf.nodup h
  · intro p q b b' hb hb' c hc hc'
    exact Option.some.inj ((hmem hb hc).symm.trans (hmem hb' hc'))
  · intro c b hb p
    rw [← parent?_of_get? hb, hf.parent_iff]
    constructor
    · exact exists_of_mem_children
    · rintro ⟨b', hb', hc⟩
      exact children_of_get? hb' ▸ hc

theorem wellFormed_iff_forest : g.WellFormed ↔ g.Forest :=
  ⟨WellFormed.forest, Forest.wellFormed⟩

/-! ### Chains of parents -/

theorem Below.refl (g : Graph) (x : Handle) : g.Below x x := Relation.ReflTransGen.refl

theorem Below.parent (hp : g.parent? x = some p) (hb : g.Below p y) : g.Below x y :=
  Relation.ReflTransGen.head hp hb

/-- A block without parent is below nothing but itself. -/
theorem Below.eq_of_parent?_eq_none (hx : g.parent? x = none) (hb : g.Below x y) : x = y := by
  cases Relation.ReflTransGen.cases_head hb with
  | inl he => exact he
  | inr hs =>
    obtain ⟨p, hp, -⟩ := hs
    rw [hx] at hp
    cases hp

/-- A chain of parents passes its blocks in one order. -/
theorem Below.total (hy : g.Below x y) (hz : g.Below x h) : g.Below y h ∨ g.Below h y :=
  Relation.ReflTransGen.total_of_right_unique
    (fun _ _ _ h₁ h₂ => Option.some.inj (h₁.symm.trans h₂)) hy hz

/-- A block is not below its children. -/
theorem Rooted.not_below (hr : g.Rooted x) : ∀ p, g.parent? x = some p → ¬g.Below p x := by
  induction hr with
  | intro _ ih =>
    intro p hp hb
    rcases Relation.ReflTransGen.cases_head hb with rfl | ⟨q, hq, hqx⟩
    · exact ih _ hp _ hp (Below.refl _ _)
    · exact ih p hp q hq (hqx.tail hp)

theorem Forest.not_below (hf : g.Forest) (hp : g.parent? x = some p) : ¬g.Below p x :=
  (hf.rooted x).not_below p hp

theorem Forest.parent_ne (hf : g.Forest) (hp : g.parent? x = some p) : p ≠ x := by
  rintro rfl
  exact hf.not_below hp (Below.refl _ _)

/-- A chain of parents still ends if it is as before up to a block whose chain ends. -/
theorem Rooted.of_parent? (hr : g.Rooted x)
    (hpar : ∀ y, g.Below x y → g'.parent? y = g.parent? y ∨ g'.Rooted y) : g'.Rooted x := by
  induction hr with
  | intro _ ih =>
    rcases hpar _ (Below.refl _ _) with he | hr
    · refine .intro fun p hp => ?_
      rw [he] at hp
      exact ih p hp fun y hy => hpar y (Below.parent hp hy)
    · exact hr

/-! ### Changes of a forest -/

/-- Only parents, children and the tops of scripts matter. -/
theorem Forest.of_links (hf : g.Forest) (hpar : ∀ x, g'.parent? x = g.parent? x)
    (hch : ∀ x, g'.children x = g.children x)
    (hlive : ∀ x, g.contains x = true → g'.contains x = true)
    (htop : ∀ x b', g'.get? x = some b' → b'.topLevel = true → g.parent? x = none) :
    g'.Forest := by
  refine ⟨?_, ?_, ?_, ?_, ?_⟩
  · intro p c hc
    exact hlive c (hf.live (hch p ▸ hc))
  · intro p
    exact hch p ▸ hf.nodup p
  · intro p c
    rw [hpar, hch]
    exact hf.parent_iff
  · intro h b hb ht
    rw [← parent?_of_get? hb, hpar]
    exact htop h b hb ht
  · intro h
    exact (hf.rooted h).of_parent? fun y _ => Or.inl (hpar y)

/-- Well-formedness depends on what look-ups show. -/
theorem Forest.of_get? (hf : g.Forest) (hget : ∀ x, g'.get? x = g.get? x) : g'.Forest := by
  refine hf.of_links ?_ ?_ ?_ ?_
  · intro x
    unfold Graph.parent?
    rw [hget]
  · intro x
    unfold Graph.children
    rw [hget]
  · intro x hx
    unfold Graph.contains
    rwa [hget]
  · intro x b hb ht
    rw [hget] at hb
    exact (parent?_of_get? hb).trans (hf.top hb ht)

/-- One graph is another one with a block cut off its parent. -/
structure Cut (g : Graph) (c : Handle) (g' : Graph) : Prop where
  contains : ∀ x, g'.contains x = g.contains x
  children : ∀ p x, x ∈ g'.children p ↔ x ∈ g.children p ∧ x ≠ c
  nodup : ∀ p, (g'.children p).Nodup
  parent : ∀ x, g'.parent? x = if x = c then none else g.parent? x
  top : ∀ x b', g'.get? x = some b' → b'.topLevel = true → x ≠ c →
    ∃ b, g.get? x = some b ∧ b.topLevel = true

/-- **Cutting a block off leaves a forest.** -/
theorem Forest.cut (hf : g.Forest) (hcut : Cut g c g') : g'.Forest := by
  refine ⟨?_, hcut.nodup, ?_, ?_, ?_⟩
  · intro p x hx
    rw [hcut.contains]
    exact hf.live ((hcut.children p x).1 hx).1
  · intro p x
    rw [hcut.parent, hcut.children, ← hf.parent_iff]
    split <;> simp_all
  · intro x b' hb' ht
    rw [← parent?_of_get? hb', hcut.parent]
    split
    · rfl
    · rename_i hx
      obtain ⟨b, hb, ht⟩ := hcut.top x b' hb' ht hx
      rw [parent?_of_get? hb]
      exact hf.top hb ht
  · intro x
    refine (hf.rooted x).of_parent? fun y _ => ?_
    rw [hcut.parent]
    split
    · rename_i hy
      refine Or.inr (.intro fun p hp => ?_)
      rw [hcut.parent, if_pos hy] at hp
      cases hp
    · exact Or.inl rfl

/-- One graph is another one with a block joined to a parent. -/
structure Joined (g : Graph) (p c : Handle) (g' : Graph) : Prop where
  contains : ∀ x, g'.contains x = g.contains x
  children : ∀ q x, x ∈ g'.children q ↔ x ∈ g.children q ∨ (q = p ∧ x = c)
  nodup : ∀ q, (g'.children q).Nodup
  parent : ∀ x, g'.parent? x = if x = c then some p else g.parent? x
  top : ∀ x b', g'.get? x = some b' → b'.topLevel = true →
    x ≠ c ∧ ∃ b, g.get? x = some b ∧ b.topLevel = true

/-- The chain of the new parent is what it was. -/
theorem Joined.below (hj : Joined g p c g') (hpc : ¬g.Below p c) (hb : g'.Below p y) :
    g.Below p y := by
  induction hb with
  | refl => exact Below.refl _ _
  | tail _ hstep ih =>
    rename_i y z
    rw [hj.parent] at hstep
    split at hstep
    · rename_i hy
      exact absurd (hy ▸ ih) hpc
    · exact ih.tail hstep

/-- **Joining a block without parent to one that is not below it leaves a forest.** -/
theorem Forest.join (hf : g.Forest) (hlive : g.contains c = true) (hc : g.parent? c = none)
    (hpc : ¬g.Below p c) (hj : Joined g p c g') : g'.Forest := by
  refine ⟨?_, hj.nodup, ?_, ?_, ?_⟩
  · intro q x hx
    rw [hj.contains]
    rcases (hj.children q x).1 hx with hx | ⟨-, rfl⟩
    · exact hf.live hx
    · exact hlive
  · intro q x
    rw [hj.parent, hj.children, ← hf.parent_iff]
    split
    · rename_i hx
      subst hx
      rw [hc]
      simp [eq_comm]
    · rename_i hx
      simp [hx]
  · intro x b' hb' ht
    obtain ⟨hx, b, hb, ht⟩ := hj.top x b' hb' ht
    rw [← parent?_of_get? hb', hj.parent, if_neg hx, parent?_of_get? hb]
    exact hf.top hb ht
  · -- the chain of the new parent avoids the block, so it ends; then that of the block ends, too
    have hp : g'.Rooted p := (hf.rooted p).of_parent? fun y hy => by
      left
      rw [hj.parent, if_neg]
      rintro rfl
      exact hpc hy
    have hc' : g'.Rooted c := .intro fun q hq => by
      rw [hj.parent, if_pos rfl] at hq
      cases hq
      exact hp
    intro x
    refine (hf.rooted x).of_parent? fun y _ => ?_
    rw [hj.parent]
    split
    · rename_i hy
      exact Or.inr (hy ▸ hc')
    · exact Or.inl rfl

end Stagecraft.Graph
