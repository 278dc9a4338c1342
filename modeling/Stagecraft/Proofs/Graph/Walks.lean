import Stagecraft.Proofs.Graph.Copies
import Stagecraft.Proofs.Graph.Trail

/-!
# Walks get as far as they should

Looking for the top of a script, for an ancestor and for the end of a chain is walking with a bound
on the steps, because links may run in circles, lead nowhere, or contradict each other. The bound is
the number of live blocks, or one more. It cuts no walk short that comes to an end: such a walk
passes live blocks, no one of them twice, and at last perhaps a handle without a block, and that is
one step more than there are live blocks. What the walks give is told here without any bound.

* `Graph.Circles` : a walk runs into a circle;
* `Graph.exists_trail_iff` : **a walk comes to an end or runs into a circle**;
* `Graph.Tops` : the last live block of a chain of parents;
* `Graph.Consistent.topBlock?_eq_some_iff`, `Graph.Consistent.topBlock?_eq_none_iff` : the walk to
  the top finds it, unless there is none;
* `Graph.Consistent.isAncestorOrSelf_iff` : the walk to an ancestor finds it where there is one;
* `Graph.walks_of_run` : **the bounds are never too small**.
-/

namespace Stagecraft.Graph

variable {g : Graph} {f : Handle → Option Handle} {h x a t t' : Handle} {l : List Handle}
  {b : Block}

/-! ### Circles -/

/-- Following a partial function from a handle comes to one that it leads back to. -/
def Circles (f : Handle → Option Handle) (h : Handle) : Prop :=
  ∃ y, Relation.ReflTransGen (fun x z => f x = some z) h y ∧
    Relation.TransGen (fun x z => f x = some z) y y

/-- A walk that comes to an end runs into no circle. -/
theorem Trail.not_circles (ht : Trail f h l) : ¬Circles f h := by
  induction ht with
  | @last h hn =>
    rintro ⟨y, hy, hcycle⟩
    -- the walk does not leave its first block, so the circle would be there
    have hstart : Relation.TransGen (fun x z => f x = some z) h y := hcycle.trans_right hy
    obtain ⟨z, hz, -⟩ := Relation.TransGen.head'_iff.1 hstart
    cases hn.symm.trans hz
  | cons hs _ ih =>
    rintro ⟨y, hy, hcycle⟩
    rcases Relation.ReflTransGen.cases_head hy with rfl | ⟨z, hz, hrest⟩
    · obtain ⟨z, hz, hback⟩ := Relation.TransGen.head'_iff.1 hcycle
      cases hs.symm.trans hz
      exact ih ⟨_, hback, hcycle⟩
    · cases hs.symm.trans hz
      exact ih ⟨y, hrest, hcycle⟩

/-- **A walk among live blocks comes to an end or runs into a circle**, and not both. -/
theorem exists_trail_iff (hlive : ∀ y z, f y = some z → g.contains y = true) :
    (∃ l, Trail f h l) ↔ ¬Circles f h :=
  ⟨fun ⟨_, ht⟩ => ht.not_circles,
    fun hn => exists_trail hlive fun y hy hcycle => hn ⟨y, hy, hcycle⟩⟩

theorem contains_of_parent? {p : Handle} (hp : g.parent? x = some p) : g.contains x = true := by
  obtain ⟨b, hb, -⟩ := exists_of_parent? hp
  exact contains_of_get? hb

theorem parent?_of_dead (hx : g.contains x = false) : g.parent? x = none := by
  cases hp : g.parent? x with
  | none => rfl
  | some p => cases (contains_of_parent? hp).symm.trans hx

/-- A chain of parents comes to an end or runs into a circle. -/
theorem exists_parents_iff : (∃ l, Trail g.parent? h l) ↔ ¬Circles g.parent? h :=
  exists_trail_iff (g := g) fun _ _ => contains_of_parent?

/-- So does a chain of successors. -/
theorem exists_strand_iff : (∃ l, g.Strand h l) ↔ ¬Circles g.next? h :=
  exists_trail_iff (g := g) fun _ _ => contains_of_next?

/-! ### The top of a script -/

/-- A block is the last live one on a chain of parents: it is live, and nothing after it is. -/
structure Tops (g : Graph) (h t : Handle) : Prop where
  below : g.Below h t
  live : g.contains t = true
  last : ∀ y, Relation.TransGen (fun x p => g.parent? x = some p) t y → g.contains y = false

namespace Tops

/-- There is at most one. -/
theorem unique (ht : g.Tops h t) (ht' : g.Tops h t') : t = t' := by
  have hsame : ∀ {u v : Handle}, g.Tops h u → g.Tops h v → g.Below u v → u = v := by
    intro u v hu hv huv
    rcases Relation.reflTransGen_iff_eq_or_transGen.1 huv with he | hafter
    · exact he.symm
    · cases (hu.last v hafter).symm.trans hv.live
  rcases ht.below.total ht'.below with hb | hb
  · exact hsame ht ht' hb
  · exact (hsame ht' ht hb).symm

/-- A live block whose parent is not live is the last one. -/
theorem self (hlive : g.contains h = true) (hp : ∀ p, g.parent? h = some p → g.contains p = false) :
    g.Tops h h := by
  refine ⟨Below.refl g h, hlive, fun y hy => ?_⟩
  obtain ⟨p, hparent, hrest⟩ := Relation.TransGen.head'_iff.1 hy
  have hdead := hp p hparent
  rcases Relation.ReflTransGen.cases_head hrest with rfl | ⟨q, hq, -⟩
  · exact hdead
  · cases (contains_of_parent? hq).symm.trans hdead

theorem parent (hp : g.parent? h = some x) (ht : g.Tops x t) : g.Tops h t :=
  ⟨.parent hp ht.below, ht.live, ht.last⟩

/-- The chain comes to an end there, or one step later where no block is. -/
theorem exists_trail (ht : g.Tops h t) : ∃ l, Trail g.parent? h l := by
  obtain ⟨hbelow, -, hlast⟩ := ht
  induction hbelow using Relation.ReflTransGen.head_induction_on with
  | refl =>
    cases hp : g.parent? t with
    | none => exact ⟨_, .last hp⟩
    | some p => exact ⟨_, .cons hp (.last (parent?_of_dead (hlast p (.single hp))))⟩
  | head hp _ ih =>
    obtain ⟨l, hl⟩ := ih
    exact ⟨_, .cons hp hl⟩

theorem contains (ht : g.Tops h t) : g.contains h = true := by
  rcases Relation.ReflTransGen.cases_head ht.below with rfl | ⟨p, hp, -⟩
  · exact ht.live
  · exact contains_of_parent? hp

end Tops

theorem topFrom_succ (fuel : Nat) (b : Block) : g.topFrom (fuel + 1) b =
    match b.parent.bind g.get? with
    | some p => g.topFrom fuel p
    | none => some b.handle := rfl

/-- What the walk gives is the handle that the last live block carries. -/
theorem exists_tops_of_topFrom (fuel : Nat) : ∀ {h : Handle} {b : Block}, g.get? h = some b →
    g.topFrom fuel b = some x → ∃ t b', g.Tops h t ∧ g.get? t = some b' ∧ b'.handle = x := by
  induction fuel with
  | zero => exact fun _ hx => by cases hx
  | succ fuel ih =>
    intro h b hb hx
    have hparent : g.parent? h = b.parent := parent?_of_get? hb
    rw [topFrom_succ] at hx
    cases hup : b.parent.bind g.get? with
    | none =>
      rw [hup] at hx
      refine ⟨h, b, .self (contains_of_get? hb) fun p hp => ?_, hb, Option.some.inj hx⟩
      rw [← hparent, hp, Option.bind_some] at hup
      rw [Graph.contains, hup]
      rfl
    | some b' =>
      rw [hup] at hx
      obtain ⟨p, hp, hb'⟩ := Option.bind_eq_some_iff.1 hup
      obtain ⟨t, bt, ht, hbt, hx⟩ := ih hb' hx
      exact ⟨t, bt, ht.parent (hparent.trans hp), hbt, hx⟩

/-- The walk gives something if it may take as many steps as the chain is long. -/
theorem isSome_topFrom_of_trail (ht : Trail g.parent? h l) (fuel : Nat) (hb : g.get? h = some b) :
    l.length ≤ fuel → (g.topFrom fuel b).isSome = true := by
  induction ht generalizing fuel b with
  | last hn =>
    intro hle
    obtain ⟨fuel, rfl⟩ : ∃ n, fuel = n + 1 := Nat.exists_eq_add_of_le' hle
    rw [topFrom_succ, (parent?_of_get? hb).symm.trans hn]
    rfl
  | @cons h p l hs _ ih =>
    intro hle
    rw [List.length_cons] at hle
    obtain ⟨fuel, rfl⟩ := Nat.exists_eq_add_of_le' (Nat.le_trans (Nat.le_add_left 1 _) hle)
    rw [topFrom_succ, (parent?_of_get? hb).symm.trans hs, Option.bind_some]
    cases hp : g.get? p with
    | none => rfl
    | some b' => exact ih fuel hp (by omega)

namespace Consistent

/-- A live block whose chain of parents comes to an end: the walk gets there. -/
theorem exists_topBlock? (hc : g.Consistent) (ht : Trail g.parent? h l)
    (hlive : g.contains h = true) : ∃ x, g.topBlock? h = some x := by
  obtain ⟨b, hb⟩ := contains_iff.1 hlive
  rw [topBlock?, hb, Option.bind_some]
  exact Option.isSome_iff_exists.1
    (isSome_topFrom_of_trail ht _ hb (ht.length_le hc fun _ _ => contains_of_parent?))

/-- **The walk to the top gives the last live block** of the chain of parents, by the handle that
the block carries. -/
theorem topBlock?_eq_some_iff (hc : g.Consistent) :
    g.topBlock? h = some x ↔ ∃ t b, g.Tops h t ∧ g.get? t = some b ∧ b.handle = x := by
  have hgives : ∀ {y}, g.topBlock? h = some y →
      ∃ t b, g.Tops h t ∧ g.get? t = some b ∧ b.handle = y := by
    intro y hy
    obtain ⟨b, hb, htop⟩ := Option.bind_eq_some_iff.1 hy
    exact exists_tops_of_topFrom _ hb htop
  refine ⟨hgives, ?_⟩
  rintro ⟨t, b, ht, hb, rfl⟩
  obtain ⟨l, hl⟩ := ht.exists_trail
  obtain ⟨y, hy⟩ := hc.exists_topBlock? hl ht.contains
  obtain ⟨t', b', ht', hb', rfl⟩ := hgives hy
  cases ht.unique ht'
  cases hb.symm.trans hb'
  exact hy

/-- **It gives nothing** exactly if there is no block or the chain of parents runs into a circle. -/
theorem topBlock?_eq_none_iff (hc : g.Consistent) :
    g.topBlock? h = none ↔ g.contains h = false ∨ Circles g.parent? h := by
  constructor
  · intro hnone
    by_contra hneither
    obtain ⟨hlive, hacyclic⟩ := not_or.1 hneither
    obtain ⟨l, hl⟩ := exists_parents_iff.2 hacyclic
    obtain ⟨x, hx⟩ := hc.exists_topBlock? hl (by simpa using hlive)
    cases hnone.symm.trans hx
  · intro hor
    rw [Option.eq_none_iff_forall_ne_some]
    intro x hx
    obtain ⟨t, b, ht, -, -⟩ := hc.topBlock?_eq_some_iff.1 hx
    rcases hor with hdead | hcircle
    · cases ht.contains.symm.trans hdead
    · exact exists_parents_iff.1 ht.exists_trail hcircle

end Consistent

/-! ### Ancestors -/

/-- What the walk finds is on the chain of parents. -/
theorem below_of_onParentChain (fuel : Nat) : ∀ {x : Handle},
    g.onParentChain a fuel (some x) = true → g.Below x a := by
  induction fuel with
  | zero => exact fun hx => by cases hx
  | succ fuel ih =>
    intro x hx
    rw [onParentChain] at hx
    split at hx
    · rename_i he
      exact he ▸ Below.refl g x
    · cases hp : g.parent? x with
      | none =>
        rw [hp] at hx
        cases fuel <;> cases hx
      | some p =>
        rw [hp] at hx
        exact .parent hp (ih hx)

/-- **The walk to an ancestor finds it** exactly if it is on the chain of parents. -/
theorem Consistent.isAncestorOrSelf_iff (hc : g.Consistent) :
    g.isAncestorOrSelf a h = true ↔ g.Below h a :=
  ⟨below_of_onParentChain _, isAncestorOrSelf_of_below hc⟩

/-! ### All walks -/

/-- Blocks carry their handles after every history whose edits leave that alone. -/
theorem addressed_run {ops : List Operation} (hops : ∀ op ∈ ops, op.KeepsHandles) :
    (empty.run ops).Addressed :=
  (run_induction (P := fun g => g.Consistent ∧ g.Addressed)
    (fun _ op hop hg => ⟨hg.1.apply op, hg.2.apply hg.1 hop⟩) hops
    ⟨consistent_empty, addressed_empty⟩).2

/-- **The bounds of walks are never too small**, whatever history a program has and wherever its
links lead. The walk to the top gives the last live block of the chain of parents, by the handle
that the block carries, which is the one at which it is found if edits leave that alone; it gives
nothing exactly if there is no block or the chain runs into a circle. The walk to an ancestor
finds it exactly if it is on the chain of parents, be it a handle without a block at the end of
it. And the walk along successors gets to the last of them, whenever the chain does not run into a
circle. -/
theorem walks_of_run (ops : List Operation) (h : Handle) :
    ((∀ x, (empty.run ops).topBlock? h = some x ↔
        ∃ t b, (empty.run ops).Tops h t ∧ (empty.run ops).get? t = some b ∧ b.handle = x) ∧
      ((∀ op ∈ ops, op.KeepsHandles) →
        ∀ t, (empty.run ops).topBlock? h = some t ↔ (empty.run ops).Tops h t) ∧
      ((empty.run ops).topBlock? h = none ↔
        (empty.run ops).contains h = false ∨ Circles (empty.run ops).parent? h)) ∧
    (∀ a, (empty.run ops).isAncestorOrSelf a h = true ↔ (empty.run ops).Below h a) ∧
    ((∃ l, (empty.run ops).Strand h l) ↔ ¬Circles (empty.run ops).next? h) ∧
    ∀ l, (empty.run ops).Strand h l → l.getLast? = some ((empty.run ops).lastInChain h) := by
  have hc := consistent_run ops
  refine ⟨⟨fun x => hc.topBlock?_eq_some_iff, fun hops t => ?_, hc.topBlock?_eq_none_iff⟩,
    fun a => hc.isAncestorOrSelf_iff, exists_strand_iff, fun l hl => hl.getLast?_eq hc⟩
  rw [hc.topBlock?_eq_some_iff]
  constructor
  · rintro ⟨u, b, hu, hb, rfl⟩
    rwa [addressed_run hops u b hb]
  · intro ht
    obtain ⟨b, hb⟩ := contains_iff.1 ht.live
    exact ⟨t, b, ht, hb, addressed_run hops t b hb⟩

/-- Two blocks that are each other's parent, and a chain below a block that never came and before
another one. -/
def maze : List Operation :=
  [.reserve "above", .reserve "behind",
    .create { Block.detached "one" (.control .forever) with parent := some ⟨3, 0⟩ },
    .create { Block.detached "two" (.control .forever) with parent := some ⟨2, 0⟩ },
    .create { Block.detached "first" (.control .wait) with
      parent := some ⟨0, 0⟩
      next := some ⟨5, 0⟩ },
    .create { Block.detached "second" (.control .wait) with
      parent := some ⟨4, 0⟩
      next := some ⟨1, 0⟩ }]

/-- Nothing is on top of the two, and the chain is walked to its first block, to the handle above it
and to the one behind it. -/
theorem walks_of_maze :
    (∀ op ∈ maze, op.KeepsHandles) ∧ Circles (empty.run maze).parent? ⟨2, 0⟩ ∧
      (empty.run maze).Tops ⟨5, 0⟩ ⟨4, 0⟩ ∧ (empty.run maze).Below ⟨5, 0⟩ ⟨0, 0⟩ ∧
      (empty.run maze).Strand ⟨4, 0⟩ [⟨4, 0⟩, ⟨5, 0⟩, ⟨1, 0⟩] ∧
      (empty.run maze).lastInChain ⟨4, 0⟩ = ⟨1, 0⟩ := by
  have hops : ∀ op ∈ maze, op.KeepsHandles := by
    simp [maze, Operation.KeepsHandles]
  have hcircle := (walks_of_run maze ⟨2, 0⟩).1.2.2.1 rfl
  have hstrand : (empty.run maze).Strand ⟨4, 0⟩ [⟨4, 0⟩, ⟨5, 0⟩, ⟨1, 0⟩] :=
    .cons rfl (.cons rfl (.last rfl))
  exact ⟨hops, hcircle.resolve_left (by decide), ((walks_of_run maze ⟨5, 0⟩).1.2.1 hops _).1 rfl,
    ((walks_of_run maze ⟨5, 0⟩).2.1 _).1 rfl, hstrand,
    Option.some.inj ((walks_of_run maze ⟨4, 0⟩).2.2.2 _ hstrand).symm⟩

end Stagecraft.Graph
