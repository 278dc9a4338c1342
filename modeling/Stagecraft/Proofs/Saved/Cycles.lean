import Stagecraft.Proofs.Graph.Mending
import Stagecraft.Proofs.Saved.Strict

/-!
# Moves in programs that were loaded

Whether a move would make a block its own ancestor is found out from parents, and a file says for
each block what its parent is. The check of a project that is loaded strictly looks up these keys
as it does all others, but not whether successors, inputs and parents fit together. If they do,
and no block is referred to twice, no moves lead to a cycle of successors and inputs unless there
is one in the file. If some block does not name the one that refers to it, two moves are enough,
and so they are if the successor of some block is in one of its inputs as well.

* `SavedActor.Parented` : every block names the one that refers to it as its parent;
* `Graph.Realizes.mendable` : then the program that is loaded can be mended;
* `Graph.Realizes.loose_of_not_parented`, `Graph.Realizes.loose_of_doubled` : otherwise there is a
  loose block in it;
* `World.acyclic_of_loadStrict` : **moves keep programs that were loaded free of cycles where the
  parents are right**, and need not where they are not.
-/

namespace Stagecraft

/-! ### References of a file -/

/-- The keys that a block of a file refers to as its successor and in its inputs. -/
def SavedBlock.childKeys (b : SavedBlock) : List String :=
  b.next.toList ++ b.inputs.values.filterMap SavedInput.key?

/-- The successor of a block is in one of its inputs as well. -/
def SavedBlock.Doubled (b : SavedBlock) : Prop :=
  ∃ key ∈ b.next, key ∈ b.inputs.values.filterMap SavedInput.key?

namespace SavedActor

/-- The block with one key refers to another key, as its successor or in an input. -/
def Refers (a : SavedActor) (key key' : String) : Prop :=
  ∃ b, a.blocks.get? key = some b ∧ key' ∈ b.childKeys

/-- No block is reached from itself along successors and inputs. -/
def Acyclic (a : SavedActor) : Prop := ∀ key, ¬Relation.TransGen a.Refers key key

/-- Every block names the one that refers to it as its parent. -/
def Parented (a : SavedActor) : Prop :=
  ∀ e ∈ a.blocks.entries, ∀ key ∈ e.2.childKeys, ∀ b ∈ a.blocks.get? key, b.parent = some e.1

/-- No block refers to a block in two places. -/
def Once (a : SavedActor) : Prop := ∀ e ∈ a.blocks.entries, e.2.childKeys.Nodup

instance (a : SavedActor) : Decidable a.Parented :=
  inferInstanceAs (Decidable (∀ e ∈ a.blocks.entries, ∀ key ∈ e.2.childKeys,
    ∀ b ∈ a.blocks.get? key, b.parent = some e.1))

instance (a : SavedActor) : Decidable a.Once :=
  inferInstanceAs (Decidable (∀ e ∈ a.blocks.entries, e.2.childKeys.Nodup))

/-- Keys with ranks that fall along references are in no cycle. -/
theorem acyclic_of_rank {a : SavedActor} (rank : String → Nat)
    (h : ∀ e ∈ a.blocks.entries, ∀ key ∈ e.2.childKeys, rank key < rank e.1) : a.Acyclic := by
  have hfalls : ∀ {key key'}, Relation.TransGen a.Refers key key' → rank key' < rank key := by
    intro key key' hpath
    refine Relation.TransGen.trans_induction_on hpath ?_ fun _ _ h₁ h₂ => h₂.trans h₁
    rintro key key' ⟨b, hb, hmem⟩
    exact h (key, b) ((Table.get?_eq_some_iff _ _ _).1 hb) key' hmem
  exact fun key hcycle => Nat.lt_irrefl _ (hfalls hcycle)

end SavedActor

namespace Graph

variable {g : Graph} {h p c x : Handle} {b : Block} {saved : SavedBlock} {key : String}
  {a : SavedActor}

/-! ### References of a program -/

theorem LeadsTo.key_unique {key' : String} (hx : g.LeadsTo x key) (hx' : g.LeadsTo x key') :
    key = key' := by
  obtain ⟨b, hb, rfl⟩ := hx
  obtain ⟨b', hb', rfl⟩ := hx'
  rw [hb] at hb'
  cases hb'
  rfl

/-- What an input refers to has the key that was saved. -/
theorem PluggedAs.rel {input : Input} {row : SavedInput} (h : g.PluggedAs input row) :
    Option.Rel g.LeadsTo input.block? row.key? := by
  cases h with
  | literal v => exact .none
  | reporter hleads | branch hleads => exact .some hleads

/-- References that are in both lists or in neither correspond, by induction on the lists. -/
theorem forall₂_filterMap {α β : Type} {R : α → β → Prop} {f : α → Option Handle}
    {f' : β → Option String} (hf : ∀ e s, R e s → Option.Rel g.LeadsTo (f e) (f' s)) {l : List α}
    {l' : List β} (h : List.Forall₂ R l l') :
    List.Forall₂ g.LeadsTo (l.filterMap f) (l'.filterMap f') := by
  induction h with
  | nil => exact .nil
  | @cons e s _ _ hes _ ih =>
    rw [List.filterMap_cons, List.filterMap_cons]
    generalize hfe : f e = x, hfs : f' s = key at *
    have hrel := hf e s hes
    rw [hfe, hfs] at hrel
    cases hrel with
    | none => exact ih
    | some hleads => exact .cons hleads ih

/-- The blocks in the inputs of a block have the keys that it was saved with. -/
theorem LinkedAs.inputBlocks (hl : g.LinkedAs b saved) :
    List.Forall₂ g.LeadsTo b.inputBlocks (saved.inputs.values.filterMap SavedInput.key?) := by
  rw [Block.inputBlocks, Table.values, Table.values, List.filterMap_map, List.filterMap_map]
  exact forall₂_filterMap (fun e s he => he.2.rel) hl.inputs

/-- So have all that it refers to. -/
theorem LinkedAs.children (hl : g.LinkedAs b saved) :
    List.Forall₂ g.LeadsTo b.children saved.childKeys := by
  have hnext : ∀ {next key?}, Option.Rel g.LeadsTo next key? →
      List.Forall₂ g.LeadsTo next.toList key?.toList := by
    intro next key? h
    cases h with
    | none => exact .nil
    | some hleads => exact .cons hleads .nil
  exact List.rel_append (hnext hl.next) hl.inputBlocks

/-- Blocks with different keys are different. -/
theorem nodup_of_keys {l : List Handle} {keys : List String} (h : List.Forall₂ g.LeadsTo l keys)
    (hn : keys.Nodup) : l.Nodup := by
  induction h with
  | nil => exact .nil
  | cons hx hrest ih =>
    obtain ⟨hnew, hn⟩ := List.nodup_cons.1 hn
    refine List.nodup_cons.2 ⟨fun hmem => hnew ?_, ih hn⟩
    obtain ⟨key, hkey, hx'⟩ := exists_of_forall₂ hrest.flip hmem
    exact hx.key_unique hx' ▸ hkey

namespace Realizes

variable {key' : String}

/-- A reference of the program is one of the file. -/
theorem refers (hr : g.Realizes a.blocks) (hc : c ∈ g.children p) :
    ∃ key key', g.LeadsTo p key ∧ g.LeadsTo c key' ∧ a.Refers key key' := by
  obtain ⟨b, hb, hmem⟩ := exists_of_mem_children hc
  obtain ⟨saved, hsaved, hl⟩ := hr.linked p b hb
  obtain ⟨key', hkey', hleads⟩ := exists_of_forall₂ hl.children.flip hmem
  exact ⟨b.key, key', ⟨b, hb, rfl⟩, hleads, saved, hsaved, hkey'⟩

/-- A reference of the file is one of the program. -/
theorem exists_mem_children (hr : g.Realizes a.blocks) (h : a.Refers key key') :
    ∃ p c, g.LeadsTo p key ∧ g.LeadsTo c key' ∧ c ∈ g.children p := by
  obtain ⟨saved, hsaved, hmem⟩ := h
  have hkey : key ∈ a.blocks.keys :=
    List.mem_map.2 ⟨_, (Table.get?_eq_some_iff _ _ _).1 hsaved, rfl⟩
  obtain ⟨p, b, hb, rfl⟩ := hr.loaded key hkey
  obtain ⟨saved', hsaved', hl⟩ := hr.linked p b hb
  cases hsaved.symm.trans hsaved'
  obtain ⟨c, hc, hleads⟩ := exists_of_forall₂ hl.children hmem
  exact ⟨p, c, ⟨b, hb, rfl⟩, hleads, by rwa [children_of_get? hb]⟩

/-- Cycles of the program are cycles of the file, by induction on the way. -/
theorem acyclic (hr : g.Realizes a.blocks) (ha : a.Acyclic) : g.Acyclic := by
  have hway : ∀ {x c}, Relation.TransGen (fun x c => c ∈ g.children x) x c →
      ∃ key key', g.LeadsTo x key ∧ g.LeadsTo c key' ∧ Relation.TransGen a.Refers key key' := by
    intro x c hxc
    induction hxc with
    | single hc =>
      obtain ⟨key, key', hx, hc, hrefers⟩ := hr.refers hc
      exact ⟨key, key', hx, hc, .single hrefers⟩
    | tail _ hc ih =>
      obtain ⟨key, mid, hx, hm, hway⟩ := ih
      obtain ⟨mid', key', hm', hc, hrefers⟩ := hr.refers hc
      cases hm.key_unique hm'
      exact ⟨key, key', hx, hc, .tail hway hrefers⟩
  intro x hcycle
  obtain ⟨key, key', hx, hx', hcycle⟩ := hway hcycle
  cases hx.key_unique hx'
  exact ha key hcycle

/-- The parent of a block is the one that the file says. -/
theorem parent?_iff (hr : g.Realizes a.blocks) (hp : g.LeadsTo p key) (hc : g.LeadsTo c key') :
    g.parent? c = some p ↔ ∃ saved, a.blocks.get? key' = some saved ∧ saved.parent = some key := by
  obtain ⟨b, hb, rfl⟩ := hc
  obtain ⟨saved, hsaved, hl⟩ := hr.linked c b hb
  have hrel := hl.parent
  rw [parent?_of_get? hb]
  constructor
  · intro hparent
    rw [hparent] at hrel
    refine ⟨saved, hsaved, ?_⟩
    generalize saved.parent = key? at hrel
    cases hrel with
    | some hleads => rw [hp.key_unique hleads]
  · rintro ⟨saved', hsaved', hparent⟩
    cases hsaved.symm.trans hsaved'
    rw [hparent] at hrel
    generalize b.parent = link at hrel
    cases hrel with
    | some hleads => rw [hr.sole _ _ _ hleads hp]

/-- A program can be mended if in its file no block is reached from itself or referred to in two
places and every block names the one that refers to it. -/
theorem mendable (hr : g.Realizes a.blocks) (hc : g.Consistent) (hl : g.Labelled) (ha : a.Acyclic)
    (hparented : a.Parented) (honce : a.Once) : g.Mendable := by
  refine mendable_of_acyclic hc hl (fun p c hmem => ?_) (fun p => ?_) (fun p c hmem => ?_)
    (hr.acyclic ha)
  · obtain ⟨-, -, -, ⟨b, hb, -⟩, -⟩ := hr.refers hmem
    exact contains_of_get? hb
  · cases hb : g.get? p with
    | none =>
      rw [children, hb]
      exact .nil
    | some b =>
      obtain ⟨saved, hsaved, hl⟩ := hr.linked p b hb
      rw [children_of_get? hb]
      exact nodup_of_keys hl.children (honce _ ((Table.get?_eq_some_iff _ _ _).1 hsaved))
  · obtain ⟨key, key', hp, hc, source, hsource, hkey'⟩ := hr.refers hmem
    refine (hr.parent?_iff hp hc).2 ?_
    obtain ⟨b, hb, rfl⟩ := hc
    obtain ⟨saved, hsaved, -⟩ := hr.linked c b hb
    exact ⟨saved, hsaved,
      hparented _ ((Table.get?_eq_some_iff _ _ _).1 hsource) _ hkey' saved hsaved⟩

/-- If some block of a file does not name the one that refers to it, there is a loose block in the
program. -/
theorem loose_of_not_parented (hr : g.Realizes a.blocks) (ha : a.Acyclic)
    (hparented : ¬a.Parented) :
    ∃ p c, g.contains c = true ∧ p ≠ c ∧ c ∈ (g.cutOff c).children p := by
  simp only [SavedActor.Parented, not_forall] at hparented
  obtain ⟨e, he, key', hkey', saved, hsaved, hparent⟩ := hparented
  have hrefers : a.Refers e.1 key' := ⟨e.2, (Table.get?_eq_some_iff _ _ _).2 he, hkey'⟩
  obtain ⟨p, c, hp, hc, hmem⟩ := hr.exists_mem_children hrefers
  have hpc : p ≠ c := by
    rintro rfl
    exact hr.acyclic ha p (.single hmem)
  refine ⟨p, c, ?_, hpc, loose_of_parent?_ne hmem hpc fun hparent' => ?_⟩
  · obtain ⟨b, hb, -⟩ := hc
    exact contains_of_get? hb
  · obtain ⟨saved', hsaved', he'⟩ := (hr.parent?_iff hp hc).1 hparent'
    cases hsaved.symm.trans hsaved'
    exact hparent he'

/-- So there is if the successor of some block is in one of its inputs as well. -/
theorem loose_of_doubled (hr : g.Realizes a.blocks) (ha : a.Acyclic) {e : String × SavedBlock}
    (he : e ∈ a.blocks.entries) (hdoubled : e.2.Doubled) :
    ∃ p c, g.contains c = true ∧ p ≠ c ∧ c ∈ (g.cutOff c).children p := by
  obtain ⟨key, hkey, hin⟩ := hdoubled
  obtain ⟨p, b, hb, hbkey⟩ := hr.loaded e.1 (List.mem_map.2 ⟨e, he, rfl⟩)
  obtain ⟨saved, hsaved, hl⟩ := hr.linked p b hb
  rw [hbkey, (Table.get?_eq_some_iff _ _ _).2 he] at hsaved
  cases hsaved
  -- both references lead to the one block with the key
  obtain ⟨c, hc, hleads⟩ := exists_of_forall₂ hl.inputBlocks hin
  have hnext : b.next = some c := by
    have hrel := hl.next
    rw [Option.mem_def.1 hkey] at hrel
    generalize b.next = link at hrel
    cases hrel with
    | some hleads' => rw [hr.sole _ _ _ hleads' hleads]
  have hpc : p ≠ c := by
    rintro rfl
    refine hr.acyclic ha p (.single ?_)
    rw [children_of_get? hb]
    exact List.mem_append_right _ hc
  refine ⟨p, c, ?_, hpc, Graph.loose_of_doubled hb hpc hnext hc⟩
  obtain ⟨b', hb', -⟩ := hleads
  exact contains_of_get? hb'

end Realizes

end Graph

namespace World

variable {σ : Type}

/-! ### Moves after loading -/

/-- **Moves keep programs free of cycles when the parents are right.** A project whose blocks do
not lead back to themselves is loaded strictly. Then the blocks of no program do. Where every
block names the one that refers to it and none is referred to in two places, they never do,
however many blocks are moved, and no block is moved to one that it leads to. But where some block
does not name the one that refers to it, or the successor of some block is in one of its inputs as
well, moves can close a cycle.
-/
theorem acyclic_of_loadStrict (w : World σ) (p : SavedProject) (hp : ∀ a ∈ p.targets, a.Acyclic)
    {r : World σ × List ActorId} (hr : w.loadStrict p = .ok r) :
    List.Forall₂ (fun a id => ∃ g, r.1.graph? id = some g ∧ g.Acyclic ∧
        (a.Parented → a.Once → ∀ ops : List Operation, (∀ op ∈ ops, op.IsMove) →
          (g.run ops).Acyclic ∧ ∀ h place q, place.parent? = some q → (g.run ops).Reaches h q →
            ((g.run ops).move h place).2 = false) ∧
        ((¬a.Parented ∨ ∃ e ∈ a.blocks.entries, e.2.Doubled) →
          ∃ ops : List Operation, (∀ op ∈ ops, op.IsMove) ∧ ¬(g.run ops).Acyclic))
      p.targets r.2 := by
  have hsound : p.problems = [] := by
    by_contra h
    rw [loadStrict_of_problems h] at hr
    cases hr
  rw [loadStrict_of_sound hsound] at hr
  cases hr
  have hclosed := (p.problems_eq_nil_iff.1 hsound).2
  have hall := (List.forall₂_and_left _ _).2
    ⟨fun a ha => And.intro (hclosed a ha) (hp a ha), w.hosts_loadActors p.targets⟩
  refine List.Forall₂.imp (fun a id h => ?_) hall
  obtain ⟨⟨hc, ha⟩, hhosts⟩ := h
  have hrealizes := Graph.realizes_ofSaved (Graph.slots_indexed _) hc
  have hraw := Graph.raw_ofSaved a.blocks
  refine ⟨_, hhosts.graph?, hrealizes.acyclic ha, fun hparented honce ops hops => ?_,
    fun hbad => ?_⟩
  · have hm := (hrealizes.mendable hraw.consistent.indexed hraw.labelled.indexed ha hparented
      honce).run hops
    exact ⟨hm.acyclic, fun h place q hplace hq => hm.move_refused hplace hq⟩
  · have hloose : ∃ q c, (Graph.ofSaved a.blocks).indexed.contains c = true ∧ q ≠ c ∧
        c ∈ ((Graph.ofSaved a.blocks).indexed.cutOff c).children q := by
      rcases hbad with hparented | ⟨e, he, hdoubled⟩
      · exact hrealizes.loose_of_not_parented ha hparented
      · exact hrealizes.loose_of_doubled ha he hdoubled
    obtain ⟨q, c, hlive, hqc, hloose⟩ := hloose
    refine ⟨_, fun op hop => ?_, Graph.cycle_of_loose hlive hqc hloose 0 0 "" true⟩
    simp only [List.mem_cons, List.not_mem_nil, or_false] at hop
    rcases hop with rfl | rfl
    · exact ⟨_, _, rfl⟩
    · exact ⟨_, _, rfl⟩

/-- Two blocks, one after the other. The second one may name a parent. -/
def pair (parent : Option String) : SavedProject where
  targets :=
    [{ Graph.ring with
      blocks := .ofList
        [("first", { Graph.ringed "second" [] with parent := none }),
          ("second", { Graph.ringed "second" [] with next := none, parent := parent })] }]

/-- The first block leads to the second one, and that leads nowhere. -/
theorem acyclic_pair (parent : Option String) : ∀ a ∈ (pair parent).targets, a.Acyclic := by
  intro a ha
  rw [List.mem_singleton.1 ha]
  refine SavedActor.acyclic_of_rank (fun key => if key = "first" then 1 else 0) ?_
  refine List.forall_mem_cons.2 ⟨by decide, List.forall_mem_singleton.2 fun key hkey => ?_⟩
  cases hkey

/-- If it names the first one, the two never form a circle. -/
theorem acyclic_of_loadStrict_pair :
    (∀ a ∈ (pair (some "first")).targets, a.Acyclic) ∧
      ∃ r g, (blank .standard ()).loadStrict (pair (some "first")) = .ok r ∧
        r.1.graph? 0 = some g ∧
        ∀ ops : List Operation, (∀ op ∈ ops, op.IsMove) → (g.run ops).Acyclic := by
  have hacyclic := acyclic_pair (some "first")
  have hload := loadStrict_of_sound (p := pair (some "first")) (by decide +kernel)
    (blank .standard ())
  have hall := acyclic_of_loadStrict (blank .standard ()) (pair (some "first")) hacyclic hload
  obtain ⟨g, hg, -, hmoves, -⟩ := (List.forall₂_cons.1 hall).1
  exact ⟨hacyclic, _, g, hload, hg, fun ops hops =>
    (hmoves (by decide +kernel) (by decide +kernel) ops hops).1⟩

/-- If it names none, the first one is moved after it. -/
theorem cycle_of_loadStrict_pair :
    (∀ a ∈ (pair none).targets, a.Acyclic) ∧
      ∃ r g, (blank .standard ()).loadStrict (pair none) = .ok r ∧ r.1.graph? 0 = some g ∧
        (g.move ⟨0, 0⟩ (.after ⟨1, 0⟩)).2 = true ∧
        ¬(g.run [.move ⟨0, 0⟩ (.after ⟨1, 0⟩)]).Acyclic := by
  have hload := loadStrict_of_sound (p := pair none) (by decide +kernel) (blank .standard ())
  refine ⟨acyclic_pair none, _, _, hload, rfl, by rfl, fun ha => ?_⟩
  refine ha ⟨0, 0⟩ (.tail (.single (b := ⟨1, 0⟩) ?_) ?_)
  · decide +kernel
  · decide +kernel

end World

end Stagecraft
