import Stagecraft.Graph.Edit
import Stagecraft.Proofs.Graph.Forest
import Mathlib.Data.List.Basic

/-!
# Cutting and joining links

Each link is written down twice, in the parent and in the child, and an edit changes both. In a
forest `Graph.detach` and `Graph.cutOff` cut exactly one block off (`Graph.Forest.cut_detach`), and
`Graph.link` joins exactly one block to a parent as long as the change of the parent adds a
reference to it (`Graph.Forest.joined_link`). The changes that moves make to a parent do so:

* `Block.children_unlink` : unlinking a child removes it from the children;
* `Block.children_next` : a new successor is a new child;
* `Block.children_insert` : so is a block put into an input that held none.
-/

namespace Stagecraft

/-! ### Children of a changed block -/

namespace Block

variable {b : Block} {c h : Handle}

theorem inputBlocks_filter (b : Block) (c : Handle) :
    (b.inputs.filter fun _ input => input.block? ≠ some c).values.filterMap Input.block? =
      b.inputBlocks.filter (· ≠ c) := by
  simp only [inputBlocks, Table.values, Table.filter]
  induction b.inputs.entries with
  | nil => rfl
  | cons e r ih =>
    cases he : e.2.block? with
    | none => simpa [he] using ih
    | some x =>
      by_cases hx : x = c
      · simpa [he, hx] using ih
      · simpa [he, hx] using ih

/-- Unlinking a child removes it from the children. -/
theorem children_unlink (hn : b.children.Nodup) :
    (Graph.unlinkChild c b).children = b.children.filter (· ≠ c) := by
  unfold Graph.unlinkChild
  split
  · rename_i hnext
    -- the successor is not in an input as well
    have hc : c ∉ b.inputBlocks := by
      rw [children, hnext] at hn
      exact (List.nodup_cons.1 hn).1
    rw [children, children, hnext]
    simp only [Option.toList_none, Option.toList_some, List.nil_append, List.singleton_append]
    rw [List.filter_cons_of_neg (by simp)]
    refine (List.filter_eq_self.2 fun x hx => ?_).symm
    have : x ≠ c := fun he => hc (he ▸ hx)
    simpa using this
  · rename_i hnext
    have hc : b.next.toList.filter (· ≠ c) = b.next.toList := by
      refine List.filter_eq_self.2 fun x hx => ?_
      have : x ≠ c := fun he => hnext (he ▸ Option.mem_toList.1 hx)
      simpa using this
    rw [children, children, List.filter_append, hc]
    exact congrArg _ (inputBlocks_filter b c)

/-- A new successor is a new child. -/
theorem children_next (hn : b.next = none) (h : Handle) :
    ({ b with next := some h } : Block).children = h :: b.children := by
  simp only [children, hn, inputBlocks]
  rfl

/-- A block put into an input that held none is a new child. -/
theorem children_insert {name : String} {input : Input}
    (hheld : (b.inputs.get? name).bind Input.block? = none) (hi : input.block? = some h) :
    ({ b with inputs := b.inputs.insert name input } : Block).children.Perm (h :: b.children) := by
  have herase : (b.inputs.erase name).entries.filterMap (fun e => e.2.block?) =
      b.inputs.entries.filterMap fun e => e.2.block? := by
    rw [Table.erase, Table.filter, List.filterMap_filter]
    refine List.filterMap_congr fun e he => ?_
    split
    · rfl
    · rename_i hk
      -- the row that is replaced held no block
      have hk : e.1 = name := by simpa using hk
      have hget := (Table.get?_eq_some_iff b.inputs e.1 e.2).2 he
      rw [hk] at hget
      rw [hget] at hheld
      exact hheld.symm
  have hinputs : ({ b with inputs := b.inputs.insert name input } : Block).inputBlocks.Perm
      (h :: b.inputBlocks) := by
    simp only [inputBlocks, Table.values, List.filterMap_map]
    refine ((Table.entries_insert_perm b.inputs name input).filterMap _).trans ?_
    rw [List.filterMap_cons, Function.comp_apply, hi]
    exact .cons _ (herase ▸ .refl _)
  simp only [children]
  exact (hinputs.append_left _).trans List.perm_middle

end Block

namespace Graph

variable {g g' : Graph} {h p c x y : Handle} {b : Block} {f : Block → Block}

/-! ### Cutting off -/

theorem get?_detach (g : Graph) (p c x : Handle) :
    (g.detach p c).get? x =
      if x = c then (if x = p then (g.get? x).map (unlinkChild c) else g.get? x).map fun b =>
        { b with parent := none }
      else if x = p then (g.get? x).map (unlinkChild c) else g.get? x := by
  rw [detach, get?_modify, get?_modify]

/-- Only the parent of a block refers to it. -/
theorem Forest.children_filter (hf : g.Forest) (hp : g.parent? c = some p) {q : Handle}
    (hq : q ≠ p) : (g.children q).filter (· ≠ c) = g.children q := by
  refine List.filter_eq_self.2 fun x hx => ?_
  have : x ≠ c := by
    rintro rfl
    exact hq (Option.some.inj ((hf.parent_iff.2 hx).symm.trans hp))
  simpa using this

/-- A block that leaves its parent is no longer one of its children. -/
theorem Forest.children_detach (hf : g.Forest) (hp : g.parent? c = some p) (q : Handle) :
    (g.detach p c).children q = (g.children q).filter (· ≠ c) := by
  have hpc : p ≠ c := hf.parent_ne hp
  have hget := get?_detach g p c
  by_cases hqc : q = c
  · subst hqc
    rw [hf.children_filter hp hpc.symm]
    unfold children
    rw [hget, if_pos rfl, if_neg hpc.symm]
    cases g.get? q <;> rfl
  · by_cases hqp : q = p
    · subst hqp
      obtain ⟨b, hb, -⟩ := exists_of_mem_children (hf.parent_iff.1 hp)
      have hb' : (g.detach q c).get? q = some (unlinkChild c b) := by
        rw [hget, if_neg hpc, if_pos rfl, hb]
        rfl
      rw [children_of_get? hb', children_of_get? hb]
      exact Block.children_unlink (children_of_get? hb ▸ hf.nodup q)
    · rw [hf.children_filter hp hqp]
      unfold children
      rw [hget, if_neg hqc, if_neg hqp]

/-- Cutting the link to a parent cuts off exactly one block. -/
theorem Forest.cut_detach (hf : g.Forest) (hp : g.parent? c = some p) :
    Cut g c (g.detach p c) := by
  have hget := get?_detach g p c
  have hchild := hf.children_detach hp
  -- unlinking touches successor and inputs only
  have hfields : ∀ b, (unlinkChild c b).parent = b.parent ∧
      (unlinkChild c b).topLevel = b.topLevel := by
    intro b
    unfold unlinkChild
    split <;> exact ⟨rfl, rfl⟩
  refine ⟨?_, ?_, ?_, ?_, ?_⟩
  · intro x
    simp only [detach, contains_modify]
  · intro q x
    rw [hchild, List.mem_filter]
    simp
  · intro q
    rw [hchild]
    exact (hf.nodup q).filter _
  · intro x
    unfold parent?
    rw [hget]
    by_cases hx : x = c
    · rw [if_pos hx, if_pos hx, Option.bind_map]
      exact Option.bind_fun_none _
    · rw [if_neg hx, if_neg hx]
      split
      · rw [Option.bind_map]
        exact congrArg _ (funext fun b => (hfields b).1)
      · rfl
  · intro x b' hb' ht hx
    rw [hget, if_neg hx] at hb'
    split at hb'
    · obtain ⟨b, hb, rfl⟩ := Option.map_eq_some_iff.1 hb'
      exact ⟨b, hb, (hfields b).2 ▸ ht⟩
    · exact ⟨b', hb', ht⟩

/-- A block without parent is cut off already. -/
theorem Forest.cut_self (hf : g.Forest) (hn : g.parent? c = none) : Cut g c g := by
  refine ⟨fun _ => rfl, ?_, hf.nodup, ?_, fun _ b hb ht _ => ⟨b, hb, ht⟩⟩
  · intro q x
    refine ⟨fun hx => ⟨hx, ?_⟩, fun hx => hx.1⟩
    rintro rfl
    rw [hf.parent_iff.2 hx] at hn
    cases hn
  · intro x
    split
    · rename_i hx
      rw [hx, hn]
    · rfl

theorem Forest.cut_cutOff (hf : g.Forest) (c : Handle) : Cut g c (g.cutOff c) := by
  unfold cutOff
  split
  · rename_i p hp
    exact hf.cut_detach hp
  · rename_i hp
    exact hf.cut_self hp

/-- A block that was cut off may become the top of a script. -/
theorem Cut.modify (hcut : Cut g c g') (hpar : ∀ b, (f b).parent = b.parent)
    (hch : ∀ b, (f b).children = b.children) : Cut g c (g'.modify c f) := by
  have hget := get?_modify g' c f
  have hchild : ∀ q, (g'.modify c f).children q = g'.children q := by
    intro q
    unfold Graph.children
    rw [hget]
    by_cases hq : q = c
    · rw [if_pos hq]
      cases g'.get? q with
      | none => rfl
      | some b => exact hch b
    · rw [if_neg hq]
  refine ⟨?_, ?_, ?_, ?_, ?_⟩
  · intro x
    rw [contains_modify, hcut.contains]
  · intro q x
    rw [hchild, hcut.children]
  · intro q
    rw [hchild]
    exact hcut.nodup q
  · intro x
    rw [← hcut.parent]
    unfold parent?
    rw [hget]
    split
    · cases g'.get? x with
      | none => rfl
      | some b => exact hpar b
    · rfl
  · intro x b' hb' ht hx
    rw [hget, if_neg hx] at hb'
    exact hcut.top x b' hb' ht hx

/-- Cutting off only shortens chains of parents. -/
theorem Cut.below (hcut : Cut g c g') (hb : g'.Below x y) : g.Below x y := by
  refine Relation.ReflTransGen.mono ?_ _ _ hb
  intro x p hp
  rw [hcut.parent] at hp
  split at hp
  · cases hp
  · exact hp

/-! ### Joining -/

theorem get?_link (g : Graph) (p c : Handle) (f : Block → Block) (x : Handle) :
    (g.link p c f).get? x =
      if x = c then (if x = p then (g.get? x).map f else g.get? x).map fun b =>
        { b with parent := some p, topLevel := false }
      else if x = p then (g.get? x).map f else g.get? x := by
  rw [link, get?_modify, get?_modify]

theorem get?_link_self (hpc : p ≠ c) (hb : g.get? p = some b) :
    (g.link p c f).get? p = some (f b) := by
  rw [get?_link, if_neg hpc, if_pos rfl, hb]
  rfl

/-- Nobody but the parent gets a child. -/
theorem children_link_of_ne (c : Handle) (f : Block → Block) {q : Handle} (hq : q ≠ p) :
    (g.link p c f).children q = g.children q := by
  unfold children
  rw [get?_link, if_neg hq]
  by_cases hqc : q = c
  · rw [if_pos hqc]
    cases g.get? q <;> rfl
  · rw [if_neg hqc]

/-- A link joins exactly one block to a parent if the change of the parent adds a reference. -/
theorem Forest.joined_link (hf : g.Forest) (hc : g.contains c = true) (hn : g.parent? c = none)
    (hpc : p ≠ c) (hb : g.get? p = some b) (hch : (f b).children.Perm (c :: b.children))
    (hpar : (f b).parent = b.parent) (htop : (f b).topLevel = b.topLevel) :
    Joined g p c (g.link p c f) := by
  have hget := get?_link g p c f
  have hgetp := get?_link_self (f := f) hpc hb
  have hself : (g.link p c f).children p = (f b).children := children_of_get? hgetp
  have hother : ∀ q, q ≠ p → (g.link p c f).children q = g.children q := fun _ =>
    children_link_of_ne c f
  refine ⟨?_, ?_, ?_, ?_, ?_⟩
  · intro x
    simp only [link, contains_modify]
  · intro q x
    by_cases hq : q = p
    · subst hq
      rw [hself, hch.mem_iff, List.mem_cons, children_of_get? hb]
      simp [or_comm]
    · rw [hother q hq]
      simp [hq]
  · intro q
    by_cases hq : q = p
    · subst hq
      rw [hself, hch.nodup_iff, List.nodup_cons, ← children_of_get? hb]
      refine ⟨fun hm => ?_, hf.nodup q⟩
      rw [hf.parent_iff.2 hm] at hn
      cases hn
    · rw [hother q hq]
      exact hf.nodup q
  · intro x
    obtain ⟨bc, hbc⟩ := contains_iff.1 hc
    unfold parent?
    by_cases hx : x = c
    · rw [if_pos hx, hget, if_pos hx, if_neg (hx ▸ hpc.symm), hx, hbc]
      rfl
    · rw [if_neg hx]
      by_cases hxp : x = p
      · rw [hxp, hgetp, hb]
        exact hpar
      · rw [hget, if_neg hx, if_neg hxp]
  · intro x b' hb' ht
    by_cases hx : x = c
    · rw [hget, if_pos hx, if_neg (hx ▸ hpc.symm)] at hb'
      obtain ⟨_, _, rfl⟩ := Option.map_eq_some_iff.1 hb'
      cases ht
    · refine ⟨hx, ?_⟩
      by_cases hxp : x = p
      · rw [hxp, hgetp] at hb'
        cases hb'
        exact ⟨b, hxp ▸ hb, htop ▸ ht⟩
      · rw [hget, if_neg hx, if_neg hxp] at hb'
        exact ⟨b', hb', ht⟩

/-- What the child's parent was does not matter for a link. -/
theorem get?_link_congr (hpc : p ≠ c) (hget : ∀ x, x ≠ c → g'.get? x = g.get? x)
    (hc : (g'.get? c).map (fun b => { b with parent := none }) =
      (g.get? c).map fun b => { b with parent := none }) (f : Block → Block) (x : Handle) :
    (g'.link p c f).get? x = (g.link p c f).get? x := by
  rw [get?_link, get?_link]
  by_cases hx : x = c
  · subst hx
    have hset := congrArg (Option.map fun b : Block =>
      { b with parent := some p, topLevel := false }) hc
    rw [Option.map_map, Option.map_map] at hset
    rw [if_pos rfl, if_pos rfl, if_neg hpc.symm, if_neg hpc.symm]
    exact hset
  · rw [hget x hx]

end Graph

end Stagecraft
