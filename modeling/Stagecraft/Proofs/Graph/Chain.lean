import Stagecraft.Proofs.Graph.Consistency
import Stagecraft.Proofs.Graph.Forest
import Mathlib.Data.List.Nodup
import Mathlib.Data.List.Perm.Subperm

/-!
# How far a walk can go

Walks along parents and successors carry the number of live blocks as a bound. Distinct live blocks
are no more than the counter says, and a walk in a forest does not leave it.

* `Graph.Consistent.length_le_size` : distinct live handles are at most `size` many;
* `Graph.Forest.below_lastFrom`, `Graph.Forest.contains_lastFrom` : where a walk along successors
  gets to.
-/

namespace Stagecraft.Graph

variable {g g' : Graph} {h x a : Handle}

/-! ### Counting live handles -/

/-- The slots that hold a block. -/
def occupied (g : Graph) : List Nat :=
  (g.slots.toList.zipIdx.filter fun e => e.1.block.isSome).map (·.2)

theorem mem_occupied {i : Nat} :
    i ∈ g.occupied ↔ ∃ s, g.slots[i]? = some s ∧ s.block.isSome = true := by
  unfold occupied
  simp only [List.mem_map, List.mem_filter, Prod.exists, List.mem_zipIdx_iff_getElem?]
  constructor
  · rintro ⟨s, j, ⟨hs, hb⟩, rfl⟩
    exact ⟨s, by simpa using hs, hb⟩
  · rintro ⟨s, hs, hb⟩
    exact ⟨s, i, ⟨by simpa using hs, hb⟩, rfl⟩

theorem length_occupied (hc : g.Consistent) : g.occupied.length = g.size := by
  have hfst : g.slots.toList.zipIdx.map Prod.fst = g.slots.toList := List.zipIdx_map_fst _ _
  rw [hc.size_eq, occupied, List.length_map, ← List.countP_eq_length_filter, ← Array.countP_toList]
  -- the numbers beside the slots do not matter for the count
  conv_rhs => rw [← hfst]
  rw [List.countP_map]
  rfl

theorem index_inj (hx : g.contains x = true) (ha : g.contains a = true) (hi : x.index = a.index) :
    x = a := by
  obtain ⟨b, hb⟩ := contains_iff.1 hx
  obtain ⟨b', hb'⟩ := contains_iff.1 ha
  obtain ⟨s, hs, hg, -⟩ := get?_eq_some_iff.1 hb
  obtain ⟨s', hs', hg', -⟩ := get?_eq_some_iff.1 hb'
  rw [hi, hs'] at hs
  cases hs
  exact Handle.ext hi (hg.symm.trans hg')

/-- **Distinct live handles are no more than the counter says.** -/
theorem Consistent.length_le_size (hc : g.Consistent) {l : List Handle} (hn : l.Nodup)
    (hl : ∀ h ∈ l, g.contains h = true) : l.length ≤ g.size := by
  have hindex : (l.map (·.index)).Nodup :=
    List.Nodup.map_on (fun x hx y hy hi => index_inj (hl x hx) (hl y hy) hi) hn
  have hsub : l.map (·.index) ⊆ g.occupied := by
    intro i hi
    obtain ⟨h, hh, rfl⟩ := List.mem_map.1 hi
    obtain ⟨b, hb⟩ := contains_iff.1 (hl h hh)
    obtain ⟨s, hs, -, hsb⟩ := get?_eq_some_iff.1 hb
    exact mem_occupied.2 ⟨s, hs, by rw [hsb]; rfl⟩
  have := (List.subperm_of_subset hindex hsub).length_le
  rwa [List.length_map, length_occupied hc] at this

/-! ### Along successors -/

theorem next?_of_get? {b : Block} (hb : g.get? h = some b) : g.next? h = b.next := by
  unfold next?
  rw [hb]
  rfl

theorem mem_children_of_next? {n : Handle} (hn : g.next? x = some n) : n ∈ g.children x := by
  obtain ⟨b, hb, hn⟩ := Option.bind_eq_some_iff.1 hn
  rw [children_of_get? hb]
  exact List.mem_append_left _ (Option.mem_toList.2 hn)

theorem lastFrom_congr (hnext : ∀ x, g'.next? x = g.next? x) (fuel : Nat) :
    ∀ x, g'.lastFrom fuel x = g.lastFrom fuel x := by
  induction fuel with
  | zero => exact fun _ => rfl
  | succ fuel ih =>
    intro x
    rw [lastFrom, lastFrom, hnext]
    split
    · exact ih _
    · rfl

theorem Forest.below_lastFrom (hf : g.Forest) (fuel : Nat) :
    ∀ x, g.Below (g.lastFrom fuel x) x := by
  induction fuel with
  | zero => exact fun x => Below.refl g x
  | succ fuel ih =>
    intro x
    rw [lastFrom]
    split
    · rename_i n hn
      exact (ih n).tail (hf.parent_iff.2 (mem_children_of_next? hn))
    · exact Below.refl g x

theorem Forest.contains_lastFrom (hf : g.Forest) (fuel : Nat) :
    ∀ x, g.contains x = true → g.contains (g.lastFrom fuel x) = true := by
  induction fuel with
  | zero => exact fun _ hx => hx
  | succ fuel ih =>
    intro x hx
    rw [lastFrom]
    split
    · rename_i n hn
      exact ih n (hf.live (mem_children_of_next? hn))
    · exact hx

end Stagecraft.Graph
