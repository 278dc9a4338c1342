import Stagecraft.Proofs.Graph.Operation

/-!
# The arena is consistent

Slots, free list, key table and counter of a program describe the same thing, whatever its history.
`Graph.Consistent` says how they hang together; it is kept by every operation, whatever an edit does
to a block. `Graph.Labelled` says that blocks carry their own handle and key; it is kept as long as
edits leave these alone.

* `Graph.consistent_run` : every history leads to a consistent arena;
* `Graph.arena_of_run` : **the representation invariant**, with what it means for look-ups.
-/

namespace Stagecraft.Graph

/-- Slots, free list, key table and counter agree. -/
structure Consistent (g : Graph) : Prop where
  /-- The counter is the number of slots that hold a block. -/
  size_eq : g.size = g.slots.countP fun s => s.block.isSome
  /-- The table gives a handle for a key exactly if the slot of that handle has its generation and
  holds the key. -/
  handleOf?_iff : ∀ (key : String) (h : Handle), g.handleOf? key = some h ↔
    ∃ s, g.slots[h.index]? = some s ∧ s.generation = h.generation ∧ s.key = some key
  /-- A slot with a block has a key. -/
  keyed : ∀ (i : Nat) (s : Slot), g.slots[i]? = some s → s.key = none → s.block = none
  /-- No slot is in the free list twice. -/
  free_nodup : g.free.Nodup
  /-- The free list has exactly the slots without key and block. -/
  mem_free_iff : ∀ i, i ∈ g.free ↔ ∃ s, g.slots[i]? = some s ∧ s.key = none ∧ s.block = none
  /-- Generations are counted in 32 bits. -/
  generation_lt : ∀ (i : Nat) (s : Slot), g.slots[i]? = some s → s.generation < UInt32.size

/-- Blocks carry the handle and the key of their slot. -/
structure Labelled (g : Graph) : Prop where
  handle_eq : ∀ (i : Nat) (s : Slot) (b : Block), g.slots[i]? = some s → s.block = some b →
    b.handle = ⟨i, s.generation⟩
  key_eq : ∀ (i : Nat) (s : Slot) (b : Block), g.slots[i]? = some s → s.block = some b →
    s.key = some b.key

variable {g g' : Graph} {h : Handle} {b : Block}

theorem consistent_empty : empty.Consistent where
  size_eq := rfl
  handleOf?_iff := by simp [empty, handleOf?]
  keyed := by simp [empty]
  free_nodup := List.nodup_nil
  mem_free_iff := by simp [empty]
  generation_lt := by simp [empty]

theorem labelled_empty : empty.Labelled where
  handle_eq := by simp [empty]
  key_eq := by simp [empty]

/-- What holds of every slot still does after one slot is changed for another it holds of. -/
theorem forall_slots_of_changed {P : Slot → Prop} {i : Nat} {t : Slot}
    (hself : g'.slots[i]? = some t) (hother : ∀ j, j ≠ i → g'.slots[j]? = g.slots[j]?) (ht : P t)
    (hall : ∀ (j : Nat) (s : Slot), g.slots[j]? = some s → P s) :
    ∀ (j : Nat) (s : Slot), g'.slots[j]? = some s → P s := by
  intro j s hs
  by_cases hj : j = i
  · rw [hj, hself] at hs
    cases hs
    exact ht
  · rw [hother j hj] at hs
    exact hall j s hs

/-- What changing one slot does to a count. -/
theorem countP_modifySlot (p : Slot → Bool) (f : Slot → Slot) {i : Nat} {s : Slot}
    (hs : g.slots[i]? = some s) :
    (g.modifySlot i f).slots.countP p + (p s).toNat = g.slots.countP p + (p (f s)).toNat := by
  obtain ⟨l₁, l₂, hl, hm⟩ := exists_split_modifySlot hs f
  rw [← Array.countP_toList, ← Array.countP_toList, hl, hm]
  simp only [List.countP_append, List.countP_cons]
  cases p s <;> cases p (f s) <;> simp only [Bool.toNat_true, Bool.toNat_false] <;> simp <;> omega

/-! ### Keys -/

namespace Consistent

/-- **A handle and a key that belong together find each other.** -/
theorem handleOf?_eq_some_iff (hc : g.Consistent) (key : String) (h : Handle) :
    g.handleOf? key = some h ↔ g.keyOf? h = some key := by
  rw [hc.handleOf?_iff]
  simp only [keyOf?, Option.bind_eq_some_iff, slot?_eq_some_iff, and_assoc]

/-- No two slots hold the same key. -/
theorem slot_unique (hc : g.Consistent) {i j : Nat} {s t : Slot} {key : String}
    (hs : g.slots[i]? = some s) (ht : g.slots[j]? = some t) (hks : s.key = some key)
    (hkt : t.key = some key) : i = j := by
  have h1 := (hc.handleOf?_iff key ⟨i, s.generation⟩).2 ⟨s, hs, rfl, hks⟩
  have h2 := (hc.handleOf?_iff key ⟨j, t.generation⟩).2 ⟨t, ht, rfl, hkt⟩
  rw [h1] at h2
  simp only [Option.some.injEq, Handle.mk.injEq] at h2
  exact h2.1

theorem lt_of_handleOf? (hc : g.Consistent) {key : String} (hk : g.handleOf? key = some h) :
    h.index < g.slots.size := by
  obtain ⟨s, hs, -⟩ := (hc.handleOf?_iff key h).1 hk
  exact (Array.getElem?_eq_some_iff.1 hs).1

theorem lt_of_mem_free (hc : g.Consistent) {i : Nat} (hi : i ∈ g.free) : i < g.slots.size := by
  obtain ⟨s, hs, -⟩ := (hc.mem_free_iff i).1 hi
  exact (Array.getElem?_eq_some_iff.1 hs).1

/-- The index of procedures does not matter. -/
theorem reset (hc : g.Consistent) : ({ g with procedures := none } : Graph).Consistent :=
  ⟨hc.size_eq, hc.handleOf?_iff, hc.keyed, hc.free_nodup, hc.mem_free_iff, hc.generation_lt⟩

/-! ### Edits -/

/-- Only the outlines of the slots matter, not what is in their blocks. -/
theorem of_outline (hc : g.Consistent) (hout : g'.slots.map Slot.outline = g.slots.map Slot.outline)
    (hfree : g'.free = g.free) (hkeys : g'.keys = g.keys) (hsize : g'.size = g.size) :
    g'.Consistent := by
  constructor
  · have hcount : ∀ slots : Array Slot, (slots.countP fun s => s.block.isSome) =
        (slots.map Slot.outline).countP fun o => o.2.2 := fun slots => by
      rw [Array.countP_map]
      rfl
    rw [hsize, hc.size_eq, hcount, hcount, hout]
  · intro key x
    rw [handleOf?, hkeys]
    refine (hc.handleOf?_iff key x).trans ⟨?_, ?_⟩
    · rintro ⟨s, hs, hg, hk⟩
      obtain ⟨s', hs', ho⟩ := exists_of_outline hout.symm hs
      exact ⟨s', hs', (Slot.generation_of_outline ho).trans hg, (Slot.key_of_outline ho).trans hk⟩
    · rintro ⟨s', hs', hg, hk⟩
      obtain ⟨s, hs, ho⟩ := exists_of_outline hout hs'
      exact ⟨s, hs, (Slot.generation_of_outline ho).trans hg, (Slot.key_of_outline ho).trans hk⟩
  · intro i s' hs' hk
    obtain ⟨s, hs, ho⟩ := exists_of_outline hout hs'
    exact (Slot.block_eq_none_of_outline ho).1 (hc.keyed i s hs ((Slot.key_of_outline ho).trans hk))
  · rw [hfree]
    exact hc.free_nodup
  · intro i
    rw [hfree, hc.mem_free_iff]
    constructor
    · rintro ⟨s, hs, hk, hb⟩
      obtain ⟨s', hs', ho⟩ := exists_of_outline hout.symm hs
      exact ⟨s', hs', (Slot.key_of_outline ho).trans hk, (Slot.block_eq_none_of_outline ho).2 hb⟩
    · rintro ⟨s', hs', hk, hb⟩
      obtain ⟨s, hs, ho⟩ := exists_of_outline hout hs'
      exact ⟨s, hs, (Slot.key_of_outline ho).trans hk, (Slot.block_eq_none_of_outline ho).2 hb⟩
  · intro i s' hs'
    obtain ⟨s, hs, ho⟩ := exists_of_outline hout hs'
    exact Slot.generation_of_outline ho ▸ hc.generation_lt i s hs

theorem modify (hc : g.Consistent) (h : Handle) (f : Block → Block) : (g.modify h f).Consistent :=
  hc.of_outline (outline_modify g h f) (free_modify g h f) (keys_modify g h f) (size_modify g h f)

theorem cutOff (hc : g.Consistent) (h : Handle) : (g.cutOff h).Consistent :=
  cutOff_induction (fun _ _ _ _ hg => hg.modify _ _) hc h

/-! ### Freed slots -/

theorem vacate (hc : g.Consistent) (hv : g.vacate h = some (g', b)) : g'.Consistent := by
  obtain ⟨s, hs, hg, hb, hg'⟩ := vacate_cases hv
  have hslot := getElem?_vacate hv
  have hself : g'.slots[h.index]? = some s.freed := by rw [hslot, if_pos rfl, hs]; rfl
  have hother : ∀ j, j ≠ h.index → g'.slots[j]? = g.slots[j]? := fun j hj => by
    rw [hslot, if_neg (Ne.symm hj)]
  -- the slot holds a block, so it has a key
  obtain ⟨k, hk⟩ : ∃ k, s.key = some k := by
    cases hkey : s.key with
    | none => rw [hc.keyed _ _ hs hkey] at hb; cases hb
    | some k => exact ⟨k, rfl⟩
  have hkeys : g'.keys = g.keys.erase k := by rw [hg']; simp only [hk]
  have hfree : g'.free = h.index :: g.free := by rw [hg']
  have hnot : h.index ∉ g.free := by
    intro hf
    obtain ⟨t, ht, hkt, -⟩ := (hc.mem_free_iff _).1 hf
    rw [hs] at ht
    cases ht
    rw [hk] at hkt
    cases hkt
  constructor
  · -- one block less
    have hcount := countP_modifySlot (fun s => s.block.isSome) Slot.freed hs
    simp only [hb, Option.isSome_some, Bool.toNat_true, Slot.freed, Option.isSome_none,
      Bool.toNat_false, Nat.add_zero] at hcount
    rw [hg']
    simp only
    rw [hc.size_eq]
    exact Nat.sub_eq_of_eq_add hcount.symm
  · -- the key of the slot is forgotten, and no other slot has it
    intro key x
    rw [handleOf?, hkeys]
    by_cases hkk : key = k
    · subst hkk
      rw [Table.get?_erase_self]
      constructor
      · intro hn; cases hn
      · rintro ⟨t, ht, -, hkt⟩
        by_cases hx : x.index = h.index
        · rw [hx, hself] at ht
          cases ht
          cases hkt
        · rw [hother _ hx] at ht
          exact absurd (hc.slot_unique ht hs hkt hk) hx
    · rw [Table.get?_erase_of_ne _ hkk]
      refine (hc.handleOf?_iff key x).trans ?_
      by_cases hx : x.index = h.index
      · rw [hx, hself, hs]
        constructor
        · rintro ⟨t, ht, -, hkt⟩
          cases ht
          rw [hk] at hkt
          cases hkt
          exact absurd rfl hkk
        · rintro ⟨t, ht, -, hkt⟩
          cases ht
          cases hkt
      · rw [hother _ hx]
  · exact forall_slots_of_changed hself hother (fun _ => rfl) hc.keyed
  · rw [hfree]
    exact List.nodup_cons.2 ⟨hnot, hc.free_nodup⟩
  · intro i
    rw [hfree, List.mem_cons, hc.mem_free_iff]
    by_cases hi : i = h.index
    · subst hi
      exact ⟨fun _ => ⟨_, hself, rfl, rfl⟩, fun _ => Or.inl rfl⟩
    · rw [hother _ hi]
      simp [hi]
  · exact forall_slots_of_changed hself hother (Nat.mod_lt _ (by decide)) hc.generation_lt

/-! ### Reserved keys -/

end Consistent

/-- A new key got a slot: a free one, or one that was never used. -/
structure Allocated (g : Graph) (key : String) (g' : Graph) (h : Handle) : Prop where
  slot : g'.slots[h.index]? = some ⟨h.generation, some key, none⟩
  slot_before : ∀ s, g.slots[h.index]? = some s → s = ⟨h.generation, none, none⟩
  slot_other : ∀ j, j ≠ h.index → g'.slots[j]? = g.slots[j]?
  generation_lt : h.generation < UInt32.size
  keys : g'.keys = g.keys.insert key h
  free : g'.free = g.free.tail
  mem_free : ∀ i, i ∈ g'.free ↔ i ∈ g.free ∧ i ≠ h.index
  size : g'.size = g.size
  count : (g'.slots.countP fun s => s.block.isSome) = g.slots.countP fun s => s.block.isSome

namespace Consistent

theorem allocated (hc : g.Consistent) (key : String) :
    Allocated g key (g.allocate key).1 (g.allocate key).2 := by
  unfold allocate
  split
  · rename_i i rest hfree
    obtain ⟨s, hs, hk, hb⟩ := (hc.mem_free_iff i).1 (hfree ▸ List.mem_cons_self)
    have hgen : g.generationAt i = s.generation := by unfold generationAt; rw [hs]
    have hnot : i ∉ rest := (List.nodup_cons.1 (hfree ▸ hc.free_nodup)).1
    have hslot := getElem?_modifySlot g i
    constructor
    · simp only [hslot, if_pos, hs, Option.map_some, hgen, hb]
    · intro t ht
      simp only at ht
      rw [hs] at ht
      cases ht
      cases s
      simp_all
    · intro j hj
      exact (hslot j _).trans (if_neg (Ne.symm hj))
    · exact hgen ▸ hc.generation_lt i s hs
    · rfl
    · rw [hfree]
      rfl
    · intro j
      rw [hfree, List.mem_cons]
      constructor
      · intro hj
        exact ⟨Or.inr hj, fun h => hnot ((show j = i from h) ▸ hj)⟩
      · rintro ⟨rfl | hj, hne⟩
        · exact absurd rfl hne
        · exact hj
    · rfl
    · have := countP_modifySlot (fun s => s.block.isSome)
        (fun s : Slot => { s with key := some key }) hs
      exact Nat.add_right_cancel this
  · rename_i hfree
    have hnone : g.slots[g.slots.size]? = none := Array.getElem?_eq_none (Nat.le_refl _)
    constructor
    · exact Array.getElem?_push_size
    · intro t ht
      rw [hnone] at ht
      cases ht
    · intro j hj
      exact Array.getElem?_push.trans (if_neg hj)
    · exact Nat.succ_pos _
    · rfl
    · rw [hfree]
      rfl
    · simp [hfree]
    · rfl
    · exact Array.countP_push_of_neg (by simp)

theorem of_allocated {key : String} (hc : g.Consistent) (hk : g.handleOf? key = none)
    (ha : Allocated g key g' h) : g'.Consistent := by
  -- what was in the slot before had no key
  have hbefore : ∀ s, g.slots[h.index]? = some s → s.key = none ∧ s.block = none := fun s hs => by
    rw [ha.slot_before s hs]
    exact ⟨rfl, rfl⟩
  constructor
  · rw [ha.size, hc.size_eq, ha.count]
  · intro key' x
    rw [handleOf?, ha.keys]
    by_cases hkk : key' = key
    · subst hkk
      rw [Table.get?_insert_self]
      constructor
      · rintro hx
        cases hx
        exact ⟨_, ha.slot, rfl, rfl⟩
      · rintro ⟨t, ht, hg, hkt⟩
        by_cases hx : x.index = h.index
        · rw [hx, ha.slot] at ht
          cases ht
          exact congrArg some (Handle.ext hx.symm hg)
        · rw [ha.slot_other _ hx] at ht
          rw [(hc.handleOf?_iff key' x).2 ⟨t, ht, hg, hkt⟩] at hk
          cases hk
    · rw [Table.get?_insert_of_ne _ hkk]
      refine (hc.handleOf?_iff key' x).trans ?_
      by_cases hx : x.index = h.index
      · rw [hx, ha.slot]
        constructor
        · rintro ⟨t, ht, -, hkt⟩
          rw [(hbefore t ht).1] at hkt
          cases hkt
        · rintro ⟨t, ht, -, hkt⟩
          cases ht
          cases hkt
          exact absurd rfl hkk
      · rw [ha.slot_other _ hx]
  · exact forall_slots_of_changed ha.slot ha.slot_other (fun _ => rfl) hc.keyed
  · rw [ha.free]
    exact hc.free_nodup.sublist (List.tail_sublist _)
  · intro i
    rw [ha.mem_free, hc.mem_free_iff]
    by_cases hi : i = h.index
    · subst hi
      rw [ha.slot]
      simp
    · rw [ha.slot_other _ hi]
      simp [hi]
  · exact forall_slots_of_changed ha.slot ha.slot_other ha.generation_lt hc.generation_lt

/-- All that reserving a key does. -/
theorem reserve_cases (hc : g.Consistent) (key : String) :
    (g.handleOf? key = some (g.reserve key).2 ∧ (g.reserve key).1 = g) ∨
      (g.handleOf? key = none ∧ Allocated g key (g.reserve key).1 (g.reserve key).2) := by
  unfold Graph.reserve
  split
  · rename_i h hk
    exact Or.inl ⟨hk, rfl⟩
  · rename_i hk
    exact Or.inr ⟨hk, hc.allocated key⟩

theorem reserve (hc : g.Consistent) (key : String) : (g.reserve key).1.Consistent := by
  rcases hc.reserve_cases key with ⟨-, he⟩ | ⟨hk, ha⟩
  · rwa [he]
  · exact hc.of_allocated hk ha

theorem handleOf?_reserve (hc : g.Consistent) (key : String) :
    (g.reserve key).1.handleOf? key = some (g.reserve key).2 := by
  rcases hc.reserve_cases key with ⟨hk, he⟩ | ⟨hk, ha⟩
  · rwa [he]
  · rw [handleOf?, ha.keys, Table.get?_insert_self]

end Consistent

theorem Allocated.get?_eq {key : String} (ha : Allocated g key g' h) (x : Handle) :
    g'.get? x = g.get? x := by
  by_cases hx : x.index = h.index
  · have hnew : g'.get? x = none := by
      by_cases hg : h.generation = x.generation
      · exact get?_of_slot (hx ▸ ha.slot) hg
      · exact get?_of_generation_ne (hx ▸ ha.slot) hg
    rw [hnew]
    cases hs : g.slots[x.index]? with
    | none => exact (get?_of_no_slot hs).symm
    | some s =>
      have he := ha.slot_before s (hx ▸ hs)
      by_cases hg : s.generation = x.generation
      · rw [get?_of_slot hs hg, he]
      · exact (get?_of_generation_ne hs hg).symm
  · exact get?_of_slot_eq (ha.slot_other _ hx)

/-- Reserving a key changes no block. -/
theorem Consistent.get?_reserve (hc : g.Consistent) (key : String) (x : Handle) :
    (g.reserve key).1.get? x = g.get? x := by
  rcases hc.reserve_cases key with ⟨-, he⟩ | ⟨-, ha⟩
  · rw [he]
  · exact ha.get?_eq x

/-! ### Created blocks -/

namespace Consistent

theorem getElem?_fill (g : Graph) (h : Handle) (b : Block) (j : Nat) :
    (g.fill h b).slots[j]? = if h.index = j then
      g.slots[j]?.map fun s => { s with block := some { b with handle := h } } else g.slots[j]? :=
  getElem?_modifySlot g h.index j _

theorem fill (hc : g.Consistent) (hk : g.handleOf? b.key = some h) (hn : g.get? h = none) :
    (g.fill h b).Consistent := by
  obtain ⟨s, hs, hg, hkey⟩ := (hc.handleOf?_iff _ _).1 hk
  have hb : s.block = none := by rw [← get?_of_slot hs hg, hn]
  have hself : (g.fill h b).slots[h.index]? =
      some { s with block := some { b with handle := h } } := by
    rw [getElem?_fill, if_pos rfl, hs]
    rfl
  have hother : ∀ j, j ≠ h.index → (g.fill h b).slots[j]? = g.slots[j]? := fun j hj => by
    rw [getElem?_fill, if_neg (Ne.symm hj)]
  constructor
  · have hcount := countP_modifySlot (fun s => s.block.isSome)
      (fun s : Slot => { s with block := some { b with handle := h } }) hs
    simp only [hb, Option.isSome_none, Bool.toNat_false, Nat.add_zero, Option.isSome_some,
      Bool.toNat_true] at hcount
    exact (congrArg (· + 1) hc.size_eq).trans hcount.symm
  · intro key x
    refine (hc.handleOf?_iff key x).trans ?_
    by_cases hx : x.index = h.index
    · rw [hx, hself, hs]
      simp
    · rw [hother _ hx]
  · refine forall_slots_of_changed hself hother (fun hn => ?_) hc.keyed
    -- the slot keeps its key
    rw [hkey] at hn
    cases hn
  · exact hc.free_nodup
  · intro i
    refine (hc.mem_free_iff i).trans ?_
    by_cases hi : i = h.index
    · subst hi
      rw [hself, hs]
      simp [hkey]
    · rw [hother _ hi]
  · exact forall_slots_of_changed hself hother (hc.generation_lt _ s hs) hc.generation_lt

/-- Creating a block reserves its key and fills the slot, unless there is a block already. -/
theorem create_eq (hc : g.Consistent) (b : Block) :
    g.create b = if g.contains (g.reserve b.key).2 then (g, (g.reserve b.key).2)
      else ((g.reserve b.key).1.fill (g.reserve b.key).2 b, (g.reserve b.key).2) := by
  unfold Graph.create Graph.reserve
  cases hk : g.handleOf? b.key with
  | some h => rfl
  | none =>
    have hn : g.contains (g.allocate b.key).2 = false := by
      unfold contains
      rw [← (hc.allocated b.key).get?_eq, get?_of_slot (hc.allocated b.key).slot rfl]
      rfl
    simp [hn]

theorem create (hc : g.Consistent) (b : Block) : (g.create b).1.Consistent := by
  rw [hc.create_eq]
  split
  · exact hc
  · rename_i hn
    refine (hc.reserve b.key).fill (hc.handleOf?_reserve b.key) ?_
    rw [hc.get?_reserve]
    exact Option.not_isSome_iff_eq_none.1 hn

end Consistent

/-! ### Labels -/

namespace Labelled

theorem reset (hl : g.Labelled) : ({ g with procedures := none } : Graph).Labelled :=
  ⟨hl.handle_eq, hl.key_eq⟩

/-- Blocks are labelled if every block comes from a labelled one in the same slot. -/
theorem of_slots (hl : g.Labelled)
    (hslot : ∀ (i : Nat) (s' : Slot) (b' : Block), g'.slots[i]? = some s' → s'.block = some b' →
      ∃ s b, g.slots[i]? = some s ∧ s.block = some b ∧ s'.generation = s.generation ∧
        s'.key = s.key ∧ b'.handle = b.handle ∧ b'.key = b.key) : g'.Labelled := by
  constructor
  · intro i s' b' hs' hb'
    obtain ⟨s, b, hs, hb, hg, -, hh, -⟩ := hslot i s' b' hs' hb'
    rw [hh, hl.handle_eq i s b hs hb, hg]
  · intro i s' b' hs' hb'
    obtain ⟨s, b, hs, hb, -, hk, -, hbk⟩ := hslot i s' b' hs' hb'
    rw [hk, hl.key_eq i s b hs hb, hbk]

theorem modify (hl : g.Labelled) (h : Handle) {f : Block → Block} (hf : KeepsLabels f) :
    (g.modify h f).Labelled := by
  refine hl.of_slots fun i s' b' hs' hb' => ?_
  rw [getElem?_modify] at hs'
  obtain ⟨s, hs, rfl⟩ := Option.map_eq_some_iff.1 hs'
  split at hb'
  · rename_i hi
    obtain ⟨b, hb, rfl⟩ := Option.map_eq_some_iff.1 hb'
    rw [if_pos hi]
    exact ⟨s, b, hs, hb, rfl, rfl, (hf b).1, (hf b).2⟩
  · rename_i hi
    rw [if_neg hi]
    exact ⟨s, b', hs, hb', rfl, rfl, rfl, rfl⟩

theorem vacate (hl : g.Labelled) (hv : g.vacate h = some (g', b)) : g'.Labelled := by
  refine hl.of_slots fun i s' b' hs' hb' => ?_
  rw [getElem?_vacate hv] at hs'
  split at hs'
  · obtain ⟨s, -, rfl⟩ := Option.map_eq_some_iff.1 hs'
    cases hb'
  · exact ⟨s', b', hs', hb', rfl, rfl, rfl, rfl⟩

theorem reserve (hc : g.Consistent) (hl : g.Labelled) (key : String) :
    (g.reserve key).1.Labelled := by
  rcases hc.reserve_cases key with ⟨-, he⟩ | ⟨-, ha⟩
  · rwa [he]
  · refine hl.of_slots fun i s' b' hs' hb' => ?_
    by_cases hi : i = (g.reserve key).2.index
    · rw [hi, ha.slot] at hs'
      cases hs'
      cases hb'
    · rw [ha.slot_other i hi] at hs'
      exact ⟨s', b', hs', hb', rfl, rfl, rfl, rfl⟩

theorem fill (hc : g.Consistent) (hl : g.Labelled) (hk : g.handleOf? b.key = some h) :
    (g.fill h b).Labelled := by
  obtain ⟨s, hs, hg, hkey⟩ := (hc.handleOf?_iff _ _).1 hk
  have hslot : ∀ (i : Nat) (s' : Slot) (b' : Block), (g.fill h b).slots[i]? = some s' →
      s'.block = some b' → b'.handle = ⟨i, s'.generation⟩ ∧ s'.key = some b'.key := by
    intro i s' b' hs' hb'
    rw [Consistent.getElem?_fill] at hs'
    split at hs'
    · rename_i hi
      subst hi
      rw [hs] at hs'
      cases hs'
      cases hb'
      exact ⟨by rw [hg], hkey⟩
    · exact ⟨hl.handle_eq i s' b' hs' hb', hl.key_eq i s' b' hs' hb'⟩
  exact ⟨fun i s b hs hb => (hslot i s b hs hb).1, fun i s b hs hb => (hslot i s b hs hb).2⟩

theorem create (hc : g.Consistent) (hl : g.Labelled) (b : Block) : (g.create b).1.Labelled := by
  rw [hc.create_eq]
  split
  · exact hl
  · exact fill (hc.reserve b.key) (reserve hc hl b.key) (hc.handleOf?_reserve b.key)

end Labelled

/-! ### Histories -/

theorem Consistent.apply (hc : g.Consistent) (op : Operation) : (g.apply op).Consistent := by
  cases op with
  | reserve key => exact hc.reserve key
  | create b => exact hc.create b
  | delete h =>
    exact delete_induction (fun _ _ _ _ hg => hg.modify _ _) (fun _ _ _ _ hv hg => hg.vacate hv)
      (fun _ hg => hg.reset) hc h
  | move h place => exact move_induction (fun _ _ _ _ hg => hg.modify _ _) hc h place
  | edit h f => exact hc.modify h f

/-- **Every history leads to a consistent arena.** -/
theorem consistent_run (ops : List Operation) : (empty.run ops).Consistent :=
  run_induction (Q := fun _ => True) (fun _ op _ hg => hg.apply op) (fun _ _ => trivial)
    consistent_empty

theorem Labelled.apply (hc : g.Consistent) (hl : g.Labelled) {op : Operation}
    (hop : op.KeepsLabels) : (g.apply op).Labelled := by
  cases op with
  | reserve key => exact Labelled.reserve hc hl key
  | create b => exact Labelled.create hc hl b
  | delete h =>
    exact delete_induction (fun _ _ _ hf hg => hg.modify _ hf.keepsLabels)
      (fun _ _ _ _ hv hg => hg.vacate hv) (fun _ hg => hg.reset) hl h
  | move h place => exact move_induction (fun _ _ _ hf hg => hg.modify _ hf.keepsLabels) hl h place
  | edit h f => exact hl.modify h hop

theorem labelled_run {ops : List Operation} (hops : ∀ op ∈ ops, op.KeepsLabels) :
    (empty.run ops).Labelled :=
  (run_induction (P := fun g => g.Consistent ∧ g.Labelled)
    (fun _ op hop hg => ⟨hg.1.apply op, hg.2.apply hg.1 hop⟩) hops
    ⟨consistent_empty, labelled_empty⟩).2

theorem Consistent.index_reserve_lt (hc : g.Consistent) (key : String) :
    (g.reserve key).2.index < (g.reserve key).1.slots.size :=
  (hc.reserve key).lt_of_handleOf? (hc.handleOf?_reserve key)

theorem Consistent.create_snd (hc : g.Consistent) (b : Block) :
    (g.create b).2 = (g.reserve b.key).2 := by
  rw [hc.create_eq]
  split <;> rfl

/-- **The representation invariant.** After every history whose edits leave handles and keys alone,
slots, free list, key table and counter agree, no two slots hold the same key, and blocks carry the
handle and the key of their slot. So the slots that allocating and creating go to are there, and
keys in use and their handles find each other. -/
theorem arena_of_run {ops : List Operation} (hops : ∀ op ∈ ops, op.KeepsLabels) :
    (empty.run ops).Consistent ∧ (empty.run ops).Labelled ∧
      (∀ (i j : Nat) (s t : Slot) (key : String), (empty.run ops).slots[i]? = some s →
        (empty.run ops).slots[j]? = some t → s.key = some key → t.key = some key → i = j) ∧
      (∀ i ∈ (empty.run ops).free, i < (empty.run ops).slots.size) ∧
      (∀ key, ((empty.run ops).reserve key).2.index <
        ((empty.run ops).reserve key).1.slots.size) ∧
      (∀ b, ((empty.run ops).create b).2 = ((empty.run ops).reserve b.key).2) ∧
      ∀ key h, (empty.run ops).handleOf? key = some h ↔ (empty.run ops).keyOf? h = some key := by
  have hc := consistent_run ops
  refine ⟨hc, labelled_run hops, ?_, ?_, hc.index_reserve_lt, hc.create_snd,
    hc.handleOf?_eq_some_iff⟩
  · intro i j s t key hs ht hks hkt
    exact hc.slot_unique hs ht hks hkt
  · intro i hi
    exact hc.lt_of_mem_free hi

/-- A key is reserved, a block comes and goes, and another one is put into its slot and edited. -/
def reuse : List Operation :=
  [.reserve "later", .create (.detached "first" (.event .whenFlagClicked)), .delete ⟨1, 0⟩,
    .create (.detached "second" (.control .forever)),
    .edit ⟨1, 1⟩ fun b => { b with next := some ⟨0, 0⟩ }]

theorem arena_of_reuse :
    (∀ op ∈ reuse, op.KeepsLabels) ∧ (empty.run reuse).Consistent ∧ (empty.run reuse).Labelled ∧
      (empty.run reuse).handleOf? "second" = some ⟨1, 1⟩ ∧
      (empty.run reuse).keyOf? ⟨1, 1⟩ = some "second" := by
  have hops : ∀ op ∈ reuse, op.KeepsLabels := by
    simp [reuse, Operation.KeepsLabels, KeepsLabels]
  have h := arena_of_run hops
  have hk : (empty.run reuse).handleOf? "second" = some ⟨1, 1⟩ := rfl
  exact ⟨hops, h.1, h.2.1, hk, (h.2.2.2.2.2.2 _ _).1 hk⟩

end Stagecraft.Graph
