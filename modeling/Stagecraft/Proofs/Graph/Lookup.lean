import Stagecraft.Graph.Edit

/-!
# Look-ups after an edit

What the operations on single slots do to the slots and, through them, to the live blocks. A handle
whose generation is not that of its slot sees nothing, so an edit through one handle never shows
through another.

* `Graph.get?_modify` : an edit changes one block;
* `Graph.outline_modify` : an edit leaves generations, keys and the set of live blocks alone;
* `Graph.get?_vacate` : freeing a slot takes one block away;
* `Graph.vacate_cases` : all that freeing a slot does.
-/

namespace Stagecraft

/-! ### Outlines -/

namespace Slot

/-- A slot without the inside of its block: generation, key, and whether there is a block. -/
def outline (s : Slot) : Nat × Option String × Bool := (s.generation, s.key, s.block.isSome)

variable {s s' : Slot}

theorem generation_of_outline (ho : s.outline = s'.outline) : s.generation = s'.generation :=
  congrArg (·.1) ho

theorem key_of_outline (ho : s.outline = s'.outline) : s.key = s'.key := congrArg (·.2.1) ho

theorem block_eq_none_of_outline (ho : s.outline = s'.outline) :
    s.block = none ↔ s'.block = none := by
  have hb : s.block.isSome = s'.block.isSome := congrArg (·.2.2) ho
  rw [← Option.not_isSome_iff_eq_none, ← Option.not_isSome_iff_eq_none, hb]

end Slot

namespace Graph

variable {g g' : Graph} {h x : Handle} {b : Block}

/-! ### Slots and handles -/

theorem slot?_eq_some_iff {s : Slot} :
    g.slot? h = some s ↔ g.slots[h.index]? = some s ∧ s.generation = h.generation := by
  unfold slot?
  cases hs : g.slots[h.index]? with
  | none => simp
  | some s' =>
    constructor
    · intro hm
      simp only at hm
      split at hm
      · rename_i hg
        cases hm
        exact ⟨rfl, hg⟩
      · cases hm
    · rintro ⟨hs', hg⟩
      cases hs'
      exact if_pos hg

theorem get?_eq_some_iff :
    g.get? h = some b ↔
      ∃ s, g.slots[h.index]? = some s ∧ s.generation = h.generation ∧ s.block = some b := by
  simp only [get?, Option.bind_eq_some_iff, slot?_eq_some_iff, and_assoc]

theorem contains_iff : g.contains h = true ↔ ∃ b, g.get? h = some b := Option.isSome_iff_exists

theorem contains_of_get? (hb : g.get? h = some b) : g.contains h = true := contains_iff.2 ⟨b, hb⟩

/-- The handles of all slots. -/
def handles (g : Graph) : List Handle := g.slots.toList.zipIdx.map fun e => ⟨e.2, e.1.generation⟩

/-- Every live block has one of them. -/
theorem mem_handles (hb : g.get? h = some b) : h ∈ g.handles := by
  obtain ⟨s, hs, hg, -⟩ := get?_eq_some_iff.1 hb
  rw [← Array.getElem?_toList] at hs
  exact List.mem_map.2 ⟨(s, h.index), List.mem_zipIdx_iff_getElem?.2 hs, by rw [hg]⟩

/-- Live blocks and the keys of handles depend on the slots only. -/
theorem slot?_congr (hs : g'.slots = g.slots) (x : Handle) : g'.slot? x = g.slot? x := by
  unfold slot?
  rw [hs]

theorem get?_congr (hs : g'.slots = g.slots) (x : Handle) : g'.get? x = g.get? x := by
  unfold get?
  rw [slot?_congr hs]

theorem getElem?_modifySlot (g : Graph) (i j : Nat) (f : Slot → Slot) :
    (g.modifySlot i f).slots[j]? = if i = j then g.slots[j]?.map f else g.slots[j]? :=
  Array.getElem?_modify

/-- Changing a slot splits the slots around it. -/
theorem exists_split_modifySlot {i : Nat} {s : Slot} (hs : g.slots[i]? = some s)
    (f : Slot → Slot) :
    ∃ l₁ l₂, g.slots.toList = l₁ ++ s :: l₂ ∧
      (g.modifySlot i f).slots.toList = l₁ ++ f s :: l₂ := by
  have hs' : g.slots.toList[i]? = some s := by simpa using hs
  have hi : i < g.slots.toList.length := (List.getElem?_eq_some_iff.1 hs').1
  obtain ⟨l₁, a, l₂, hl, hlen, hm⟩ := List.exists_of_modify f hi
  have ha : a = s := by
    rw [hl, List.getElem?_append_right (by omega), hlen] at hs'
    simpa using hs'
  subst ha
  refine ⟨l₁, l₂, hl, ?_⟩
  rw [modifySlot, Array.toList_modify, hm]

/-- A handle with another generation does not see a block. -/
theorem get?_of_generation_ne {s : Slot} (hs : g.slots[h.index]? = some s)
    (hg : s.generation ≠ h.generation) : g.get? h = none := by
  cases hb : g.get? h with
  | none => rfl
  | some b =>
    obtain ⟨s', hs', hg', -⟩ := get?_eq_some_iff.1 hb
    rw [hs] at hs'
    cases hs'
    exact absurd hg' hg

/-- The block of a handle with the right generation is the block of its slot. -/
theorem get?_of_slot {s : Slot} (hs : g.slots[h.index]? = some s)
    (hg : s.generation = h.generation) : g.get? h = s.block := by
  unfold get?
  rw [slot?_eq_some_iff.2 ⟨hs, hg⟩]
  rfl

/-- What is not in a slot is not live. -/
theorem get?_of_no_slot (hs : g.slots[h.index]? = none) : g.get? h = none := by
  unfold get? slot?
  rw [hs]
  rfl

/-- Look-ups agree where the slots do. -/
theorem get?_of_slot_eq (hs : g'.slots[h.index]? = g.slots[h.index]?) : g'.get? h = g.get? h := by
  unfold get? slot?
  rw [hs]

/-! ### Edits of a block -/

theorem getElem?_modify (g : Graph) (h : Handle) (f : Block → Block) (j : Nat) :
    (g.modify h f).slots[j]? = g.slots[j]?.map fun s =>
      if j = h.index ∧ s.generation = h.generation then { s with block := s.block.map f }
      else s := by
  have hslot : ({ g with procedures := none } : Graph).slot? h = g.slot? h := slot?_congr rfl h
  unfold modify
  simp only [hslot]
  split
  · rename_i s hs
    obtain ⟨hs, hg⟩ := slot?_eq_some_iff.1 hs
    rw [getElem?_modifySlot]
    by_cases hj : h.index = j
    · subst hj
      simp [hs, hg]
    · simp [hj, Ne.symm hj]
  · rename_i hn
    cases hj : g.slots[j]? with
    | none => simp
    | some s =>
      have : ¬(j = h.index ∧ s.generation = h.generation) := by
        rintro ⟨rfl, hg⟩
        rw [slot?_eq_some_iff.2 ⟨hj, hg⟩] at hn
        cases hn
      simp [this]

/-- **An edit changes one block.** -/
theorem get?_modify (g : Graph) (h : Handle) (f : Block → Block) (x : Handle) :
    (g.modify h f).get? x = if x = h then (g.get? x).map f else g.get? x := by
  have hm := getElem?_modify g h f x.index
  cases hs : g.slots[x.index]? with
  | none =>
    rw [hs] at hm
    simp [get?_of_no_slot hs, get?_of_no_slot hm]
  | some s =>
    rw [hs, Option.map_some] at hm
    by_cases hg : s.generation = x.generation
    · by_cases hx : x = h
      · subst hx
        rw [if_pos ⟨rfl, hg⟩] at hm
        rw [get?_of_slot hm hg, get?_of_slot hs hg, if_pos rfl]
      · have : ¬(x.index = h.index ∧ s.generation = h.generation) := by
          rintro ⟨hi, hgh⟩
          exact hx (Handle.ext hi (hg.symm.trans hgh))
        rw [if_neg this] at hm
        rw [get?_of_slot hm hg, get?_of_slot hs hg, if_neg hx]
    · -- an edit keeps the generation, so the handle is as blind as before
      have hg' : ∀ f : Block → Block, (if x.index = h.index ∧ s.generation = h.generation then
          { s with block := s.block.map f } else s).generation ≠ x.generation := by
        intro f
        split <;> exact hg
      rw [get?_of_generation_ne hm (hg' f), get?_of_generation_ne hs hg]
      simp

theorem keyOf?_modify (g : Graph) (h : Handle) (f : Block → Block) (x : Handle) :
    (g.modify h f).keyOf? x = g.keyOf? x := by
  have hm := getElem?_modify g h f x.index
  unfold keyOf? slot?
  rw [hm]
  cases g.slots[x.index]? with
  | none => rfl
  | some s =>
    simp only [Option.map_some]
    split <;> split <;> rfl

@[simp] theorem contains_modify (g : Graph) (h : Handle) (f : Block → Block) (x : Handle) :
    (g.modify h f).contains x = g.contains x := by
  unfold contains
  rw [get?_modify]
  split <;> simp

@[simp] theorem size_modify (g : Graph) (h : Handle) (f : Block → Block) :
    (g.modify h f).size = g.size := by
  unfold modify
  simp only
  split <;> rfl

@[simp] theorem keys_modify (g : Graph) (h : Handle) (f : Block → Block) :
    (g.modify h f).keys = g.keys := by
  unfold modify
  simp only
  split <;> rfl

@[simp] theorem free_modify (g : Graph) (h : Handle) (f : Block → Block) :
    (g.modify h f).free = g.free := by
  unfold modify
  simp only
  split <;> rfl

/-! ### What an edit leaves alone -/

theorem exists_of_outline {s : Slot} {i : Nat}
    (hout : g'.slots.map Slot.outline = g.slots.map Slot.outline) (hs : g'.slots[i]? = some s) :
    ∃ s', g.slots[i]? = some s' ∧ s'.outline = s.outline := by
  have hi := congrArg (·[i]?) hout
  simp only [Array.getElem?_map, hs, Option.map_some] at hi
  obtain ⟨s', hs', ho⟩ := Option.map_eq_some_iff.1 hi.symm
  exact ⟨s', hs', ho⟩

/-- An edit leaves all outlines alone. -/
theorem outline_modify (g : Graph) (h : Handle) (f : Block → Block) :
    (g.modify h f).slots.map Slot.outline = g.slots.map Slot.outline := by
  apply Array.ext_getElem?
  intro i
  rw [Array.getElem?_map, getElem?_modify, Array.getElem?_map, Option.map_map]
  congr 1
  funext s
  simp only [Function.comp_apply, Slot.outline]
  split <;> simp

/-! ### Freeing a slot -/

/-- **All that freeing a slot does.** -/
theorem vacate_cases (hv : g.vacate h = some (g', b)) :
    ∃ s, g.slots[h.index]? = some s ∧ s.generation = h.generation ∧ s.block = some b ∧
      g' = { g.modifySlot h.index Slot.freed with
        free := h.index :: g.free
        keys := match s.key with
          | some key => g.keys.erase key
          | none => g.keys
        size := g.size - 1 } := by
  unfold vacate at hv
  split at hv
  · rename_i s hs
    obtain ⟨hs, hg⟩ := slot?_eq_some_iff.1 hs
    split at hv
    · rename_i b' hb
      simp only [Option.some.injEq, Prod.mk.injEq] at hv
      obtain ⟨rfl, rfl⟩ := hv
      exact ⟨s, hs, hg, hb, rfl⟩
    · cases hv
  · cases hv

/-- A slot can be freed through a handle exactly if there is a live block. -/
theorem vacate_eq_none_iff : g.vacate h = none ↔ g.get? h = none := by
  unfold vacate get?
  cases g.slot? h with
  | none => simp
  | some s => cases hb : s.block <;> simp [hb]

theorem get?_of_vacate (hv : g.vacate h = some (g', b)) : g.get? h = some b := by
  obtain ⟨s, hs, hg, hb, -⟩ := vacate_cases hv
  exact get?_eq_some_iff.2 ⟨s, hs, hg, hb⟩

theorem getElem?_vacate (hv : g.vacate h = some (g', b)) (j : Nat) :
    g'.slots[j]? = if h.index = j then g.slots[j]?.map Slot.freed else g.slots[j]? := by
  obtain ⟨s, -, -, -, rfl⟩ := vacate_cases hv
  exact getElem?_modifySlot g h.index j Slot.freed

/-- **Freeing a slot takes one block away.** -/
theorem get?_vacate (hv : g.vacate h = some (g', b)) (x : Handle) :
    g'.get? x = if x = h then none else g.get? x := by
  have hj := getElem?_vacate hv x.index
  obtain ⟨s, hs, hg, hb, -⟩ := vacate_cases hv
  by_cases hi : h.index = x.index
  · rw [if_pos hi, ← hi, hs, Option.map_some, hi] at hj
    -- the slot is empty now, so no generation sees a block there
    have hn : g'.get? x = none := by
      by_cases hx : s.freed.generation = x.generation
      · exact get?_of_slot hj hx
      · exact get?_of_generation_ne hj hx
    rw [hn]
    split
    · rfl
    · rename_i hx
      rw [hi] at hs
      refine (get?_of_generation_ne hs fun h' => hx ?_).symm
      exact Handle.ext hi.symm (h'.symm.trans hg)
  · rw [if_neg hi] at hj
    rw [get?_of_slot_eq hj, if_neg (fun hx => hi (by rw [hx]))]

/-- Freeing a slot takes the key of one handle away. -/
theorem keyOf?_vacate (hv : g.vacate h = some (g', b)) (hx : x ≠ h) : g'.keyOf? x = g.keyOf? x := by
  have hslot := getElem?_vacate hv x.index
  obtain ⟨s, hs, hg, -, -⟩ := vacate_cases hv
  unfold keyOf? slot?
  rw [hslot]
  by_cases hi : h.index = x.index
  · -- the other handles to the slot were stale, and the slot has no key any more
    have hstale : s.generation ≠ x.generation := fun hsx =>
      hx (Handle.ext hi.symm (hsx.symm.trans hg))
    rw [if_pos hi, ← hi, hs]
    simp only [Option.map_some, if_neg hstale, Option.bind_none]
    split <;> rfl
  · rw [if_neg hi]

end Graph

end Stagecraft
