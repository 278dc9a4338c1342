import Stagecraft.Proofs.Pace.Load
import Mathlib.Data.List.Forall2

/-!
# Programs survive being saved

Loading a program reserves the keys of the file in order, so the `i`-th block of the file has the
`i`-th slot before any block is created. A link that leads nowhere reserves a key too, which gets a
slot behind all of these. No key is ever given up while a program is loaded, so what a block was
loaded from can be told from the keys of the finished program.

* `Graph.Loading` : how far the loading of a file has come;
* `Graph.loading_loadBlock` : loading one more block takes it one step on;
* `Graph.toSaved_ofSaved` : **what was loaded is saved as it was**.
-/

namespace Stagecraft.Graph

variable {g g' g'' : Graph}

/-! ### Keys that stay -/

/-- Every handle that has a key keeps it. -/
def Extends (g g' : Graph) : Prop := ∀ h key, g.keyOf? h = some key → g'.keyOf? h = some key

theorem Extends.refl (g : Graph) : Extends g g := fun _ _ h => h

theorem Extends.trans (h : Extends g g') (h' : Extends g' g'') : Extends g g'' :=
  fun x key hk => h' x key (h x key hk)

namespace Consistent

theorem extends_reserve (hc : g.Consistent) (key : String) : Extends g (g.reserve key).1 := by
  intro h k hk
  rcases hc.reserve_cases key with ⟨-, he⟩ | ⟨hnone, ha⟩
  · rwa [he]
  · have hne : k ≠ key := by
      rintro rfl
      rw [(hc.handleOf?_eq_some_iff k h).2 hk] at hnone
      cases hnone
    rw [← (hc.reserve key).handleOf?_eq_some_iff, handleOf?, ha.keys, Table.get?_insert_of_ne _ hne]
    exact (hc.handleOf?_eq_some_iff k h).2 hk

theorem keyOf?_reserve (hc : g.Consistent) (key : String) :
    (g.reserve key).1.keyOf? (g.reserve key).2 = some key :=
  ((hc.reserve key).handleOf?_eq_some_iff _ _).1 (hc.handleOf?_reserve key)

end Consistent

/-! ### How far loading has come -/

/-- A slot holds a block that is saved under its key as it was, whatever comes after. -/
structure Holds (g : Graph) (s : Slot) (e : String × SavedBlock) : Prop where
  generation : s.generation = 0
  key : s.key = some e.1
  block : ∃ b, s.block = some b ∧ b.key = e.1 ∧ ∀ g', Extends g g' → g'.saveBlock b = e.2

theorem Holds.later {s : Slot} {e : String × SavedBlock} (h : Holds g s e) (hg : Extends g g') :
    Holds g' s e := by
  obtain ⟨b, hb, hk, hsave⟩ := h.block
  exact ⟨h.generation, h.key, b, hb, hk, fun g'' hg' => hsave g'' (hg.trans hg')⟩

/-- The slot of a key whose block has not come. -/
def reserved (key : String) : Slot := ⟨0, some key, none⟩

/-- A program into which the blocks `done` of a file were loaded and `todo` are still to come: their
slots are in the order of the file, and behind them are those of keys without blocks. -/
structure Loading (g : Graph) (done todo : List (String × SavedBlock)) : Prop where
  consistent : g.Consistent
  free : g.free = []
  slots : ∃ filled spare, g.slots.toList = filled ++ todo.map (fun e => reserved e.1) ++ spare ∧
    List.Forall₂ (Holds g) filled done ∧ ∀ s ∈ spare, s.block = none

variable {done todo : List (String × SavedBlock)}

/-- As long as no slot was freed, a new key gets a new slot at the end. -/
theorem reserve_of_none {key : String} (hfree : g.free = []) (hk : g.handleOf? key = none) :
    (g.reserve key).1 = { g with
      slots := g.slots.push (reserved key)
      keys := g.keys.insert key ⟨g.slots.size, 0⟩ } := by
  simp only [Graph.reserve, hk, allocate, hfree]
  rfl

theorem Loading.reserve (hl : Loading g done todo) (key : String) :
    Loading (g.reserve key).1 done todo := by
  have hc := hl.consistent
  cases hk : g.handleOf? key with
  | some h =>
    have he : (g.reserve key).1 = g := by simp only [Graph.reserve, hk]
    rwa [he]
  | none =>
    obtain ⟨filled, spare, hslots, hfilled, hspare⟩ := hl.slots
    have he := reserve_of_none hl.free hk
    refine ⟨hc.reserve key, ?_, filled, spare ++ [reserved key], ?_, ?_, ?_⟩
    · rw [he]
      exact hl.free
    · rw [he, Array.toList_push, hslots, List.append_assoc]
    · exact hfilled.imp fun _ _ h => h.later (hc.extends_reserve key)
    · intro s hs
      rcases List.mem_append.1 hs with hs | hs
      · exact hspare s hs
      · rw [List.mem_singleton.1 hs]
        rfl

/-! ### Links -/

/-- Turning a link of a file into a handle keeps to the loading, and the key can be told again. -/
theorem Loading.reserve? (hl : Loading g done todo) (key : Option String) :
    Loading (g.reserve? key).1 done todo ∧ Extends g (g.reserve? key).1 ∧
      ∀ g', Extends (g.reserve? key).1 g' → (g.reserve? key).2.bind g'.keyOf? = key := by
  cases key with
  | none => exact ⟨hl, .refl g, fun _ _ => rfl⟩
  | some key =>
    exact ⟨hl.reserve key, hl.consistent.extends_reserve key,
      fun g' hg' => hg' _ _ (hl.consistent.keyOf?_reserve key)⟩

theorem Loading.loadInput (hl : Loading g done todo) (saved : SavedInput) :
    Loading (g.loadInput saved).1 done todo ∧ Extends g (g.loadInput saved).1 ∧
      ∀ g', Extends (g.loadInput saved).1 g' →
        g'.saveInput? (g.loadInput saved).2 = some saved := by
  have hreserve (key : String) : ∀ g', Extends (g.reserve key).1 g' →
      g'.keyOf? (g.reserve key).2 = some key := fun g' hg' =>
    hg' _ _ (hl.consistent.keyOf?_reserve key)
  cases saved with
  | literal v => exact ⟨hl, .refl g, fun _ _ => rfl⟩
  | reporter key | branch key =>
    refine ⟨hl.reserve key, hl.consistent.extends_reserve key, fun g' hg' => ?_⟩
    simp only [Graph.loadInput, saveInput?, hreserve key g' hg', Option.map_some]

/-- The inputs of a block as they are saved. -/
def savedRows (g : Graph) (inputs : Table String Input) : List (String × SavedInput) :=
  inputs.entries.filterMap fun e => (g.saveInput? e.2).map fun input => (e.1, input)

/-- Inputs are loaded in order behind those already there, by induction on what is left to load. -/
theorem Loading.loadInputs (saved : List (String × SavedInput)) :
    ∀ {g : Graph} (inputs : Table String Input), Loading g done todo →
      (inputs.keys ++ saved.map (·.1)).Nodup →
      Loading (g.loadInputs saved inputs).1 done todo ∧ Extends g (g.loadInputs saved inputs).1 ∧
        ∀ g', Extends (g.loadInputs saved inputs).1 g' →
          g'.savedRows (g.loadInputs saved inputs).2 = g'.savedRows inputs ++ saved := by
  induction saved with
  | nil => exact fun inputs hl _ => ⟨hl, .refl _, fun _ _ => (List.append_nil _).symm⟩
  | cons e rest ih =>
    intro g inputs hl hnodup
    obtain ⟨hload, hext, hsave⟩ := hl.loadInput e.2
    have hk : e.1 ∉ inputs.entries.map (·.1) := fun hmem =>
      (List.nodup_append.1 hnodup).2.2 _ hmem _ List.mem_cons_self rfl
    have hinsert : (inputs.insert e.1 (g.loadInput e.2).2).entries =
        inputs.entries ++ [(e.1, (g.loadInput e.2).2)] := Table.insertRow_of_notMem _ hk
    obtain ⟨hload', hext', hsave'⟩ := ih (inputs.insert e.1 (g.loadInput e.2).2) hload (by
      rw [Table.keys, hinsert, List.map_append, List.append_assoc]
      exact hnodup)
    refine ⟨hload', hext.trans hext', fun g' hg' => ?_⟩
    rw [Graph.loadInputs, hsave' g' hg', savedRows, hinsert, List.filterMap_append,
      List.append_assoc]
    simp [savedRows, hsave g' (hext'.trans hg')]

/-! ### Blocks -/

/-- The block that is made of a saved one. -/
def blockOf (key : String) (b : SavedBlock) (next parent : Option Handle)
    (inputs : Table String Input) : Block :=
  { Block.detached key (.ofName b.opcode) with
    next := next
    parent := parent
    inputs := inputs
    fields := b.fields
    signature := b.signature
    shadow := b.shadow
    topLevel := b.topLevel
    x := b.x
    y := b.y }

/-- A block whose links tell the keys of a saved one is saved as that. -/
theorem saveBlock_blockOf (key : String) {b : SavedBlock} {next parent : Option Handle}
    {inputs : Table String Input} (hnext : next.bind g.keyOf? = b.next)
    (hparent : parent.bind g.keyOf? = b.parent) (hinputs : g.savedRows inputs = b.inputs.entries) :
    g.saveBlock (blockOf key b next parent inputs) = b := by
  have hrows : Table.ofList (g.savedRows inputs) = b.inputs := by
    rw [hinputs, Table.ofList_entries]
  cases b
  simp only [saveBlock, blockOf, Block.detached, Opcode.name_ofName, hnext, hparent] at hrows ⊢
  rw [← hrows]
  rfl

theorem modify_at_length {α : Type} (l₁ l₂ : List α) (a : α) (f : α → α) :
    (l₁ ++ a :: l₂).modify l₁.length f = l₁ ++ f a :: l₂ := by
  rw [List.modify_eq_take_cons_drop (by simp)]
  simp

/-- The next block of a file has the slot after those that are filled. -/
theorem Loading.getElem?_next {key : String} {b : SavedBlock}
    (hl : Loading g done ((key, b) :: todo)) : g.slots[done.length]? = some (reserved key) := by
  obtain ⟨filled, spare, hslots, hfilled, -⟩ := hl.slots
  rw [← Array.getElem?_toList, hslots, ← hfilled.length_eq]
  simp

/-- Putting a block into the next slot takes the loading one step on. -/
theorem Loading.fill {key : String} {saved : SavedBlock} {b : Block}
    (hl : Loading g done ((key, saved) :: todo)) (hkey : b.key = key)
    (hsave : ∀ g' h, Extends g g' → g'.saveBlock { b with handle := h } = saved) :
    Loading (g.fill ⟨done.length, 0⟩ b) (done ++ [(key, saved)]) todo := by
  have hc := hl.consistent
  have hnext := hl.getElem?_next
  obtain ⟨filled, spare, hslots, hfilled, hspare⟩ := hl.slots
  have hhandle : g.handleOf? b.key = some ⟨done.length, 0⟩ :=
    (hc.handleOf?_iff _ _).2 ⟨_, hnext, rfl, congrArg some hkey.symm⟩
  have hfill : (g.fill ⟨done.length, 0⟩ b).Consistent :=
    hc.fill hhandle (get?_of_slot (h := ⟨done.length, 0⟩) hnext rfl)
  have hkeep : Extends g (g.fill ⟨done.length, 0⟩ b) := by
    intro x k hk
    rw [← hfill.handleOf?_eq_some_iff]
    exact (hc.handleOf?_eq_some_iff k x).2 hk
  refine ⟨hfill, hl.free,
    filled ++ [⟨0, some key, some { b with handle := ⟨done.length, 0⟩ }⟩], spare, ?_, ?_, hspare⟩
  · have hmodify : (g.fill ⟨done.length, 0⟩ b).slots.toList = g.slots.toList.modify filled.length
        fun s => { s with block := some { b with handle := ⟨done.length, 0⟩ } } := by
      rw [hfilled.length_eq]
      exact Array.toList_modify
    rw [hmodify, hslots, List.append_assoc, List.map_cons, List.cons_append, modify_at_length,
      List.append_assoc, List.append_assoc]
    rfl
  · refine List.rel_append (hfilled.imp fun _ _ h => h.later hkeep) (.cons ?_ .nil)
    exact ⟨rfl, rfl, _, rfl, hkey, fun g' hg' => hsave g' _ (hkeep.trans hg')⟩

/-- **Loading one more block.** -/
theorem loading_loadBlock {key : String} {b : SavedBlock}
    (hl : Loading g done ((key, b) :: todo)) :
    Loading (g.loadBlock key b) (done ++ [(key, b)]) todo := by
  obtain ⟨hl₁, he₁, hnext⟩ := hl.reserve? b.next
  obtain ⟨hl₂, he₂, hparent⟩ := hl₁.reserve? b.parent
  obtain ⟨hl₃, he₃, hinputs⟩ := Loading.loadInputs b.inputs.entries .empty hl₂ b.inputs.nodup
  -- the key of the block is reserved, and there is no block in its slot
  have hslot := hl₃.getElem?_next
  have hhandle := (hl₃.consistent.handleOf?_iff key ⟨done.length, 0⟩).2 ⟨_, hslot, rfl, rfl⟩
  have hnone := get?_of_slot (h := ⟨done.length, 0⟩) hslot rfl
  have hcreate : ∀ block : Block, block.key = key →
      ∀ g₃ : Graph, g₃.handleOf? key = some ⟨done.length, 0⟩ → g₃.get? ⟨done.length, 0⟩ = none →
        (g₃.create block).1 = g₃.fill ⟨done.length, 0⟩ block := by
    rintro block rfl g₃ hh hn
    simp only [Graph.create, hh, contains, hn, Option.isSome_none, Bool.false_eq_true, if_false]
  have hload := hl₃.fill (b := blockOf key b (g.reserve? b.next).2
    ((g.reserve? b.next).1.reserve? b.parent).2
    (((g.reserve? b.next).1.reserve? b.parent).1.loadInputs b.inputs.entries .empty).2) rfl
    fun g' h hg' => ?_
  · rw [← hcreate _ rfl _ hhandle hnone] at hload
    exact hload
  · exact saveBlock_blockOf key (hnext g' (he₂.trans (he₃.trans hg')))
      (hparent g' (he₃.trans hg')) (hinputs g' hg')

/-! ### Whole programs -/

/-- Keys that are not in use get a slot each, in order. -/
theorem slots_reserveAll (keys : List String) :
    ∀ {g : Graph}, g.Consistent → g.free = [] → keys.Nodup →
      (∀ key ∈ keys, g.handleOf? key = none) →
      (g.reserveAll keys).Consistent ∧ (g.reserveAll keys).free = [] ∧
        (g.reserveAll keys).slots.toList = g.slots.toList ++ keys.map reserved := by
  induction keys with
  | nil => exact fun hc hfree _ _ => ⟨hc, hfree, (List.append_nil _).symm⟩
  | cons key rest ih =>
    intro g hc hfree hnodup hnone
    have he := reserve_of_none hfree (hnone key List.mem_cons_self)
    have hrest := ih (hc.reserve key) (by rw [he]; exact hfree) (List.nodup_cons.1 hnodup).2 (by
      intro k hk
      have hne : k ≠ key := fun h => (List.nodup_cons.1 hnodup).1 (h ▸ hk)
      rw [he, handleOf?, Table.get?_insert_of_ne _ hne]
      exact hnone k (List.mem_cons_of_mem _ hk))
    refine ⟨hrest.1, hrest.2.1, hrest.2.2.trans ?_⟩
    rw [he, Array.toList_push, List.append_assoc]
    rfl

/-- The keys of a file are reserved before any of its blocks is created. -/
theorem loading_reserveAll (blocks : Table String SavedBlock) :
    Loading (empty.reserveAll blocks.keys) [] blocks.entries := by
  obtain ⟨hc, hfree, hslots⟩ := slots_reserveAll blocks.keys consistent_empty rfl blocks.nodup
    fun _ _ => rfl
  refine ⟨hc, hfree, [], [], ?_, .nil, fun s hs => by cases hs⟩
  rw [hslots, Table.keys, List.map_map, List.append_nil]
  rfl

/-- **Loading all blocks of a file**, by induction on those that are still to come. -/
theorem loading_foldl (todo : List (String × SavedBlock)) :
    ∀ {g : Graph} {done : List (String × SavedBlock)}, Loading g done todo →
      Loading (todo.foldl (fun g e => g.loadBlock e.1 e.2) g) (done ++ todo) [] := by
  induction todo with
  | nil => exact fun h => (List.append_nil _).symm ▸ h
  | cons e rest ih =>
    intro g done h
    rw [List.append_cons]
    exact ih (loading_loadBlock h)

theorem loading_ofSaved (blocks : Table String SavedBlock) :
    Loading (ofSaved blocks) blocks.entries [] :=
  loading_foldl blocks.entries (loading_reserveAll blocks)

/-- **What was loaded is saved as it was.** -/
theorem toSaved_ofSaved (blocks : Table String SavedBlock) : (ofSaved blocks).toSaved = blocks := by
  obtain ⟨filled, spare, hslots, hfilled, hspare⟩ := (loading_ofSaved blocks).slots
  have hblocks : (ofSaved blocks).blocks = filled.filterMap (·.block) := by
    rw [Graph.blocks, hslots, List.map_nil, List.append_nil, List.filterMap_append,
      List.filterMap_eq_nil_iff.2 hspare, List.append_nil]
  have hrows : ∀ {slots entries}, List.Forall₂ (Holds (ofSaved blocks)) slots entries →
      (slots.filterMap (·.block)).map (fun b => (b.key, (ofSaved blocks).saveBlock b)) =
        entries := by
    intro slots entries h
    induction h with
    | nil => rfl
    | cons h _ ih =>
      obtain ⟨b, hb, hk, hsave⟩ := h.block
      rw [List.filterMap_cons_some hb, List.map_cons, ih, hk, hsave _ (.refl _)]
  rw [toSaved, hblocks, hrows hfilled, Table.ofList_entries]

/-- The slot of the `i`-th block of a file is the `i`-th one, and it holds that block. -/
theorem slots_ofSaved (blocks : Table String SavedBlock) {i : Nat} {e : String × SavedBlock}
    (hi : blocks.entries[i]? = some e) :
    ∃ s, (ofSaved blocks).slots[i]? = some s ∧ Holds (ofSaved blocks) s e := by
  obtain ⟨filled, spare, hslots, hfilled, -⟩ := (loading_ofSaved blocks).slots
  have hlt : i < filled.length := hfilled.length_eq ▸ (List.getElem?_eq_some_iff.1 hi).1
  refine ⟨filled[i], ?_, ?_⟩
  · rw [← Array.getElem?_toList, hslots, List.map_nil, List.append_nil,
      List.getElem?_append_left hlt, List.getElem?_eq_getElem hlt]
  · obtain ⟨hlt', rfl⟩ := List.getElem?_eq_some_iff.1 hi
    exact hfilled.get hlt hlt'

/-- **A program survives being saved.** Whatever its blocks are, and wherever their links lead, the
program that is loaded from an actor's blocks is saved as the same table: the same keys in the same
order, and under each the same block. The `i`-th block of the file has the `i`-th handle of
generation zero, under which it is found by its key and saved as it was. -/
theorem ofSaved_faithful (a : SavedActor) :
    (ofSaved a.blocks).toSaved = a.blocks ∧
      ∀ (i : Nat) (key : String) (saved : SavedBlock), a.blocks.entries[i]? = some (key, saved) →
        (ofSaved a.blocks).handleOf? key = some ⟨i, 0⟩ ∧
          ∃ b, (ofSaved a.blocks).get? ⟨i, 0⟩ = some b ∧ b.handle = ⟨i, 0⟩ ∧ b.key = key ∧
            (ofSaved a.blocks).saveBlock b = saved := by
  refine ⟨toSaved_ofSaved a.blocks, fun i key saved hi => ?_⟩
  obtain ⟨s, hs, hholds⟩ := slots_ofSaved a.blocks hi
  obtain ⟨b, hb, hkey, hsave⟩ := hholds.block
  have hraw := raw_ofSaved a.blocks
  refine ⟨(hraw.consistent.handleOf?_iff key _).2 ⟨s, hs, hholds.generation, hholds.key⟩, b, ?_, ?_,
    hkey, hsave _ (.refl _)⟩
  · rw [get?_of_slot (h := ⟨i, 0⟩) hs hholds.generation, hb]
  · rw [hraw.labelled.handle_eq i s b hs hb, hholds.generation]

/-- A block of an operation that is not built in, with the links of a block after it in a circle. -/
def ringed (next : String) (inputs : List (String × SavedInput)) : SavedBlock where
  opcode := "host_ring"
  next := some next
  parent := some "first"
  inputs := .ofList inputs
  fields := .ofList [("MODE", ⟨"slow", some "m"⟩), ("KEY", ⟨"any", none⟩)]
  signature := some ⟨"ring %s", ["a"], ["by"], ["1"], true⟩
  shadow := true
  topLevel := false
  x := 1.5
  y := -0.0

/-- Two blocks in a circle. The first holds itself and plugs in a block that is missing. -/
def ring : SavedActor where
  name := "Cat"
  isStage := false
  vars := .empty
  lists := .empty
  blocks := .ofList
    [("first", ringed "second" [("B", .branch "second"), ("A", .reporter "missing")]),
      ("second", ringed "first" [("N", .literal (.text "2"))])]
  x := 0.0
  y := 0.0
  visible := true

/-- The second block has the second slot, though the missing one is named before it is created. -/
theorem ofSaved_faithful_ring :
    ring.blocks.entries[1]? = some ("second", ringed "first" [("N", .literal (.text "2"))]) ∧
      (ofSaved ring.blocks).toSaved = ring.blocks ∧
      (ofSaved ring.blocks).handleOf? "second" = some ⟨1, 0⟩ ∧
      (ofSaved ring.blocks).handleOf? "missing" = some ⟨2, 0⟩ := by
  have hi : ring.blocks.entries[1]? =
      some ("second", ringed "first" [("N", .literal (.text "2"))]) := rfl
  have h := ofSaved_faithful ring
  exact ⟨hi, h.1, (h.2 1 _ _ hi).1, rfl⟩

end Stagecraft.Graph
