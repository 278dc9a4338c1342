import Stagecraft.Proofs.Saved.Program

/-!
# What the links of a loaded program lead to

Blocks of a file refer to each other by keys, and blocks of a program by handles. Loading turns
every key into a handle that has the key from then on, whether or not there is a block under it.
So every handle in a loaded program has a key, and if there is a block under every key that the
file refers to, every handle in the program leads to that block.

* `SavedActor.Closed` : every link of an actor's blocks leads to one of its blocks;
* `Graph.Realizes` : a program whose links lead where those of a file do;
* `Graph.keyed_ofSaved` : loading leaves no handle without a key;
* `Graph.realizes_ofSaved` : **the links of a closed file lead where the file says**.
-/

namespace Stagecraft

/-! ### Links of a file -/

/-- A block of a file refers to a key. -/
def SavedBlock.Names (b : SavedBlock) (key : String) : Prop :=
  b.next = some key ∨ b.parent = some key ∨ ∃ e ∈ b.inputs.entries, e.2.key? = some key

/-- Every key that a block refers to is that of a block of the same file. -/
def ClosedBlocks (blocks : Table String SavedBlock) : Prop :=
  ∀ e ∈ blocks.entries, ∀ key, e.2.Names key → key ∈ blocks.keys

/-- Every link of an actor's blocks leads to one of its blocks. -/
def SavedActor.Closed (a : SavedActor) : Prop := ClosedBlocks a.blocks

/-! ### Links of a program -/

/-- A block refers to a handle. -/
def Block.Refers (b : Block) (h : Handle) : Prop :=
  b.next = some h ∨ b.parent = some h ∨ ∃ e ∈ b.inputs.entries, e.2.block? = some h

namespace Graph

variable {g g' g'' : Graph} {h x : Handle} {b : Block} {saved : SavedBlock} {key : String}
  {blocks : Table String SavedBlock}

/-- A handle is that of a live block with a key. -/
def LeadsTo (g : Graph) (h : Handle) (key : String) : Prop := ∃ b, g.get? h = some b ∧ b.key = key

/-- An input is what was saved; what it refers to is live and has the key that was saved. -/
inductive PluggedAs (g : Graph) : Input → SavedInput → Prop
  | literal (v : Value) : PluggedAs g (.literal v) (.literal v)
  | reporter {h : Handle} {key : String} :
      g.LeadsTo h key → PluggedAs g (.reporter h) (.reporter key)
  | branch {h : Handle} {key : String} : g.LeadsTo h key → PluggedAs g (.branch h) (.branch key)

/-- The links of a block lead to live blocks, which have the keys that were saved. -/
structure LinkedAs (g : Graph) (b : Block) (saved : SavedBlock) : Prop where
  next : Option.Rel g.LeadsTo b.next saved.next
  parent : Option.Rel g.LeadsTo b.parent saved.parent
  inputs : List.Forall₂ (fun e s => e.1 = s.1 ∧ g.PluggedAs e.2 s.2) b.inputs.entries
    saved.inputs.entries

/-- A program realizes a file. -/
structure Realizes (g : Graph) (blocks : Table String SavedBlock) : Prop where
  /-- Every block of the file is live. -/
  loaded : ∀ key ∈ blocks.keys, ∃ h, g.LeadsTo h key
  /-- No two live blocks have the same key. -/
  sole : ∀ x y key, g.LeadsTo x key → g.LeadsTo y key → x = y
  /-- Every live block is one of the file, with the links that it has there. -/
  linked : ∀ h b, g.get? h = some b → ∃ saved, blocks.get? b.key = some saved ∧ g.LinkedAs b saved
  /-- No live block refers to one that is not. -/
  present : ∀ h b, g.get? h = some b → ∀ x, b.Refers x → g.contains x = true

/-! ### Handles with keys -/

/-- Every handle that a live block refers to has a key. -/
def Keyed (g : Graph) : Prop := ∀ h b, g.get? h = some b → ∀ x, b.Refers x → (g.keyOf? x).isSome

/-- Keys were reserved; nothing else has changed. -/
structure Widened (g g' : Graph) : Prop where
  raw : g'.Raw
  keys : Extends g g'
  blocks : ∀ x, g'.get? x = g.get? x

namespace Widened

theorem trans (h : Widened g g') (h' : Widened g' g'') : Widened g g'' :=
  ⟨h'.raw, h.keys.trans h'.keys, fun x => (h'.blocks x).trans (h.blocks x)⟩

theorem isSome (h : Widened g g') (hx : (g.keyOf? x).isSome) : (g'.keyOf? x).isSome := by
  obtain ⟨key, hkey⟩ := Option.isSome_iff_exists.1 hx
  rw [h.keys x key hkey]
  rfl

theorem keyed (h : Widened g g') (hk : g.Keyed) : g'.Keyed := fun y b hb x hx =>
  h.isSome (hk y b (h.blocks y ▸ hb) x hx)

end Widened

/-! ### Loading a block -/

namespace Raw

theorem widened (hr : g.Raw) : Widened g g := ⟨hr, .refl g, fun _ => rfl⟩

theorem widened_reserve (hr : g.Raw) (key : String) :
    Widened g (g.reserve key).1 ∧ ((g.reserve key).1.keyOf? (g.reserve key).2).isSome := by
  refine ⟨⟨hr.reserve key, hr.consistent.extends_reserve key, hr.consistent.get?_reserve key⟩, ?_⟩
  rw [hr.consistent.keyOf?_reserve]
  rfl

theorem widened_reserve? (hr : g.Raw) (key : Option String) :
    Widened g (g.reserve? key).1 ∧
      ∀ x, (g.reserve? key).2 = some x → ((g.reserve? key).1.keyOf? x).isSome := by
  cases key with
  | none => exact ⟨hr.widened, fun x hx => by cases hx⟩
  | some key =>
    obtain ⟨hw, hkey⟩ := hr.widened_reserve key
    exact ⟨hw, fun x hx => Option.some.inj hx ▸ hkey⟩

theorem widened_loadInput (hr : g.Raw) (saved : SavedInput) :
    Widened g (g.loadInput saved).1 ∧
      ∀ x, (g.loadInput saved).2.block? = some x → ((g.loadInput saved).1.keyOf? x).isSome := by
  cases saved with
  | literal v => exact ⟨hr.widened, fun x hx => by cases hx⟩
  | reporter key | branch key =>
    obtain ⟨hw, hkey⟩ := hr.widened_reserve key
    exact ⟨hw, fun x hx => Option.some.inj hx ▸ hkey⟩

/-- Inputs are loaded one after the other, by induction on what is left to load. -/
theorem widened_loadInputs (saved : List (String × SavedInput)) :
    ∀ {g : Graph} (inputs : Table String Input), g.Raw →
      (∀ e ∈ inputs.entries, ∀ x, e.2.block? = some x → (g.keyOf? x).isSome) →
      Widened g (g.loadInputs saved inputs).1 ∧
        ∀ e ∈ (g.loadInputs saved inputs).2.entries, ∀ x, e.2.block? = some x →
          ((g.loadInputs saved inputs).1.keyOf? x).isSome := by
  induction saved with
  | nil => exact fun inputs hr hin => ⟨hr.widened, hin⟩
  | cons s rest ih =>
    intro g inputs hr hin
    obtain ⟨hw, hnew⟩ := hr.widened_loadInput s.2
    obtain ⟨hw', hall⟩ := ih (inputs.insert s.1 (g.loadInput s.2).2) hw.raw (by
      intro e he x hx
      rcases List.mem_cons.1 ((Table.entries_insert_perm _ _ _).mem_iff.1 he) with rfl | he
      · exact hnew x hx
      · exact hw.isSome (hin e (List.mem_of_mem_filter he) x hx))
    exact ⟨hw.trans hw', hall⟩

end Raw

/-- Filling a slot leaves keys alone. -/
theorem keyOf?_fill (g : Graph) (h : Handle) (b : Block) (x : Handle) :
    (g.fill h b).keyOf? x = g.keyOf? x := by
  unfold keyOf? slot?
  rw [Consistent.getElem?_fill]
  by_cases hi : h.index = x.index
  · rw [if_pos hi]
    cases g.slots[x.index]? with
    | none => rfl
    | some s =>
      simp only [Option.map_some]
      by_cases hg : s.generation = x.generation
      · rw [if_pos hg, if_pos hg]
        rfl
      · rw [if_neg hg, if_neg hg]
  · rw [if_neg hi]

/-- A block that is live after a slot was filled was live before, or it is the one that was put
there. -/
theorem get?_of_fill {y : Handle} {b' : Block} (hb : (g.fill h b).get? y = some b') :
    g.get? y = some b' ∨ b' = { b with handle := h } := by
  obtain ⟨s, hs, hg, hsb⟩ := get?_eq_some_iff.1 hb
  rw [Consistent.getElem?_fill] at hs
  split at hs
  · obtain ⟨t, -, rfl⟩ := Option.map_eq_some_iff.1 hs
    exact .inr (Option.some.inj hsb).symm
  · exact .inl (get?_eq_some_iff.2 ⟨s, hs, hg, hsb⟩)

/-- A block that refers to handles with keys is put into the program. -/
theorem Keyed.create (hc : g.Consistent) (hk : g.Keyed)
    (hb : ∀ x, b.Refers x → (g.keyOf? x).isSome) : (g.create b).1.Keyed := by
  rw [hc.create_eq]
  split
  · exact hk
  · intro y b' hy x hx
    have hext : (g.keyOf? x).isSome → ((g.reserve b.key).1.keyOf? x).isSome := by
      intro h
      obtain ⟨key, hkey⟩ := Option.isSome_iff_exists.1 h
      rw [hc.extends_reserve b.key x key hkey]
      rfl
    rw [keyOf?_fill]
    rcases get?_of_fill hy with hold | rfl
    · rw [hc.get?_reserve] at hold
      exact hext (hk y b' hold x hx)
    · exact hext (hb x hx)

/-- Loading a block leaves no handle without a key. -/
theorem Keyed.loadBlock (hr : g.Raw) (hk : g.Keyed) (key : String) (saved : SavedBlock) :
    (g.loadBlock key saved).Keyed := by
  obtain ⟨hw₁, hnext⟩ := hr.widened_reserve? saved.next
  obtain ⟨hw₂, hparent⟩ := hw₁.raw.widened_reserve? saved.parent
  obtain ⟨hw₃, hinputs⟩ := Raw.widened_loadInputs saved.inputs.entries .empty hw₂.raw (by
    intro e he
    cases he)
  refine Keyed.create hw₃.raw.consistent ((hw₁.trans (hw₂.trans hw₃)).keyed hk) fun x hx => ?_
  rcases hx with hx | hx | ⟨e, he, hx⟩
  · exact (hw₂.trans hw₃).isSome (hnext x hx)
  · exact hw₃.isSome (hparent x hx)
  · exact hinputs e he x hx

/-- **Loading leaves no handle without a key.** -/
theorem keyed_ofSaved (blocks : Table String SavedBlock) : (ofSaved blocks).Keyed := by
  have hreserved : (empty.reserveAll blocks.keys).Raw ∧ (empty.reserveAll blocks.keys).Keyed := by
    refine List.foldlRecOn (motive := fun g : Graph => g.Raw ∧ g.Keyed) _ _
      ⟨raw_empty, fun h b hb => ?_⟩ fun g hg key _ => ?_
    · rw [get?_of_no_slot (by simp [empty])] at hb
      cases hb
    · obtain ⟨hw, -⟩ := hg.1.widened_reserve key
      exact ⟨hw.raw, hw.keyed hg.2⟩
  exact (List.foldlRecOn (motive := fun g : Graph => g.Raw ∧ g.Keyed) _ _ hreserved
    fun g hg e _ => ⟨hg.1.loadBlock e.1 e.2, hg.2.loadBlock hg.1 e.1 e.2⟩).2

/-! ### What a block is saved as -/

/-- The names of inputs that are saved are some of those that are there, in order. -/
theorem keys_savedRows (g : Graph) (inputs : Table String Input) :
    ((g.savedRows inputs).map (·.1)).Sublist inputs.keys := by
  unfold savedRows Table.keys
  generalize inputs.entries = l
  induction l with
  | nil => exact .slnil
  | cons e rest ih =>
    cases h : g.saveInput? e.2 with
    | none =>
      rw [List.filterMap_cons_none (by rw [h]; rfl)]
      exact ih.cons _
    | some saved =>
      rw [List.filterMap_cons_some (b := (e.1, saved)) (by rw [h]; rfl)]
      exact ih.cons_cons _

theorem entries_saveBlock (g : Graph) (b : Block) :
    (g.saveBlock b).inputs.entries = g.savedRows b.inputs :=
  Table.entries_ofList ((g.keys_savedRows b.inputs).nodup b.inputs.nodup)

/-- The key of a handle that a block refers to is one that the block is saved with. -/
theorem names_saveBlock (hx : b.Refers x) (hkey : g.keyOf? x = some key) :
    (g.saveBlock b).Names key := by
  rcases hx with hx | hx | ⟨e, he, hx⟩
  · exact .inl (by rw [saveBlock, hx]; exact hkey)
  · exact .inr (.inl (by rw [saveBlock, hx]; exact hkey))
  · -- the input is saved, since what it refers to has a key
    obtain ⟨saved, hsaved, hk⟩ :
        ∃ saved, g.saveInput? e.2 = some saved ∧ saved.key? = some key := by
      cases hin : e.2 with
      | literal v =>
        rw [hin] at hx
        cases hx
      | reporter y | branch y =>
        rw [hin] at hx
        cases hx
        exact ⟨_, by rw [saveInput?, hkey]; rfl, rfl⟩
    refine .inr (.inr ⟨(e.1, saved), ?_, hk⟩)
    rw [entries_saveBlock]
    exact List.mem_filterMap.2 ⟨e, he, by rw [hsaved]; rfl⟩

/-- A link that leads to a key is saved as that key. -/
theorem rel_bind_keyOf? {link : Option Handle}
    (h : ∀ x, link = some x → ∃ key, g.keyOf? x = some key ∧ g.LeadsTo x key) :
    Option.Rel g.LeadsTo link (link.bind g.keyOf?) := by
  cases link with
  | none => exact .none
  | some x =>
    obtain ⟨key, hkey, hleads⟩ := h x rfl
    rw [Option.bind_some, hkey]
    exact .some hleads

/-- So is an input, by induction on the inputs. -/
theorem forall₂_savedRows (inputs : List (String × Input))
    (h : ∀ e ∈ inputs, ∀ x, e.2.block? = some x → ∃ key, g.keyOf? x = some key ∧ g.LeadsTo x key) :
    List.Forall₂ (fun e s => e.1 = s.1 ∧ g.PluggedAs e.2 s.2) inputs
      (inputs.filterMap fun e => (g.saveInput? e.2).map fun input => (e.1, input)) := by
  induction inputs with
  | nil => exact .nil
  | cons e rest ih =>
    have hrest := ih fun e' he' => h e' (List.mem_cons_of_mem _ he')
    have he := h e List.mem_cons_self
    obtain ⟨name, input⟩ := e
    cases input with
    | literal v => exact .cons ⟨rfl, .literal v⟩ hrest
    | reporter x =>
      obtain ⟨key, hkey, hleads⟩ := he x rfl
      rw [List.filterMap_cons_some (b := (name, .reporter key)) (by simp [saveInput?, hkey])]
      exact .cons ⟨rfl, .reporter hleads⟩ hrest
    | branch x =>
      obtain ⟨key, hkey, hleads⟩ := he x rfl
      rw [List.filterMap_cons_some (b := (name, .branch key)) (by simp [saveInput?, hkey])]
      exact .cons ⟨rfl, .branch hleads⟩ hrest

/-- **A block whose handles lead somewhere is saved with the links that it has.** -/
theorem linkedAs_saveBlock
    (h : ∀ x, b.Refers x → ∃ key, g.keyOf? x = some key ∧ g.LeadsTo x key) :
    g.LinkedAs b (g.saveBlock b) where
  next := rel_bind_keyOf? fun x hx => h x (.inl hx)
  parent := rel_bind_keyOf? fun x hx => h x (.inr (.inl hx))
  inputs := by
    rw [entries_saveBlock]
    exact forall₂_savedRows _ fun e he x hx => h x (.inr (.inr ⟨e, he, hx⟩))

/-! ### Closed files -/

/-- There is a handle for every key of the file. -/
theorem exists_leadsTo_ofSaved (hk : key ∈ blocks.keys) :
    ∃ h, (ofSaved blocks).handleOf? key = some h ∧ (ofSaved blocks).LeadsTo h key := by
  obtain ⟨e, he, rfl⟩ := List.mem_map.1 hk
  obtain ⟨i, hi⟩ := List.mem_iff_getElem?.1 he
  obtain ⟨s, hs, hholds⟩ := slots_ofSaved blocks hi
  obtain ⟨b, hb, hkey, -⟩ := hholds.block
  refine ⟨⟨i, 0⟩, ?_, b, by rw [get?_of_slot hs hholds.generation, hb], hkey⟩
  exact ((raw_ofSaved blocks).consistent.handleOf?_iff e.1 _).2
    ⟨s, hs, hholds.generation, hholds.key⟩

/-- Every handle with that key is this one. -/
theorem leadsTo_ofSaved (hk : key ∈ blocks.keys) (hx : (ofSaved blocks).keyOf? x = some key) :
    (ofSaved blocks).LeadsTo x key := by
  obtain ⟨h, hh, hleads⟩ := exists_leadsTo_ofSaved hk
  rw [((raw_ofSaved blocks).consistent.handleOf?_eq_some_iff key x).2 hx] at hh
  cases hh
  exact hleads

/-- A live block has its own key, and the handle is the only one with that. -/
theorem Raw.handleOf?_of_leadsTo (hr : g.Raw) (hx : g.LeadsTo x key) :
    g.handleOf? key = some x := by
  obtain ⟨b, hb, rfl⟩ := hx
  obtain ⟨s, hs, hg, hsb⟩ := get?_eq_some_iff.1 hb
  exact (hr.consistent.handleOf?_iff b.key x).2 ⟨s, hs, hg, hr.labelled.key_eq _ s b hs hsb⟩

/-- A live block is one of the file, and it is saved as that. -/
theorem mem_entries_of_get? (hb : (ofSaved blocks).get? h = some b) :
    (b.key, (ofSaved blocks).saveBlock b) ∈ blocks.entries := by
  obtain ⟨filled, spare, hslots, hfilled, hspare⟩ := (loading_ofSaved blocks).slots
  obtain ⟨s, hs, -, hsb⟩ := get?_eq_some_iff.1 hb
  rw [List.map_nil, List.append_nil] at hslots
  have hmem : s ∈ (ofSaved blocks).slots.toList := Array.mem_toList_iff.2 (Array.mem_of_getElem? hs)
  rw [hslots] at hmem
  rcases List.mem_append.1 hmem with hmem | hmem
  · obtain ⟨i, hi, rfl⟩ := List.getElem_of_mem hmem
    have hlt : i < blocks.entries.length := hfilled.length_eq ▸ hi
    obtain ⟨b', hb', hkey, hsave⟩ := (hfilled.get hi hlt).block
    cases hsb.symm.trans hb'
    rw [hkey, hsave _ (.refl _)]
    exact List.get_mem _ _
  · rw [hspare s hmem] at hsb
    cases hsb

theorem slots_indexed (g : Graph) : g.indexed.slots = g.slots := by
  unfold indexed
  split <;> rfl

/-- **The links of a closed file lead where the file says**, in every program with the slots of the
one that was loaded. -/
theorem realizes_ofSaved (hs : g.slots = (ofSaved blocks).slots) (hclosed : ClosedBlocks blocks) :
    g.Realizes blocks := by
  have hget : g.get? = (ofSaved blocks).get? := funext fun x => get?_congr hs x
  have hkeyOf : g.keyOf? = (ofSaved blocks).keyOf? := by
    funext x
    rw [keyOf?, slot?_congr hs]
    rfl
  have hsave : ∀ b, g.saveBlock b = (ofSaved blocks).saveBlock b := fun b => by
    simp only [saveBlock, saveInput?, hkeyOf]
  have hleads : ∀ x key, (ofSaved blocks).LeadsTo x key → g.LeadsTo x key := fun x key h => by
    rwa [LeadsTo, hget]
  have hlinks : ∀ h b, g.get? h = some b → ∀ x, b.Refers x →
      ∃ key, g.keyOf? x = some key ∧ g.LeadsTo x key := by
    intro h b hb x hx
    rw [hget] at hb
    obtain ⟨key, hkey⟩ := Option.isSome_iff_exists.1 (keyed_ofSaved blocks h b hb x hx)
    have hk := hclosed _ (mem_entries_of_get? hb) key (names_saveBlock hx hkey)
    exact ⟨key, hkeyOf ▸ hkey, hleads x key (leadsTo_ofSaved hk hkey)⟩
  refine ⟨fun key hk => ?_, fun x y key hx hy => ?_, fun h b hb => ⟨g.saveBlock b, ?_, ?_⟩,
    fun h b hb x hx => ?_⟩
  · obtain ⟨h, -, hh⟩ := exists_leadsTo_ofSaved hk
    exact ⟨h, hleads h key hh⟩
  · rw [LeadsTo, hget] at hx hy
    have hxy := (raw_ofSaved blocks).handleOf?_of_leadsTo hx
    rw [(raw_ofSaved blocks).handleOf?_of_leadsTo hy] at hxy
    exact (Option.some.inj hxy).symm
  · rw [hsave]
    exact (Table.get?_eq_some_iff _ _ _).2 (mem_entries_of_get? (hget ▸ hb))
  · exact linkedAs_saveBlock (hlinks h b hb)
  · obtain ⟨-, -, b', hb', -⟩ := hlinks h b hb x hx
    exact contains_of_get? hb'

end Graph

end Stagecraft
