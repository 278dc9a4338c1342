import Mathlib.Data.List.Perm.Subperm
import Stagecraft.Graph.Builder
import Stagecraft.Proofs.Graph.Preservation
import Stagecraft.Proofs.Graph.Staleness

/-!
# Building on an existing program

A builder continues a program in which keys are in use or reserved and references dangle. It looks
for an unused key, number by number. A table of keys is finite, so it finds one, and a block under
an unused key gets a handle that no key has.

* `Builder.search_freshFrom` : **the search for an unused key ends**;
* `Graph.Vacant` : a handle that the arena can give out next;
* `Graph.not_vacant_of_givenOut` : a handle that was given out is never such a handle again;
* `Graph.Continued` : what a program has of the one it was built on;
* `Builder.continued_run` : all calls of a builder continue the program;
* `Builder.apart_of_calls` : **a builder collides with nothing**;
* `Builder.revived_of_stray` : but a handle of another arena may be one that comes next.
-/

namespace Stagecraft

/-- The same block but for what is in its inputs and fields, its links, and whether it starts a
script. -/
def Block.Refitted (b b' : Block) : Prop :=
  b' = { b with
    inputs := b'.inputs
    fields := b'.fields
    next := b'.next
    parent := b'.parent
    topLevel := b'.topLevel }

theorem Block.Refitted.trans {a b c : Block} (hab : a.Refitted b) (hbc : b.Refitted c) :
    a.Refitted c := by
  cases a
  cases b
  cases c
  simp_all [Block.Refitted]

namespace Graph

variable {g g' : Graph} {h x : Handle} {b : Block} {i : Nat} {s : Slot}

/-! ### Handles to give out next -/

/-- A handle that the arena can give out next: its slot is free and has come to this generation, or
was never used. -/
def Vacant (g : Graph) (x : Handle) : Prop :=
  x.generation = g.generationAt x.index ∧ ∀ s, g.slots[x.index]? = some s → s.key = none

theorem generationAt_of_slot (hs : g.slots[i]? = some s) : g.generationAt i = s.generation := by
  unfold generationAt
  rw [hs]

theorem vacant_of_slot_eq (hs : g'.slots[x.index]? = g.slots[x.index]?) (hv : g'.Vacant x) :
    g.Vacant x := by
  unfold Vacant generationAt at hv ⊢
  rwa [hs] at hv

theorem vacant_of_modify {f : Block → Block} (hv : (g.modify h f).Vacant x) : g.Vacant x := by
  have hm := getElem?_modify g h f x.index
  cases hs : g.slots[x.index]? with
  | none => exact vacant_of_slot_eq (by rw [hm, hs]; rfl) hv
  | some s =>
    rw [hs, Option.map_some] at hm
    obtain ⟨hgen, hkey⟩ := hv
    -- an edit keeps the generation and the key
    rw [generationAt_of_slot hm] at hgen
    have hk := hkey _ hm
    refine ⟨?_, fun t ht => ?_⟩
    · rw [generationAt_of_slot hs, hgen]
      split <;> rfl
    · rw [hs] at ht
      cases ht
      split at hk <;> exact hk

/-- No block has such a handle. -/
theorem Consistent.contains_of_vacant (hc : g.Consistent) (hv : g.Vacant x) :
    g.contains x = false := by
  unfold contains
  cases hb : g.get? x with
  | none => rfl
  | some b =>
    obtain ⟨s, hs, -, hblock⟩ := get?_eq_some_iff.1 hb
    rw [hc.keyed _ s hs (hv.2 s hs)] at hblock
    cases hblock

/-! ### Handles that were given out -/

/-- The handle that an operation gives out. -/
def answer? (g : Graph) : Operation → Option Handle
  | .reserve key => some (g.reserve key).2
  | .create b => some (g.create b).2
  | _ => none

/-- A handle was given out in the course of a history, and its slot was not freed so often since
that its generation came around again. -/
def GivenOut (ops : List Operation) (x : Handle) : Prop :=
  ∃ before op after, ops = before ++ op :: after ∧ (empty.run before).answer? op = some x ∧
    frees x.index ((empty.run before).apply op) after < UInt32.size

theorem Consistent.handleOf?_create (hc : g.Consistent) (b : Block) :
    (g.create b).1.handleOf? b.key = some (g.create b).2 := by
  unfold Graph.create
  split
  · rename_i h hk
    split <;> exact hk
  · show ((g.allocate b.key).1.keys).get? b.key = _
    rw [(hc.allocated b.key).keys, Table.get?_insert_self]

/-- The slot of a handle that is given out has a key. -/
theorem Consistent.keyed_of_answer? (hc : g.Consistent) {op : Operation}
    (hx : g.answer? op = some x) :
    ∃ s, (g.apply op).slots[x.index]? = some s ∧ s.generation = x.generation ∧ s.key ≠ none := by
  obtain ⟨key, hkey⟩ : ∃ key, (g.apply op).handleOf? key = some x := by
    cases op with
    | reserve key =>
      cases hx
      exact ⟨key, hc.handleOf?_reserve key⟩
    | create b =>
      cases hx
      exact ⟨b.key, hc.handleOf?_create b⟩
    | delete h => cases hx
    | move h place => cases hx
    | edit h f => cases hx
  obtain ⟨s, hs, hg, hk⟩ := ((hc.apply op).handleOf?_iff key x).1 hkey
  exact ⟨s, hs, hg, by rw [hk]; exact Option.some_ne_none key⟩

theorem Consistent.slot_reserve (hc : g.Consistent) (key : String) (hs : g.slots[i]? = some s)
    (hk : s.key ≠ none) : (g.reserve key).1.slots[i]? = some s := by
  rcases hc.reserve_cases key with ⟨-, he⟩ | ⟨-, ha⟩
  · rw [he, hs]
  · rw [ha.slot_other i, hs]
    rintro rfl
    rw [ha.slot_before s hs] at hk
    exact hk rfl

/-- A slot keeps its key until it is freed. -/
theorem Consistent.key_apply (hc : g.Consistent) (op : Operation) (hs : g.slots[i]? = some s)
    (hk : s.key ≠ none) : ∃ s', (g.apply op).slots[i]? = some s' ∧
      (s'.key ≠ none ∨ (g.holds i && !(g.apply op).holds i) = true) := by
  have hworn : ∀ s', (g.apply op).slots[i]? = some s' → s.Worn s' →
      s'.key ≠ none ∨ (g.holds i && !(g.apply op).holds i) = true := by
    rintro s' hs' (hout | ⟨hb, rfl⟩)
    · exact Or.inl (Slot.key_of_outline hout ▸ hk)
    · obtain ⟨b, hb⟩ := Option.ne_none_iff_exists'.1 hb
      rw [holds_of_slot hs, holds_of_slot hs', hb]
      exact Or.inr rfl
  cases op with
  | reserve key => exact ⟨s, hc.slot_reserve key hs hk, Or.inl hk⟩
  | create b =>
    simp only [Graph.apply, hc.create_eq]
    split
    · exact ⟨s, hs, Or.inl hk⟩
    · rw [Consistent.getElem?_fill, hc.slot_reserve b.key hs hk]
      split <;> exact ⟨_, rfl, Or.inl hk⟩
  | delete h =>
    obtain ⟨s', hs', hw⟩ := worn_delete h hs
    exact ⟨s', hs', hworn s' hs' hw⟩
  | move h place =>
    obtain ⟨s', hs', hw⟩ := worn_move h place hs
    exact ⟨s', hs', hworn s' hs' hw⟩
  | edit h f =>
    obtain ⟨s', hs', hw⟩ := worn_modify h f (worn_self hs)
    exact ⟨s', hs', hworn s' hs' hw⟩

/-- A slot that is never freed keeps its key. -/
theorem key_run (ops : List Operation) :
    ∀ {g : Graph} {s : Slot}, g.Consistent → g.slots[i]? = some s → s.key ≠ none →
      frees i g ops = 0 → ∃ s', (g.run ops).slots[i]? = some s' ∧ s'.key ≠ none := by
  induction ops with
  | nil => exact fun _ hs hk _ => ⟨_, hs, hk⟩
  | cons op rest ih =>
    intro g s hc hs hk hfrees
    rw [frees, Nat.add_eq_zero_iff] at hfrees
    obtain ⟨s', hs', hk' | hfreed⟩ := hc.key_apply op hs hk
    · exact ih (hc.apply op) hs' hk' hfrees.2
    · rw [if_pos hfreed] at hfrees
      exact absurd hfrees.1 Nat.one_ne_zero

/-- **A handle that was given out is not given out again.** Either its slot was never freed and
still has its key, or the generation has moved on. -/
theorem not_vacant_of_givenOut {ops : List Operation} (hx : GivenOut ops x) :
    ¬ (empty.run ops).Vacant x := by
  obtain ⟨before, op, after, rfl, hans, hfew⟩ := hx
  have hc := consistent_run before
  obtain ⟨s, hs, hg, hk⟩ := hc.keyed_of_answer? hans
  have hrun : empty.run (before ++ op :: after) = ((empty.run before).apply op).run after :=
    run_append _ _ _
  rw [hrun]
  rintro ⟨hgen, hkey⟩
  rcases Nat.eq_zero_or_pos (frees x.index ((empty.run before).apply op) after) with hzero | hpos
  · obtain ⟨s', hs', hk'⟩ := key_run after (hc.apply op) hs hk hzero
    exact hk' (hkey s' hs')
  · obtain ⟨s', hs', hg'⟩ := generation_run after (hc.apply op) hs
    rw [generationAt_of_slot hs', hg', hg] at hgen
    exact add_mod_ne hpos hfew hgen.symm

/-! ### One more block -/

/-- A block was added under a handle that no block and no key had. -/
structure Added (g g' : Graph) (h : Handle) (b : Block) : Prop where
  vacant : g.Vacant h
  dead : g.contains h = false
  size : g'.size = g.size + 1
  here : g'.get? h = some { b with handle := h }
  elsewhere : ∀ x, x ≠ h → g'.get? x = g.get? x

theorem create_of_unused (hk : g.handleOf? b.key = none) :
    g.create b = ((g.allocate b.key).1.fill (g.allocate b.key).2 b, (g.allocate b.key).2) := by
  unfold Graph.create
  rw [hk]

theorem generation_allocate (g : Graph) (key : String) :
    (g.allocate key).2.generation = g.generationAt (g.allocate key).2.index := by
  unfold allocate
  split
  · rfl
  · simp [generationAt]

namespace Consistent

theorem added (hc : g.Consistent) (hk : g.handleOf? b.key = none) :
    Added g (g.create b).1 (g.create b).2 b := by
  have ha := hc.allocated b.key
  have hvacant : g.Vacant (g.create b).2 := by
    rw [create_of_unused hk]
    exact ⟨generation_allocate g b.key, fun s hs => by rw [ha.slot_before s hs]⟩
  have hdead := hc.contains_of_vacant hvacant
  have hget := get?_create hc b (hc.create_snd b ▸ hdead)
  rw [← hc.create_snd] at hget
  refine ⟨hvacant, hdead, ?_, by rw [hget, if_pos rfl], fun x hx => by rw [hget, if_neg hx]⟩
  rw [create_of_unused hk]
  exact congrArg (· + 1) ha.size

theorem vacant_of_create (hc : g.Consistent) (hk : g.handleOf? b.key = none)
    (hv : (g.create b).1.Vacant x) : g.Vacant x := by
  have ha := hc.allocated b.key
  rw [create_of_unused hk] at hv
  have hslot := getElem?_fill (g.allocate b.key).1 (g.allocate b.key).2 b x.index
  by_cases hx : (g.allocate b.key).2.index = x.index
  · -- the slot of the new block has a key
    rw [if_pos hx, ← hx, ha.slot, Option.map_some, hx] at hslot
    cases hv.2 _ hslot
  · rw [if_neg hx, ha.slot_other _ (Ne.symm hx)] at hslot
    exact vacant_of_slot_eq hslot hv

theorem handleOf?_create_of_unused (hc : g.Consistent) (hk : g.handleOf? b.key = none)
    {key : String} (hkey : g.handleOf? key = some x) : (g.create b).1.handleOf? key = some x := by
  have hne : key ≠ b.key := by
    rintro rfl
    cases hk.symm.trans hkey
  rw [create_of_unused hk]
  show ((g.allocate b.key).1.keys).get? key = some x
  rw [(hc.allocated b.key).keys, Table.get?_insert_of_ne _ hne]
  exact hkey

end Consistent

/-! ### Programs that others were built on -/

/-- A program was built on another: blocks were added, each under a handle of its own that could be
given out next, and blocks that were there were at most refitted, if something was done to them by
name. -/
structure Continued (g : Graph) (named : List Handle) (g' : Graph) (added : List Handle) :
    Prop where
  consistent : g'.Consistent
  size : g'.size = g.size + added.length
  nodup : added.Nodup
  /-- What is live was so before or was added. -/
  contains : ∀ x, g'.contains x = true ↔ g.contains x = true ∨ x ∈ added
  /-- What was added, or can be given out next, could be given out before. -/
  vacant : ∀ x, x ∈ added ∨ g'.Vacant x → g.Vacant x
  /-- A block that was there is the same, or was refitted by name. -/
  kept : ∀ x b, g.get? x = some b → ∃ b', g'.get? x = some b' ∧
    (b' = b ∨ x ∈ named ∧ b.Refitted b')
  keys : ∀ key x, g.handleOf? key = some x → g'.handleOf? key = some x

namespace Continued

variable {named added : List Handle} {f : Block → Block}

theorem refl (hc : g.Consistent) (named : List Handle) : g.Continued named g [] where
  consistent := hc
  size := rfl
  nodup := List.nodup_nil
  contains x := by simp
  vacant x hx := by simpa using hx
  kept x b hb := ⟨b, hb, Or.inl rfl⟩
  keys _ _ hk := hk

/-- What was not live and cannot be given out next does not come to life. -/
theorem dead (he : g.Continued named g' added) (hdead : g.contains x = false) (hx : ¬ g.Vacant x) :
    g'.contains x = false := by
  rw [← Bool.not_eq_true, he.contains]
  rintro (hlive | hadded)
  · rw [hdead] at hlive
    cases hlive
  · exact hx (he.vacant x (Or.inl hadded))

theorem create (he : g.Continued named g' added) (hc : g.Consistent)
    (hk : g'.handleOf? b.key = none) :
    g.Continued named (g'.create b).1 (added ++ [(g'.create b).2]) := by
  have ha := he.consistent.added hk
  have hnew : (g'.create b).2 ∉ added := fun hmem => by
    have hlive := (he.contains _).2 (Or.inr hmem)
    rw [ha.dead] at hlive
    cases hlive
  have hvacant : g.Vacant (g'.create b).2 := he.vacant _ (Or.inr ha.vacant)
  constructor
  · exact he.consistent.create b
  · rw [ha.size, he.size, List.length_append, List.length_singleton, Nat.add_assoc]
  · exact List.nodup_append.2 ⟨he.nodup, List.nodup_singleton _, by
      rintro x hx _ hy rfl
      exact hnew (List.mem_singleton.1 hy ▸ hx)⟩
  · intro x
    rw [List.mem_append, List.mem_singleton, ← or_assoc, ← he.contains]
    by_cases hx : x = (g'.create b).2
    · simp only [hx, or_true, iff_true]
      exact contains_of_get? ha.here
    · rw [Graph.contains, ha.elsewhere x hx]
      simp only [hx, or_false]
      rfl
  · rintro x (hx | hx)
    · rcases List.mem_append.1 hx with hx | hx
      · exact he.vacant x (Or.inl hx)
      · exact List.mem_singleton.1 hx ▸ hvacant
    · exact he.vacant x (Or.inr (he.consistent.vacant_of_create hk hx))
  · intro x b' hb'
    have hx : x ≠ (g'.create b).2 := by
      rintro rfl
      have hlive := contains_of_get? hb'
      rw [hc.contains_of_vacant hvacant] at hlive
      cases hlive
    rw [ha.elsewhere x hx]
    exact he.kept x b' hb'
  · exact fun key x hkey => he.consistent.handleOf?_create_of_unused hk (he.keys key x hkey)

/-- Edits can do anything to blocks that were added, and refit those that were there. -/
theorem edit_of (he : g.Continued named g' added)
    (hkept : ∀ b b', g.get? h = some b → b' = b ∨ h ∈ named ∧ b.Refitted b' →
      f b' = b ∨ h ∈ named ∧ b.Refitted (f b')) : g.Continued named (g'.modify h f) added := by
  constructor
  · exact he.consistent.modify h f
  · rw [size_modify, he.size]
  · exact he.nodup
  · intro x
    rw [contains_modify, he.contains]
  · rintro x (hx | hx)
    · exact he.vacant x (Or.inl hx)
    · exact he.vacant x (Or.inr (vacant_of_modify hx))
  · intro x b hb
    obtain ⟨b', hb', hkeep⟩ := he.kept x b hb
    rw [get?_modify, hb']
    split
    · rename_i hx
      subst hx
      exact ⟨f b', rfl, hkept b b' hb hkeep⟩
    · exact ⟨b', rfl, hkeep⟩
  · intro key x hkey
    rw [handleOf?, keys_modify]
    exact he.keys key x hkey

theorem edit_added (he : g.Continued named g' added) (hc : g.Consistent) (hh : h ∈ added)
    (f : Block → Block) : g.Continued named (g'.modify h f) added := by
  refine he.edit_of fun b _ hb _ => ?_
  have hlive := contains_of_get? hb
  rw [hc.contains_of_vacant (he.vacant h (Or.inl hh))] at hlive
  cases hlive

theorem edit (he : g.Continued named g' added) (hc : g.Consistent) (hh : h ∈ named ∨ h ∈ added)
    (hf : ∀ b : Block, b.Refitted (f b)) : g.Continued named (g'.modify h f) added := by
  rcases hh with hh | hh
  · refine he.edit_of fun b b' _ hkeep => Or.inr ⟨hh, ?_⟩
    rcases hkeep with rfl | ⟨-, hb'⟩
    · exact hf b'
    · exact hb'.trans (hf b')
  · exact he.edit_added hc hh f

end Continued

end Graph

namespace Builder

/-! ### The search for an unused key -/

/-- The search for an unused key, without a bound: from one number on it ends at another. -/
inductive Search (g : Graph) : Nat → Nat → Prop where
  /-- The key of this number is not in use. -/
  | found {n : Nat} (h : g.handleOf? ("block" ++ toString n) = none) : Search g n n
  /-- It is in use, and the search goes on. -/
  | next {n m : Nat} (h : (g.handleOf? ("block" ++ toString n)).isSome = true)
      (rest : Search g (n + 1) m) : Search g n m

theorem Search.unused {g : Graph} {n m : Nat} (hs : Search g n m) :
    g.handleOf? ("block" ++ toString m) = none := by
  induction hs with
  | found h => exact h
  | next _ _ ih => exact ih

theorem injective_key : Function.Injective fun n : Nat => "block" ++ toString n := by
  intro m n h
  have hrepr : m.repr = n.repr := (String.append_right_inj _).1 h
  -- the decimal form of a number can be read back
  have hread : ∀ k, Nat.ofDigitChars 10 k.repr.toList 0 = k := fun k => by
    rw [Nat.toList_repr, Nat.ofDigitChars_toDigits (by decide) (by decide)]
  rw [← hread m, hrepr, hread]

/-- Of one number more than there are keys, one has a key that is not in use. -/
theorem exists_unused (g : Graph) (n : Nat) :
    ∃ m, n ≤ m ∧ m ≤ n + g.keys.size ∧ g.handleOf? ("block" ++ toString m) = none := by
  -- else all these keys, which differ, are among those in use
  by_contra hnone
  have hsub : (List.range' n (g.keys.size + 1)).map (fun m => "block" ++ toString m) ⊆
      g.keys.keys := by
    intro key hkey
    obtain ⟨m, hm, rfl⟩ := List.mem_map.1 hkey
    obtain ⟨hle, hlt⟩ := List.mem_range'_1.1 hm
    refine (Table.mem_keys_iff _ _).2 (Option.isSome_iff_ne_none.2 fun hunused => ?_)
    exact hnone ⟨m, hle, by omega, hunused⟩
  have hnodup : (List.range' n (g.keys.size + 1)).Nodup := List.nodup_range'
  have hle := ((hnodup.map injective_key).subperm hsub).length_le
  rw [List.length_map, List.length_range', Table.keys, List.length_map] at hle
  exact absurd hle (Nat.not_succ_le_self _)

theorem search_of_exists {g : Graph} {fuel n m : Nat} (hn : n ≤ m) (hm : m ≤ n + fuel)
    (hunused : g.handleOf? ("block" ++ toString m) = none) : Search g n (freshFrom g fuel n) := by
  induction fuel generalizing n with
  | zero =>
    cases Nat.le_antisymm hn hm
    exact .found hunused
  | succ fuel ih =>
    rw [freshFrom]
    cases hkey : g.handleOf? ("block" ++ toString n) with
    | none => exact .found hkey
    | some h =>
      refine .next (by rw [hkey]; rfl) (ih ?_ (by omega))
      -- the number is in use, so it is not the unused one
      refine Nat.succ_le_of_lt (Nat.lt_of_le_of_ne hn ?_)
      rintro rfl
      cases hkey.symm.trans hunused

/-- **The search for an unused key ends**, whatever keys are in use. -/
theorem search_freshFrom (g : Graph) (n : Nat) : Search g n (freshFrom g g.keys.size n) := by
  obtain ⟨m, hn, hm, hunused⟩ := exists_unused g n
  exact search_of_exists hn hm hunused

/-! ### Calls -/

/-- A call of a builder. -/
inductive Call where
  | block (opcode : Opcode)
  | command (opcode : Opcode) (inputs : List (String × Value))
  | literal (h : Handle) (name : String) (v : Value)
  | field (h : Handle) (name value : String) (id : Option String)
  | reporter (parent : Handle) (name : String) (child : Handle)
  | chain (body : List Handle)
  | branch (parent : Handle) (n : Nat) (body : List Handle)
  | script (hat : Opcode) (body : List Handle)
  | scriptWithField (hat : Opcode) (name value : String) (body : List Handle)
  | stack (body : List Handle)
  | procedure (code : String) (arguments : List (String × String × String)) (warp : Bool)
      (body : List Handle)
  | call (code : String) (arguments : List (String × Value))

/-- The blocks to which a call does something by name. -/
def Call.handles : Call → List Handle
  | .literal h _ _ | .field h _ _ _ => [h]
  | .reporter parent _ child => [parent, child]
  | .branch parent _ body => parent :: body
  | .chain body | .script _ body | .scriptWithField _ _ _ body | .stack body
  | .procedure _ _ _ body => body
  | .block _ | .command _ _ | .call _ _ => []

/-- The number of blocks that a call adds. -/
def Call.adds : Call → Nat
  | .block _ | .command _ _ | .script _ _ | .scriptWithField _ _ _ _ | .call _ _ => 1
  | .procedure _ _ _ _ => 2
  | _ => 0

/-- The number of blocks that calls add. -/
def Call.total (calls : List Call) : Nat := calls.foldr (fun c n => c.adds + n) 0

/-- Carry out a call. -/
def perform (b : Builder) : Call → Builder
  | .block opcode => (b.block opcode).1
  | .command opcode inputs => (b.command opcode inputs).1
  | .literal h name v => b.literal h name v
  | .field h name value id => b.field h name value id
  | .reporter parent name child => b.reporter parent name child
  | .chain body => (b.chain body).1
  | .branch parent n body => b.branch parent n body
  | .script hat body => (b.script hat body).1
  | .scriptWithField hat name value body => (b.scriptWithField hat name value body).1
  | .stack body => (b.stack body).1
  | .procedure code arguments warp body => (b.procedure code arguments warp body).1
  | .call code arguments => (b.call code arguments).1

/-- Carry out calls one after the other. -/
def run (b : Builder) (calls : List Call) : Builder := calls.foldl perform b

section Steps

variable {g : Graph} {named added : List Handle} {b : Builder} {h parent child top : Handle}
  {body : List Handle} (hc : g.Consistent) (he : g.Continued named b.graph added)

include hc he

theorem continued_block (opcode : Opcode) :
    g.Continued named (b.block opcode).1.graph (added ++ [(b.block opcode).2]) :=
  he.create hc (search_freshFrom b.graph b.nextKey).unused

theorem continued_literals (hh : h ∈ named ∨ h ∈ added) (inputs : List (String × Value)) :
    g.Continued named (inputs.foldl (fun b e => b.literal h e.1 e.2) b).graph added := by
  induction inputs generalizing b with
  | nil => exact he
  | cons e rest ih =>
    have hfirst : g.Continued named (b.literal h e.1 e.2).graph added := he.edit hc hh fun _ => rfl
    exact ih hfirst

theorem continued_plug (hp : parent ∈ named ∨ parent ∈ added)
    (hchild : child ∈ named ∨ child ∈ added) (name : String) (input : Input) :
    g.Continued named (b.plug parent name input child).graph added := by
  have hparent := he.edit hc hp
    (f := fun blk => { blk with inputs := blk.inputs.insert name input }) fun _ => rfl
  exact hparent.edit hc hchild fun _ => rfl

theorem continued_chain (hbody : ∀ h ∈ body, h ∈ named) :
    g.Continued named (b.chain body).1.graph added := by
  induction body generalizing b with
  | nil => exact he
  | cons h rest ih =>
    cases rest with
    | nil => exact he
    | cons n rest =>
      obtain ⟨hh, hrest⟩ := List.forall_mem_cons.1 hbody
      have hn : n ∈ named := hrest n List.mem_cons_self
      have hnext := he.edit hc (Or.inl hh) (f := fun blk => { blk with next := some n })
        fun _ => rfl
      have hparent := hnext.edit hc (Or.inl hn) (f := fun blk => { blk with parent := some h })
        fun _ => rfl
      exact ih (b := (b.modify h _).modify n _) hparent hrest

omit hc he in
theorem mem_of_chain {b' : Builder} (hchain : b.chain body = (b', some h)) : h ∈ body := by
  cases body with
  | nil => cases hchain
  | cons first rest =>
    cases rest with
    | nil =>
      cases hchain
      exact List.mem_cons_self
    | cons n rest =>
      cases hchain
      exact List.mem_cons_self

/-- The result of a chain is one of its blocks, unless there are none. -/
theorem chain_cases (hbody : ∀ h ∈ body, h ∈ named) :
    ∃ b', g.Continued named b'.graph added ∧
      (b.chain body = (b', none) ∨ ∃ first ∈ named, b.chain body = (b', some first)) := by
  refine ⟨(b.chain body).1, continued_chain hc he hbody, ?_⟩
  cases hfirst : (b.chain body).2 with
  | none => exact .inl (Prod.ext rfl hfirst)
  | some first =>
    have heq : b.chain body = ((b.chain body).1, some first) := Prod.ext rfl hfirst
    exact .inr ⟨first, hbody first (mem_of_chain heq), heq⟩

theorem continued_branch (hp : parent ∈ named) (n : Nat) (hbody : ∀ h ∈ body, h ∈ named) :
    g.Continued named (b.branch parent n body).graph added := by
  obtain ⟨b', hchain, heq | ⟨first, hfirst, heq⟩⟩ := chain_cases hc he hbody
  · rw [branch, heq]
    exact hchain
  · rw [branch, heq]
    exact continued_plug hc hchain (Or.inl hp) (Or.inl hfirst) _ _

theorem continued_attachBody (htop : top ∈ added) (hbody : ∀ h ∈ body, h ∈ named) :
    g.Continued named (b.attachBody top body).graph added := by
  obtain ⟨b', hchain, heq | ⟨first, hfirst, heq⟩⟩ := chain_cases
    (b := b.modify top fun blk => { blk with topLevel := true }) hc (he.edit_added hc htop _) hbody
  · rw [attachBody, heq]
    exact hchain
  · rw [attachBody, heq]
    exact (hchain.edit_added hc htop _).edit hc (Or.inl hfirst) fun _ => rfl

theorem continued_stack (hbody : ∀ h ∈ body, h ∈ named) :
    g.Continued named (b.stack body).1.graph added := by
  obtain ⟨b', hchain, heq | ⟨first, hfirst, heq⟩⟩ := chain_cases hc he hbody
  · rw [stack, heq]
    exact hchain
  · rw [stack, heq]
    exact hchain.edit hc (Or.inl hfirst) fun _ => rfl

/-- A definition for a prototype that was added is added. -/
theorem continued_define {prototype : Handle} (hprototype : prototype ∈ added)
    (hbody : ∀ h ∈ body, h ∈ named) :
    g.Continued named (((b.block (.procedure .definition)).1.plug
      (b.block (.procedure .definition)).2 prototypeInput (.reporter prototype)
        prototype).attachBody (b.block (.procedure .definition)).2 body).graph
      (added ++ [(b.block (.procedure .definition)).2]) := by
  have hdefinition := continued_block hc he (.procedure .definition)
  have hmem := List.mem_append_right added
    (List.mem_singleton_self (b.block (.procedure .definition)).2)
  exact continued_attachBody hc (continued_plug hc hdefinition (Or.inr hmem)
    (Or.inr (List.mem_append_left _ hprototype)) prototypeInput (.reporter prototype)) hmem hbody

/-- **One call of a builder** adds the blocks that it says, and refits none but those that it
names. -/
theorem continued_perform (c : Call) (hnamed : ∀ h ∈ c.handles, h ∈ named) :
    ∃ new, g.Continued named (b.perform c).graph (added ++ new) ∧ new.length = c.adds := by
  -- calls that add no block, and those that add one and do something to it
  have without : ∀ b' : Builder, g.Continued named b'.graph added →
      ∃ new, g.Continued named b'.graph (added ++ new) ∧ new.length = 0 := fun b' hb' =>
    ⟨[], by rwa [List.append_nil], rfl⟩
  have hlast : ∀ opcode, (b.block opcode).2 ∈ added ++ [(b.block opcode).2] := fun _ =>
    List.mem_append_right _ List.mem_cons_self
  have hblock := continued_block hc he
  cases c with
  | block opcode => exact ⟨_, hblock opcode, rfl⟩
  | command opcode inputs =>
    exact ⟨_, continued_literals hc (hblock opcode) (Or.inr (hlast opcode)) inputs, rfl⟩
  | literal h name v =>
    exact without _ (he.edit hc (Or.inl (hnamed h List.mem_cons_self)) fun _ => rfl)
  | field h name value id =>
    exact without _ (he.edit hc (Or.inl (hnamed h List.mem_cons_self)) fun _ => rfl)
  | reporter parent name child =>
    obtain ⟨hp, hchild⟩ := List.forall_mem_cons.1 hnamed
    exact without _ (continued_plug hc he (Or.inl hp)
      (Or.inl (hchild child List.mem_cons_self)) name _)
  | chain body => exact without _ (continued_chain hc he hnamed)
  | branch parent n body =>
    obtain ⟨hp, hbody⟩ := List.forall_mem_cons.1 hnamed
    exact without _ (continued_branch hc he hp n hbody)
  | script hat body => exact ⟨_, continued_attachBody hc (hblock hat) (hlast hat) hnamed, rfl⟩
  | scriptWithField hat name value body =>
    exact ⟨_, continued_attachBody hc ((hblock hat).edit_added hc (hlast hat) _) (hlast hat) hnamed,
      rfl⟩
  | stack body => exact without _ (continued_stack hc he hnamed)
  | procedure code arguments warp body =>
    have hprototype := (hblock (.procedure .prototype)).edit_added hc (hlast _) fun blk =>
      { blk with
        shadow := true
        signature := some ⟨code, arguments.map (·.1), arguments.map (·.2.1),
          arguments.map (·.2.2), warp⟩ }
    have hdefine := continued_define (b := (b.block (.procedure .prototype)).1.modify _ _) hc
      hprototype (hlast _) hnamed
    rw [List.append_assoc] at hdefine
    exact ⟨_, hdefine, rfl⟩
  | call code arguments =>
    exact ⟨_, continued_literals hc ((hblock _).edit_added hc (hlast _) _) (Or.inr (hlast _))
      arguments, rfl⟩

/-- **All calls of a builder** continue the program that it was given. -/
theorem continued_run (calls : List Call) (hnamed : ∀ c ∈ calls, ∀ h ∈ c.handles, h ∈ named) :
    ∃ new, g.Continued named (b.run calls).graph (added ++ new) ∧
      new.length = Call.total calls := by
  induction calls generalizing b added with
  | nil => exact ⟨[], by rwa [List.append_nil], rfl⟩
  | cons c rest ih =>
    obtain ⟨hfirst, hrest⟩ := List.forall_mem_cons.1 hnamed
    obtain ⟨new, hperform, hnew⟩ := continued_perform hc he c hfirst
    obtain ⟨more, hrun, hmore⟩ := ih hperform hrest
    refine ⟨new ++ more, by rwa [← List.append_assoc], ?_⟩
    rw [List.length_append, hnew, hmore]
    rfl

end Steps

/-- **A builder collides with nothing.** Whatever keys are in use, the search for an unused one
ends, and a block that is added comes as one more, under a handle that neither a block nor a key
had. Take any history and any calls of a builder that continues the program. The blocks that were
there stay, under their handles and keys, as they were but for what the calls do to them by name.
And a handle never comes to mean a block of the builder if it was given out before, when a key was
reserved or a block created, or if the arena cannot give it out next, or if it lies beyond all
slots: if it was dead, it stays dead. -/
theorem apart_of_calls (ops : List Operation) (calls : List Call) :
    (∀ (g : Graph) (n : Nat), Search g n (freshFrom g g.keys.size n)) ∧
    (∀ (b : Builder) (opcode : Opcode), b.graph.Consistent →
      b.graph.Added (b.block opcode).1.graph (b.block opcode).2
        (.detached ("block" ++ toString (freshFrom b.graph b.graph.keys.size b.nextKey)) opcode)) ∧
    ∃ added, (Graph.empty.run ops).Continued (calls.flatMap Call.handles)
        ((ofGraph (Graph.empty.run ops)).run calls).graph added ∧
      added.length = Call.total calls ∧
      ∀ x, Graph.GivenOut ops x ∨ ¬ (Graph.empty.run ops).Vacant x ∨
          ((ofGraph (Graph.empty.run ops)).run calls).graph.slots.size ≤ x.index →
        (Graph.empty.run ops).contains x = false →
          ((ofGraph (Graph.empty.run ops)).run calls).graph.contains x = false := by
  have hc := Graph.consistent_run ops
  refine ⟨search_freshFrom, fun b opcode hb => ?_, ?_⟩
  · exact hb.added (search_freshFrom b.graph b.nextKey).unused
  · obtain ⟨added, he, hadds⟩ := continued_run (b := ofGraph (Graph.empty.run ops)) hc
      (.refl hc (calls.flatMap Call.handles)) calls fun c hmem h hh =>
        List.mem_flatMap.2 ⟨c, hmem, hh⟩
    rw [List.nil_append] at he
    refine ⟨added, he, hadds, ?_⟩
    rintro x (hgiven | htaken | hbeyond) hdead
    · exact he.dead hdead (Graph.not_vacant_of_givenOut hgiven)
    · exact he.dead hdead htaken
    · rw [Graph.contains, Graph.get?_of_no_slot (Array.getElem?_eq_none hbeyond)]
      rfl

/-- A program with a reference to a block that never came, and one to a block that is gone. -/
def ruin : List Operation :=
  [.reserve "block2",
    .create { Block.detached "hat" (.event .whenFlagClicked) with next := some ⟨2, 0⟩ },
    .create { Block.detached "gone" (.control .forever) with parent := some ⟨0, 0⟩ },
    .delete ⟨2, 0⟩]

/-- The builder takes the slot of the block that is gone in its next generation, passes over the
reserved key, and revives neither reference. -/
theorem apart_of_ruin :
    Graph.GivenOut ruin ⟨0, 0⟩ ∧ Graph.GivenOut ruin ⟨2, 0⟩ ∧
      ((ofGraph (Graph.empty.run ruin)).run
        [.block (.control .wait), .block (.control .stop)]).graph.handleOf? "block3" =
          some ⟨3, 0⟩ ∧
      ((ofGraph (Graph.empty.run ruin)).run
        [.block (.control .wait), .block (.control .stop)]).graph.contains ⟨2, 1⟩ = true ∧
      ((ofGraph (Graph.empty.run ruin)).run
        [.block (.control .wait), .block (.control .stop)]).graph.contains ⟨0, 0⟩ = false ∧
      ((ofGraph (Graph.empty.run ruin)).run
        [.block (.control .wait), .block (.control .stop)]).graph.contains ⟨2, 0⟩ = false := by
  obtain ⟨-, -, added, -, -, hdead⟩ :=
    apart_of_calls ruin [.block (.control .wait), .block (.control .stop)]
  have hreserved : Graph.GivenOut ruin ⟨0, 0⟩ :=
    ⟨[], _, _, rfl, rfl, by decide⟩
  have hgone : Graph.GivenOut ruin ⟨2, 0⟩ :=
    ⟨ruin.take 2, _, ruin.drop 3, rfl, rfl, by decide⟩
  exact ⟨hreserved, hgone, rfl, rfl, hdead _ (Or.inl hreserved) rfl, hdead _ (Or.inl hgone) rfl⟩

/-- A program whose one block goes on with a block of another arena. -/
def stray : List Operation :=
  [.create { Block.detached "hat" (.event .whenFlagClicked) with
    next := some ⟨1, 0⟩
    topLevel := true }]

/-- The same program, but the block after it has its key reserved in this arena. -/
def haunted : List Operation := stray ++ [.reserve "ghost"]

/-- A handle of another arena can be one that this arena gives out next: the first block of the
builder gets it, and what dangled is followed by that block. The handle of a reserved key stays
dead, but a call that links the block by name has it followed by another. -/
theorem revived_of_stray :
    (Graph.empty.run stray).next? ⟨0, 0⟩ = some ⟨1, 0⟩ ∧
    (Graph.empty.run stray).contains ⟨1, 0⟩ = false ∧
    ((ofGraph (Graph.empty.run stray)).block (.control .wait)).2 = ⟨1, 0⟩ ∧
    ((ofGraph (Graph.empty.run stray)).run [.block (.control .wait)]).graph.next? ⟨0, 0⟩ =
      some ⟨1, 0⟩ ∧
    ((ofGraph (Graph.empty.run stray)).run [.block (.control .wait)]).graph.contains ⟨1, 0⟩ = true ∧
    (Graph.empty.run haunted).next? ⟨0, 0⟩ = some ⟨1, 0⟩ ∧
    (Graph.empty.run haunted).contains ⟨1, 0⟩ = false ∧
    ((ofGraph (Graph.empty.run haunted)).block (.control .wait)).2 = ⟨2, 0⟩ ∧
    ((ofGraph (Graph.empty.run haunted)).run
      [.block (.control .wait), .chain [⟨0, 0⟩, ⟨2, 0⟩]]).graph.next? ⟨0, 0⟩ = some ⟨2, 0⟩ := by
  decide +kernel

end Builder

end Stagecraft
