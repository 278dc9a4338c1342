import Stagecraft.Graph.Procedure
import Stagecraft.Proofs.Graph.Consistency

/-!
# The index of procedures

A block defines a procedure if it is a definition with a prototype that has the signature of the
procedure. Of several such blocks the first in slot order counts. Which one that is gets worked out
once and kept until the next edit. Reserving a key keeps what was worked out, and the free slots of
a deletion are behind its reset, so the index never tells of a program that is no more.

* `Graph.Names`, `Graph.FirstNames` : a block names a procedure by the handle that it carries, and
  is the first live one to do so;
* `Graph.Addressed` : blocks carry the handle at which they are found;
* `Graph.Addressed.filter_blocks` : live blocks in slot order, by their handles;
* `Graph.DefinedAt` : a block defines a procedure with a signature;
* `Graph.Faithful` : what was worked out is right for the program as it is;
* `Graph.faithful_run` : so it is after every history;
* `Graph.Faithful.definition?_eq_some_iff` : **a call finds the first block that names the
  procedure**, by the handle that it carries;
* `Graph.definition?_eq_some_iff` : **it finds the first block that defines the procedure** where
  blocks carry the handles at which they are found.
-/

namespace Stagecraft.Graph

variable {g g' : Graph} {h : Handle} {code : String}

/-! ### Programs with an index -/

theorem Consistent.indexed (hc : g.Consistent) : g.indexed.Consistent := by
  unfold Graph.indexed
  split
  · exact hc
  · exact ⟨hc.size_eq, hc.handleOf?_iff, hc.keyed, hc.free_nodup, hc.mem_free_iff, hc.generation_lt⟩

theorem Labelled.indexed (hl : g.Labelled) : g.indexed.Labelled := by
  unfold Graph.indexed
  split
  · exact hl
  · exact ⟨hl.handle_eq, hl.key_eq⟩

/-! ### What a look at the blocks finds -/

/-- A block names a procedure: it is a definition, and the block at the handle that it carries has a
prototype with a signature of the procedure. -/
def Names (g : Graph) (code : String) (b : Block) (s : Signature) : Prop :=
  b.opcode = .procedure .definition ∧ ∃ target c p, g.get? b.handle = some target ∧
    (target.inputs.get? prototypeInput).bind Input.block? = some c ∧ g.get? c = some p ∧
    p.signature = some s ∧ s.code = code

/-- It is the first live block in slot order that names the procedure. -/
def FirstNames (g : Graph) (code : String) (b : Block) (s : Signature) : Prop :=
  g.Names code b s ∧ ∃ before after, g.blocks = before ++ b :: after ∧
    ∀ x ∈ before, ∀ s, ¬ g.Names code x s

theorem Names.prototype? {b : Block} {s : Signature} (hb : g.Names code b s) :
    (g.prototype? b.handle).bind (·.signature) = some s := by
  obtain ⟨-, target, c, p, htarget, hc, hp, hsig, -⟩ := hb
  rw [Graph.prototype?, htarget, Option.bind_some, hc, Option.bind_some, hp, Option.bind_some, hsig]

/-- The signature that a definition block defines is that of its prototype. -/
theorem definedCode?_eq_some_iff {b : Block} :
    g.definedCode? b = some code ↔ ∃ s, g.Names code b s := by
  rw [definedCode?]
  constructor
  · intro hcode
    split at hcode
    · rename_i hop
      obtain ⟨s, hs, rfl⟩ := Option.map_eq_some_iff.1 hcode
      obtain ⟨p, hp, hsig⟩ := Option.bind_eq_some_iff.1 hs
      obtain ⟨c, hc, hp⟩ := Option.bind_eq_some_iff.1 hp
      obtain ⟨i, hi, hc⟩ := Option.bind_eq_some_iff.1 hc
      obtain ⟨target, htarget, hi⟩ := Option.bind_eq_some_iff.1 hi
      refine ⟨s, hop, target, c, p, htarget, ?_, hp, hsig, rfl⟩
      rw [hi, Option.bind_some, hc]
    · cases hcode
  · rintro ⟨s, hs⟩
    rw [hs.prototype?, if_pos hs.1, Option.map_some]
    obtain ⟨-, -, -, -, -, -, -, -, hcode⟩ := hs
    rw [hcode]

/-! ### Live blocks in slot order -/

/-- Blocks carry the handle at which they are found, whatever their keys. -/
def Addressed (g : Graph) : Prop := ∀ (h : Handle) (b : Block), g.get? h = some b → b.handle = h

theorem Labelled.addressed (hl : g.Labelled) : g.Addressed := by
  intro h b hb
  obtain ⟨s, hs, hg, hblock⟩ := get?_eq_some_iff.1 hb
  rw [hl.handle_eq _ s b hs hblock, hg]

/-- Picking live blocks is picking the handles at which they are found. -/
theorem Addressed.filter_blocks (ha : g.Addressed) (p : Block → Bool) :
    (g.blocks.filter p).map (·.handle) = g.handles.filter fun h => (g.get? h).any p := by
  have hslots : ∀ l : List (Slot × Nat), (∀ e ∈ l, g.slots[e.2]? = some e.1) →
      ((l.filterMap (·.1.block)).filter p).map (·.handle) =
        (l.map fun e => (⟨e.2, e.1.generation⟩ : Handle)).filter fun h => (g.get? h).any p := by
    intro l
    induction l with
    | nil => exact fun _ => rfl
    | cons e rest ih =>
      intro hmem
      have hs : g.slots[e.2]? = some e.1 := hmem e List.mem_cons_self
      have hget : g.get? ⟨e.2, e.1.generation⟩ = e.1.block := get?_of_slot hs rfl
      rw [List.map_cons, List.filter_cons, hget,
        ← ih fun e' he' => hmem e' (List.mem_cons_of_mem _ he')]
      cases hb : e.1.block with
      | none => simp [hb]
      | some b =>
        have hhandle : b.handle = ⟨e.2, e.1.generation⟩ := ha _ b (hget.trans hb)
        cases hp : p b <;> simp [hb, hp, hhandle]
  have hblocks : g.blocks = g.slots.toList.zipIdx.filterMap (·.1.block) := by
    have hslots := congrArg (List.filterMap (·.block)) (List.zipIdx_map_fst 0 g.slots.toList)
    rw [List.filterMap_map] at hslots
    exact hslots.symm
  rw [hblocks, handles]
  exact hslots _ fun e he => by simpa [List.mem_zipIdx_iff_getElem?] using he

theorem Labelled.filter_blocks (hl : g.Labelled) (p : Block → Bool) :
    (g.blocks.filter p).map (·.handle) = g.handles.filter fun h => (g.get? h).any p :=
  hl.addressed.filter_blocks p

/-! ### Definitions -/

/-- A block defines a procedure: it is a definition, and its prototype has a signature of the
procedure. -/
def DefinedAt (g : Graph) (code : String) (h : Handle) (s : Signature) : Prop :=
  ∃ b c p, g.get? h = some b ∧ b.opcode = .procedure .definition ∧
    (b.inputs.get? prototypeInput).bind Input.block? = some c ∧ g.get? c = some p ∧
    p.signature = some s ∧ s.code = code

/-- It is the first block in slot order that defines the procedure. -/
def FirstDefinedAt (g : Graph) (code : String) (h : Handle) (s : Signature) : Prop :=
  g.DefinedAt code h s ∧ ∃ before after, g.handles = before ++ h :: after ∧
    ∀ x ∈ before, ∀ s, ¬ g.DefinedAt code x s

/-- A block has one signature. -/
theorem DefinedAt.unique {code' : String} {s s' : Signature} (hs : g.DefinedAt code h s)
    (hs' : g.DefinedAt code' h s') : s = s' := by
  obtain ⟨b, c, p, hb, -, hc, hp, hsig, -⟩ := hs
  obtain ⟨b', c', p', hb', -, hc', hp', hsig', -⟩ := hs'
  cases hb.symm.trans hb'
  cases hc.symm.trans hc'
  cases hp.symm.trans hp'
  exact Option.some.inj (hsig.symm.trans hsig')

theorem DefinedAt.prototype? {s : Signature} (hs : g.DefinedAt code h s) :
    (g.prototype? h).bind (·.signature) = some s := by
  obtain ⟨b, c, p, hb, -, hc, hp, hsig, -⟩ := hs
  rw [Graph.prototype?, hb, Option.bind_some, hc, Option.bind_some, hp, Option.bind_some, hsig]

/-- What a block names by the handle that it carries is what it defines where it is found. -/
theorem Addressed.names_iff (ha : g.Addressed) {b : Block} (hb : g.get? h = some b)
    {s : Signature} : g.Names code b s ↔ g.DefinedAt code h s := by
  unfold Names DefinedAt
  rw [ha h b hb]
  constructor
  · rintro ⟨hop, target, c, p, htarget, hrest⟩
    cases hb.symm.trans htarget
    exact ⟨b, c, p, hb, hop, hrest⟩
  · rintro ⟨b', c, p, hb', hop, hrest⟩
    cases hb.symm.trans hb'
    exact ⟨hop, b, c, p, hb, hrest⟩

theorem Addressed.definedCode?_iff (ha : g.Addressed) {b : Block} (hb : g.get? h = some b) :
    g.definedCode? b = some code ↔ ∃ s, g.DefinedAt code h s := by
  rw [definedCode?_eq_some_iff]
  exact exists_congr fun s => ha.names_iff hb

/-- What holds of a table while entries come that do not replace others. -/
theorem get?_foldl_index (step : Table String Handle → Block → Table String Handle)
    (hstep : ∀ index b, (step index b).get? code =
      (index.get? code).or (if g.definedCode? b = some code then some b.handle else none))
    (l : List Block) (index : Table String Handle) :
    (l.foldl step index).get? code =
      (index.get? code).or ((l.find? fun b => g.definedCode? b = some code).map (·.handle)) := by
  induction l generalizing index with
  | nil => exact (Option.or_none).symm
  | cons b rest ih =>
    rw [List.foldl_cons, ih, hstep, Option.or_assoc, List.find?_cons]
    by_cases hcode : g.definedCode? b = some code <;> simp [hcode]

/-- The index has the first block that defines a procedure. -/
theorem get?_scanProcedures (g : Graph) (code : String) :
    g.scanProcedures.get? code =
      (g.blocks.find? fun b => g.definedCode? b = some code).map (·.handle) := by
  unfold scanProcedures
  refine get?_foldl_index _ (fun index b => ?_) g.blocks .empty
  cases hcode : g.definedCode? b with
  | none => simp
  | some code' =>
    simp only [Option.some.injEq]
    by_cases he : code' = code
    · subst he
      have hcontains : index.contains code' = (index.get? code').isSome := by
        rw [Bool.eq_iff_iff, ← Table.mem_keys_iff]
        simp [Table.contains, Table.keys]
      rw [if_pos rfl, hcontains]
      cases hget : index.get? code' with
      | none => simp
      | some definition => simp [hget]
    · rw [if_neg he, Option.or_none]
      split
      · rfl
      · exact Table.get?_insert_of_ne index (Ne.symm he) _

/-! ### Faithful indexes -/

/-- What was worked out is right for the program as it is. -/
def Faithful (g : Graph) : Prop := ∀ index, g.procedures = some index → index = g.scanProcedures

theorem scanProcedures_congr (hb : g'.blocks = g.blocks) (hget : ∀ x, g'.get? x = g.get? x) :
    g'.scanProcedures = g.scanProcedures := by
  have hcode : g'.definedCode? = g.definedCode? := by
    funext b
    have hget : g'.get? = g.get? := funext hget
    rw [definedCode?, definedCode?, prototype?, prototype?, hget]
  rw [scanProcedures, scanProcedures, hb, hcode]

theorem faithful_of_none (h : g.procedures = none) : g.Faithful := by
  intro index hindex
  cases h.symm.trans hindex

/-- What does not change the block of a slot does not change the live blocks. -/
theorem blocks_modifySlot (g : Graph) (i : Nat) {f : Slot → Slot}
    (hf : ∀ s, (f s).block = s.block) : (g.modifySlot i f).blocks = g.blocks := by
  have hlist : ∀ (l : List Slot) (i : Nat),
      (l.modify i f).filterMap (·.block) = l.filterMap (·.block) := by
    intro l
    induction l with
    | nil => exact fun i => by cases i <;> rfl
    | cons s rest ih =>
      intro i
      cases i with
      | zero => simp [List.filterMap_cons, hf]
      | succ i => simp [List.filterMap_cons, ih]
  rw [blocks, modifySlot, Array.toList_modify]
  exact hlist _ i

/-- Reserving a key adds no block. -/
theorem blocks_reserve (g : Graph) (key : String) : (g.reserve key).1.blocks = g.blocks := by
  unfold Graph.reserve Graph.allocate
  split
  · rfl
  · split
    · exact g.blocks_modifySlot _ fun _ => rfl
    · simp [blocks]

theorem procedures_allocate (g : Graph) (key : String) :
    (g.allocate key).1.procedures = g.procedures := by
  unfold allocate
  split <;> rfl

theorem procedures_reserve (g : Graph) (key : String) :
    (g.reserve key).1.procedures = g.procedures := by
  unfold reserve
  split
  · rfl
  · exact procedures_allocate g key

namespace Faithful

theorem reserve (hf : g.Faithful) (hc : g.Consistent) (key : String) :
    (g.reserve key).1.Faithful := by
  intro index hindex
  rw [procedures_reserve] at hindex
  rw [scanProcedures_congr (g.blocks_reserve key) (hc.get?_reserve key)]
  exact hf index hindex

theorem modify (h : Handle) (f : Block → Block) : (g.modify h f).Faithful := by
  refine faithful_of_none ?_
  unfold Graph.modify
  simp only
  split <;> rfl

theorem apply (hf : g.Faithful) (hc : g.Consistent) (op : Operation) : (g.apply op).Faithful := by
  cases op with
  | reserve key => exact hf.reserve hc key
  | create b =>
    rw [Graph.apply, hc.create_eq]
    split
    · exact hf
    · exact faithful_of_none rfl
  | delete h =>
    rw [Graph.apply, Graph.delete]
    split
    · exact hf
    · exact faithful_of_none rfl
  | move h place => exact move_induction (fun _ _ _ _ _ => modify _ _) hf h place
  | edit h f => exact modify h f

theorem indexed (hf : g.Faithful) : g.indexed.Faithful := by
  unfold Graph.indexed
  split
  · exact hf
  · exact fun index hindex => (Option.some.inj hindex).symm

end Faithful

/-- **Every history leads to a program with a faithful index.** -/
theorem faithful_run (ops : List Operation) : (empty.run ops).Faithful :=
  (run_induction (P := fun g => g.Consistent ∧ g.Faithful) (Q := fun _ => True)
    (fun _ op _ hg => ⟨hg.1.apply op, hg.2.apply hg.1 op⟩) (fun _ _ => trivial)
    ⟨consistent_empty, faithful_of_none rfl⟩).2

/-! ### Finding a definition -/

theorem Faithful.definition?_eq (hf : g.Faithful) (code : String) :
    g.definition? code = g.scanProcedures.get? code := by
  unfold Graph.definition?
  split
  · rename_i index hindex
    rw [hf index hindex]
  · rfl

/-- **A call finds the first block that names the procedure**, by the handle that it carries. -/
theorem Faithful.definition?_eq_some_iff (hf : g.Faithful) :
    g.definition? code = some h ↔ ∃ s b, g.FirstNames code b s ∧ b.handle = h := by
  rw [hf.definition?_eq, get?_scanProcedures, Option.map_eq_some_iff]
  simp only [List.find?_eq_some_iff_append, decide_eq_true_eq, Bool.not_eq_true',
    decide_eq_false_iff_not, definedCode?_eq_some_iff, not_exists, FirstNames]
  constructor
  · rintro ⟨b, ⟨⟨s, hs⟩, hfirst⟩, hh⟩
    exact ⟨s, b, ⟨hs, hfirst⟩, hh⟩
  · rintro ⟨s, b, ⟨hs, hfirst⟩, hh⟩
    exact ⟨b, ⟨⟨s, hs⟩, hfirst⟩, hh⟩

/-- What the look-up of a definition asks of a block. -/
theorem Addressed.any_definedCode?_iff (ha : g.Addressed) :
    (g.get? h).any (fun b => g.definedCode? b = some code) = true ↔ ∃ s, g.DefinedAt code h s := by
  cases hb : g.get? h with
  | none =>
    refine ⟨fun h => (by cases h), ?_⟩
    rintro ⟨s, b, c, p, hb', -⟩
    cases hb.symm.trans hb'
  | some b => rw [Option.any_some, decide_eq_true_iff, ha.definedCode?_iff hb]

/-- The definition is looked for in slot order. -/
theorem Addressed.definition?_eq_find? (ha : g.Addressed) (hf : g.Faithful) (code : String) :
    g.definition? code =
      g.handles.find? fun h => (g.get? h).any fun b => g.definedCode? b = some code := by
  have hhead := congrArg List.head? (ha.filter_blocks fun b => g.definedCode? b = some code)
  rw [List.head?_map, List.head?_filter, List.head?_filter] at hhead
  rw [hf.definition?_eq, get?_scanProcedures, hhead]

theorem Addressed.definition?_eq_some_iff (ha : g.Addressed) (hf : g.Faithful) :
    g.definition? code = some h ↔ ∃ s, g.FirstDefinedAt code h s := by
  simp only [ha.definition?_eq_find? hf, List.find?_eq_some_iff_append, FirstDefinedAt,
    exists_and_right, ha.any_definedCode?_iff]
  refine and_congr_right fun _ => exists_congr fun before => and_congr_right fun _ =>
    forall₂_congr fun x _ => ?_
  rw [Bool.not_eq_true', Bool.eq_false_iff, Ne, ha.any_definedCode?_iff, not_exists]

theorem Addressed.isSome_definition?_iff (ha : g.Addressed) (hf : g.Faithful) :
    (g.definition? code).isSome = true ↔ ∃ h s, g.DefinedAt code h s := by
  rw [ha.definition?_eq_find? hf, List.find?_isSome]
  refine exists_congr fun h => ?_
  rw [ha.any_definedCode?_iff, and_iff_right_iff_imp]
  rintro ⟨s, b, c, p, hb, -⟩
  exact mem_handles hb

/-- **A call finds the first block that defines the procedure.** -/
theorem definition?_eq_some_iff (hl : g.Labelled) (hf : g.Faithful) :
    g.definition? code = some h ↔ ∃ s, g.FirstDefinedAt code h s :=
  hl.addressed.definition?_eq_some_iff hf

/-- A definition is found if there is one. -/
theorem isSome_definition?_iff (hl : g.Labelled) (hf : g.Faithful) :
    (g.definition? code).isSome = true ↔ ∃ h s, g.DefinedAt code h s :=
  hl.addressed.isSome_definition?_iff hf

/-! ### The arguments of a procedure -/

section Arguments

variable {finds : Handle → Signature → Prop}
  (hfinds : ∀ h, g.definition? code = some h ↔ ∃ s, finds h s)

include hfinds

/-- The arguments of a procedure are those of the definition that a call finds. -/
theorem parameters?_eq_some_iff {p : Parameters}
    (hproto : ∀ h s, finds h s → (g.prototype? h).bind (·.signature) = some s) :
    g.parameters? code = some p ↔ ∃ h s, finds h s ∧
      p = ⟨s.argumentIds, s.argumentNames, s.argumentDefaults, s.warp⟩ := by
  unfold parameters?
  constructor
  · intro hp
    obtain ⟨s, hs, rfl⟩ := Option.map_eq_some_iff.1 hp
    rw [Option.bind_assoc] at hs
    obtain ⟨h, hdef, hs⟩ := Option.bind_eq_some_iff.1 hs
    obtain ⟨s', hfound⟩ := (hfinds h).1 hdef
    cases hs.symm.trans (hproto h s' hfound)
    exact ⟨h, s, hfound, rfl⟩
  · rintro ⟨h, s, hfound, rfl⟩
    rw [(hfinds h).2 ⟨s, hfound⟩, Option.bind_some, hproto h s hfound]
    rfl

/-- Where there is no definition there are no arguments. -/
theorem lookups_eq_none (hnone : ∀ h s, ¬ finds h s) :
    g.definition? code = none ∧ g.parameters? code = none := by
  have hnodef : g.definition? code = none := Option.eq_none_iff_forall_ne_some.2 fun h hh => by
    obtain ⟨s, hfound⟩ := (hfinds h).1 hh
    exact hnone h s hfound
  exact ⟨hnodef, by rw [parameters?, hnodef]; rfl⟩

end Arguments

end Stagecraft.Graph
