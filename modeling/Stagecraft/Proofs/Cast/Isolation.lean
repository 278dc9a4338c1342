import Stagecraft.Proofs.Cast.Lookup
import Stagecraft.Proofs.Cast.Show
import Stagecraft.Proofs.Schedule.Route

/-!
# Actors are isolated

A turn runs primitives for one actor. They may look a variable up by any id and name, and clone any
actor by its name; everything else is about the running actor. So whatever a turn does, the other
actors stay as they are, but for three things. A variable of the stage may be written, bubbles are
cleared when everything is stopped, and clones come and go. Programs stay as they are in any case.

* `World.Private` : only the running actor is changed, and variables of the stage;
* `Invocation.touches` : this is what most primitives do, and three of them do more;
* `Actor.CopyOf` : what a clone has in common with its source;
* `World.Isolated` : what a turn leaves of the other actors, given the primitives that it ran;
* `Scene.Along.isolated` : a turn keeps to this all along;
* `World.isolated_of_show` : **every turn of every step in a show isolates the actors**.
-/

namespace Stagecraft

/-- One actor is the copy that a clone is: it has the variables and lists of the other one with all
that they hold, stands where that one stands, is visible if that one is, and runs the same program
under the same name. It counts as a clone, and it says nothing yet. -/
structure Actor.CopyOf (a' a : Actor) : Prop where
  vars : a'.vars = a.vars
  x : a'.x = a.x
  y : a'.y = a.y
  visible : a'.visible = a.visible
  sprite : a'.sprite = a.sprite
  name : a'.name = a.name
  isStage : a'.isStage = a.isStage
  isClone : a'.isClone = true
  bubble : a'.bubble = none

theorem Actor.copyOf_clone (a : Actor) (id : ActorId) : (a.clone id).CopyOf a :=
  ⟨rfl, rfl, rfl, rfl, rfl, rfl, rfl, rfl, rfl⟩

/-- What becomes of an actor in the turn of another one: it stays as it is, but for its variables if
it is the stage, and for its bubble if bubbles are cleared. -/
structure Actor.Spared (a a' : Actor) (isStage clears : Prop) : Prop where
  rest : a' = { a with vars := a'.vars, bubble := a'.bubble }
  vars : ¬isStage → a'.vars = a.vars
  bubble : a'.bubble = a.bubble ∨ (a'.bubble = none ∧ clears)

namespace Actor.Spared

variable {a a' a'' : Actor} {isStage clears clears' : Prop}

theorem refl (a : Actor) : Spared a a isStage clears := ⟨rfl, fun _ => rfl, .inl rfl⟩

theorem mono (h : Spared a a' isStage clears) (hc : clears → clears') :
    Spared a a' isStage clears' :=
  ⟨h.rest, h.vars, h.bubble.imp_right fun ⟨hn, hclears⟩ => ⟨hn, hc hclears⟩⟩

theorem trans (h : Spared a a' isStage clears) (h' : Spared a' a'' isStage clears) :
    Spared a a'' isStage clears := by
  refine ⟨?_, fun hs => (h'.vars hs).trans (h.vars hs), ?_⟩
  · rw [h'.rest, h.rest]
  · rcases h'.bubble with he | hn
    · rw [he]
      exact h.bubble
    · exact .inr hn

/-- Who is not the stage and has no bubble stays as it is. -/
theorem eq (h : Spared a a' isStage clears) (hs : ¬isStage) (hb : a.bubble = none) : a' = a := by
  have hbubble : a'.bubble = a.bubble := h.bubble.elim (fun he => he) fun hn => hn.1.trans hb.symm
  rw [h.rest, h.vars hs, hbubble]

end Actor.Spared

namespace World

variable {σ : Type} {T : ActorId} {w w' w'' : World σ}

/-! ### What a primitive does to the cast -/

/-- Only the running actor is changed, and variables of the stage. -/
structure Private (T : ActorId) (w w' : World σ) : Prop where
  others : ∀ id, id ≠ T → w.stage ≠ some id → w'.actor? id = w.actor? id
  stageVars : ∀ id, id ≠ T → (w'.actor? id).map (fun a => { a with vars := .empty }) =
    (w.actor? id).map fun a => { a with vars := .empty }
  own : (w'.actor? T).isSome = (w.actor? T).isSome
  stage : w'.stage = w.stage

namespace Private

theorem trans (h : Private T w w') (h' : Private T w' w'') : Private T w w'' :=
  ⟨fun id hid hs => (h'.others id hid (h.stage ▸ hs)).trans (h.others id hid hs),
    fun id hid => (h'.stageVars id hid).trans (h.stageVars id hid), h'.own.trans h.own,
    h'.stage.trans h.stage⟩

theorem of_cast (h : SameCast w w') : Private T w w' := by
  exact ⟨fun id _ _ => h.actor? id, fun id _ => by rw [h.actor?], by rw [h.actor?], h.stage⟩

/-- The actor changes itself. -/
theorem modifyActor (w : World σ) (f : Actor → Actor) : Private T w (w.modifyActor T f) := by
  have hothers : ∀ id, id ≠ T → (w.modifyActor T f).actor? id = w.actor? id := fun id hid => by
    rw [actor?_modifyActor, if_neg hid]
  refine ⟨fun id hid _ => hothers id hid, fun id hid => by rw [hothers id hid], ?_, rfl⟩
  rw [actor?_modifyActor, if_pos rfl, Option.isSome_map]

theorem lookupVariable (w : World σ) (id : Option String) (name : String) (kind : VariableKind) :
    Private T w (w.lookupVariable T id name kind).1 := by
  unfold World.lookupVariable
  split
  · exact of_cast (.refl w)
  · split
    · exact of_cast (.refl w)
    · exact modifyActor w _

/-- A variable of the stage is written, or one of the actor. -/
theorem modifyVariable (w : World σ) {place : ActorId × String}
    (hplace : place.1 = T ∨ w.stage = some place.1) (f : Variable → Variable) :
    Private T w (w.modifyVariable place f) := by
  have hactor : ∀ id, (w.modifyVariable place f).actor? id = if id = place.1
      then (w.actor? id).map fun a => { a with vars := a.vars.modify place.2 f }
      else w.actor? id := fun id => actor?_modifyActor _ _ _ _
  refine ⟨fun id hid hs => ?_, fun id _ => ?_, ?_, rfl⟩
  · rw [hactor, if_neg]
    rintro rfl
    exact hplace.elim hid hs
  · rw [hactor]
    split
    · rw [Option.map_map]
      rfl
    · rfl
  · rw [hactor]
    split
    · rw [Option.isSome_map]
    · rfl

end Private

/-- Who is in scope is the actor or the stage. -/
theorem eq_of_mem_scopes (hw : w.Identified) {a : Actor} (ha : a ∈ w.scopes T) :
    a.id = T ∨ w.stage = some a.id := by
  obtain ⟨i, hi, hget⟩ := List.mem_filterMap.1 ha
  rw [hw.actor? hget]
  obtain ⟨o, ho, he⟩ := List.mem_filterMap.1 hi
  rcases List.mem_pair.1 ho with rfl | rfl
  · exact .inl (Option.some.inj he).symm
  · exact .inr he

/-- **A variable is found on the actor or on the stage**, whatever id and name are given. -/
theorem owner_of_lookupVariable (hw : w.Identified) {id : Option String} {name : String}
    {kind : VariableKind} {place : ActorId × String}
    (h : (w.lookupVariable T id name kind).2 = some place) :
    place.1 = T ∨ w.stage = some place.1 := by
  have hscopes : ∀ find : Actor → Option String,
      (w.scopes T).findSome? (fun a => (find a).map fun k => (a.id, k)) = some place →
        place.1 = T ∨ w.stage = some place.1 := by
    intro find hfind
    obtain ⟨a, ha, hkey⟩ := List.exists_of_findSome?_eq_some hfind
    obtain ⟨key, -, rfl⟩ := Option.map_eq_some_iff.1 hkey
    exact eq_of_mem_scopes hw ha
  rcases w.lookupVariable_cases T id name kind with
    ⟨found, he, hfound⟩ | ⟨he, -, -⟩ | ⟨a, he, -, -⟩
  · rw [he] at h
    cases h
    unfold locate? at hfound
    simp only at hfound
    split at hfound
    · rename_i hbyId
      cases hfound
      obtain ⟨key, -, hsome⟩ := Option.bind_eq_some_iff.1 hbyId
      exact hscopes _ hsome
    · exact hscopes _ hfound
  · rw [he] at h
    cases h
  · rw [he] at h
    cases h
    exact .inl rfl

end World

namespace Scene

open World

variable {σ : Type} {site : Site} {op : Opcode} {s s' : Scene σ}

/-- Primitives that neither create nor delete clones. -/
structure Plain (site : Site) (op : Opcode) : Prop where
  clones : op ≠ .control .createCloneOf
  deletes : op ≠ .control .deleteThisClone
  stops : ¬site.StopsAll op

theorem Does.isPrivate (h : Does site op s s') (hop : Plain site op)
    (hid : s.world.Identified) : Private s.thread.actor s.world s'.world := by
  cases h with
  | shift ht => exact .of_cast (.refl _)
  | aside hw => exact .of_cast hw.cast
  | ask text _ => exact .of_cast ⟨rfl, rfl, rfl, rfl, rfl, rfl, rfl⟩
  | restyle f _ => exact .modifyActor _ f
  | lookup id name kind => exact .lookupVariable _ id name kind
  | write id name kind f hplace _ =>
    have hlookup := Private.lookupVariable (T := s.thread.actor) s.world id name kind
    refine hlookup.trans (.modifyVariable _ ?_ f)
    rw [hlookup.stage]
    exact owner_of_lookupVariable hid hplace
  | request r _ => exact .of_cast ⟨rfl, rfl, rfl, rfl, rfl, rfl, rfl⟩
  | startHats hat fields only => exact .of_cast (sameCast_startHats _ hat fields only)
  | stopActor => exact .of_cast (sameCast_stopActor _ _ _)
  | createClone source hclone => exact absurd hclone hop.clones
  | deleteClone hdelete _ _ => exact absurd hdelete hop.deletes
  | stopAll hstop => exact absurd hstop hop.stops

/-- Whatever a primitive does, the other actors are left alone, if it is none of these. -/
theorem Performs.isPrivate (h : Performs site op s s') (hop : Plain site op)
    (hid : s.world.Identified) : Private s.thread.actor s.world s'.world ∧
      s'.thread.actor = s.thread.actor ∧ s'.world.Identified := by
  induction h with
  | refl => exact ⟨.of_cast (.refl _), rfl, hid⟩
  | tail _ hd ih =>
    obtain ⟨hprivate, hactor, hidentified⟩ := ih
    refine ⟨hprivate.trans (hactor ▸ hd.isPrivate hop hidentified),
      hd.changes.actor.trans hactor, ?_⟩
    exact hd.changes.changed.keeps (P := World.Identified) (fun hc => .change hc) hidentified

theorem Works.isPrivate (h : Works site op s s') (hop : Plain site op)
    (hid : s.world.Identified) : Private s.thread.actor s.world s'.world := by
  obtain ⟨s₁, hperforms, hquits⟩ := h
  have hprivate := (hperforms.isPrivate hop hid).1
  cases hquits <;> exact hprivate

end Scene

/-! ### Primitives that create and delete clones -/

namespace Primitive

variable {σ : Type}

theorem world_createCloneOf (args : Args) (s : Scene σ) :
    (createCloneOf args s).world = s.world ∨
      ∃ source, (createCloneOf args s).world = (s.world.createClone source).1 := by
  unfold createCloneOf
  simp only
  split
  · exact .inr ⟨_, rfl⟩
  · exact .inl rfl

theorem world_deleteThisClone (s : Scene σ) : (deleteThisClone s).world = s.world ∨
    (deleteThisClone s).world = (s.world.deleteClone s.thread.actor).1 := by
  unfold deleteThisClone
  split
  · split
    · exact .inr rfl
    · exact .inl rfl
  · exact .inl rfl

theorem world_stop {site : Site} (h : (site.field? "STOP_OPTION").getD "all" = "all")
    (s : Scene σ) : (stop site s).world = s.world.stopAll := by
  unfold stop
  rw [h]
  rfl

end Primitive

/-- What a primitive does to the cast. -/
inductive Invocation.Touches {σ : Type} (i : Invocation σ) : Prop
  /-- It is about the running actor and variables of the stage. -/
  | plain : World.Private i.before.thread.actor i.before.world (i.result .empty).1.world → i.Touches
  /-- It clones an actor. -/
  | clones (source : ActorId) : i.opcode = .control .createCloneOf →
      (i.result .empty).1.world = (i.before.world.createClone source).1 → i.Touches
  /-- It deletes the running actor. -/
  | deletes : i.opcode = .control .deleteThisClone →
      (i.result .empty).1.world = (i.before.world.deleteClone i.before.thread.actor).1 → i.Touches
  /-- It stops everything. -/
  | stops : i.site.StopsAll i.opcode →
      (i.result .empty).1.world = i.before.world.stopAll → i.Touches

/-- **These are all ways in which a primitive touches the cast.** -/
theorem Invocation.touches {σ : Type} (i : Invocation σ) (hid : i.before.world.Identified) :
    i.Touches := by
  by_cases hclones : i.opcode = .control .createCloneOf
  · have hworld := Primitive.world_createCloneOf i.args i.before
    rw [show Primitive.createCloneOf i.args i.before = (i.result .empty).1 by
      rw [result, hclones]; rfl] at hworld
    rcases hworld with he | ⟨source, he⟩
    · exact .plain (.of_cast (he ▸ .refl _))
    · exact .clones source hclones he
  by_cases hdeletes : i.opcode = .control .deleteThisClone
  · have hworld := Primitive.world_deleteThisClone i.before
    rw [show Primitive.deleteThisClone i.before = (i.result .empty).1 by
      rw [result, hdeletes]; rfl] at hworld
    rcases hworld with he | he
    · exact .plain (.of_cast (he ▸ .refl _))
    · exact .deletes hdeletes he
  by_cases hstops : i.site.StopsAll i.opcode
  · have hworld := Primitive.world_stop hstops.2 i.before
    rw [show Primitive.stop i.site i.before = (i.result .empty).1 by
      rw [result, hstops.1]; rfl] at hworld
    exact .stops hstops hworld
  exact .plain ((Primitive.works_run i.site i.opcode i.args i.before).isPrivate
    ⟨hclones, hdeletes, hstops⟩ hid)

/-! ### What a turn leaves of the other actors -/

/-- The primitive creates a clone under an id that nobody has: a copy of an actor, its source, which
is there before and after, and is left as it is. -/
structure Invocation.Clones {σ : Type} (i : Invocation σ) (id : ActorId) (a' : Actor) : Prop where
  opcode : i.opcode = .control .createCloneOf
  fresh : i.before.world.actor? id = none
  entered : (i.result .empty).1.world.actor? id = some a'
  id_eq : a'.id = id
  copy : ∃ source a, i.before.world.actor? source = some a ∧
    (i.result .empty).1.world.actor? source = some a ∧ a'.CopyOf a

/-- Everything is stopped by one of these primitives. -/
def Invocation.AnyStops {σ : Type} (l : List (Invocation σ)) : Prop :=
  ∃ i ∈ l, i.site.StopsAll i.opcode

namespace World

variable {σ : Type} {T : ActorId} {w w' w'' : World σ} {l l' : List (Invocation σ)}

/-- What the turn of an actor leaves of the others, in which some primitives were run. Those that
stay are spared, actors come as clones only, and go as clones only, and the programs stay. -/
structure Isolated (T : ActorId) (l : List (Invocation σ)) (w w' : World σ) : Prop where
  kept : ∀ {id a a'}, id ≠ T → w.actor? id = some a → w'.actor? id = some a' →
    a.Spared a' (w.stage = some id) (Invocation.AnyStops l)
  added : ∀ {id a'}, w.actor? id = none → w'.actor? id = some a' → ∃ i ∈ l, i.Clones id a'
  removed : ∀ {id a}, w.actor? id = some a → w'.actor? id = none → a.isClone = true ∧
    ((id = T ∧ ∃ i ∈ l, i.opcode = .control .deleteThisClone) ∨ Invocation.AnyStops l)
  graph : ∀ {id a a'}, w.actor? id = some a → w'.actor? id = some a' → w'.graph? id = w.graph? id
  play : SamePlay w w'

/-! ### What becomes of an actor -/

theorem lt_nextActor (hw : w.book.Sound) {id : ActorId} {a : Actor} (ha : w.actor? id = some a) :
    id < w.nextActor :=
  hw.below _ ((Table.get?_eq_some_iff _ _ _).1 (get?_roles_of_actor ha))

/-- Whoever has an id that was given out had it before, and in the same role. -/
theorem exists_actor_of_follows (h : w.book.Follows w'.book) {id : ActorId} {a' : Actor}
    (ha' : w'.actor? id = some a') (hlt : id < w.nextActor) :
    ∃ a, w.actor? id = some a ∧ a.role = a'.role := by
  have hrole := h.old id _ (get?_roles_of_actor ha') hlt
  rw [get?_roles] at hrole
  exact Option.map_eq_some_iff.1 hrole

/-- An actor that stays keeps its program. -/
theorem graph?_of_follows (hw : w.book.Sound) (h : w.book.Follows w'.book)
    (hplay : SamePlay w w') {id : ActorId} {a a' : Actor} (ha : w.actor? id = some a)
    (ha' : w'.actor? id = some a') : w'.graph? id = w.graph? id := by
  obtain ⟨b, hb, hrole⟩ := exists_actor_of_follows h ha' (lt_nextActor hw ha)
  cases ha.symm.trans hb
  have hsprite : a.sprite = a'.sprite := congrArg Role.sprite hrole
  rw [graph?_eq_programs, graph?_eq_programs, ha, ha', hplay.programs, Option.bind_some,
    Option.bind_some, hsprite]

theorem actor?_deleteClone (w : World σ) (id k : ActorId) :
    (w.deleteClone id).1.actor? k = w.actor? k ∨ ((w.deleteClone id).1.actor? k = none ∧ k = id ∧
      ∃ a, w.actor? k = some a ∧ a.isClone = true) := by
  rcases w.deleteClone_cases id with he | ⟨a, ha, hclone, hs⟩
  · exact .inl (by rw [he])
  · rw [hs.actor?]
    by_cases hk : k = id
    · subst hk
      exact .inr ⟨w.actors.get?_erase_self k, rfl, a, ha, hclone⟩
    · exact .inl (w.actors.get?_erase_of_ne hk)

/-- Deleting one clone after the other leaves the others alone. -/
theorem actor?_deleteClones (ids : List ActorId) : ∀ (w : World σ) (k : ActorId),
    (ids.foldl (fun w id => (w.deleteClone id).1) w).actor? k = w.actor? k ∨
      ((ids.foldl (fun w id => (w.deleteClone id).1) w).actor? k = none ∧
        ∃ a, w.actor? k = some a ∧ a.isClone = true) := by
  induction ids with
  | nil => exact fun _ _ => .inl rfl
  | cons id rest ih =>
    intro w k
    rw [List.foldl_cons]
    have hrest := ih (w.deleteClone id).1 k
    rcases w.actor?_deleteClone id k with he | ⟨hnone, -, hclone⟩
    · rwa [he] at hrest
    · refine .inr ⟨?_, hclone⟩
      rcases hrest with he | ⟨he, -⟩
      · exact he.trans hnone
      · exact he

/-- When everything is stopped, the originals stay, without their bubbles. -/
theorem actor?_stopAll (w : World σ) (k : ActorId) :
    w.stopAll.actor? k = (w.actor? k).map (fun a => { a with bubble := none }) ∨
      (w.stopAll.actor? k = none ∧ ∃ a, w.actor? k = some a ∧ a.isClone = true) := by
  obtain ⟨w₁, hs₁, w₂, hw₂, hs₂⟩ := w.stopAll_cast
  have hbubbles : w.stopAll.actor? k = (w₂.actor? k).map fun a => { a with bubble := none } := by
    rw [hs₂.actor?]
    exact Table.get?_mapValues _ _ _
  have hdeleted := actor?_deleteClones w₁.clones w₁ k
  rw [← hw₂, hs₁.actor?] at hdeleted
  rcases hdeleted with he | ⟨hnone, hclone⟩
  · exact .inl (by rw [hbubbles, he])
  · exact .inr ⟨by rw [hbubbles, hnone, Option.map_none], hclone⟩

/-! ### One primitive -/

/-- Only the running actor is changed, and variables of the stage. -/
theorem Private.isolated (h : Private T w w') (hw : w.book.Sound) (hf : w.book.Follows w'.book)
    (hplay : SamePlay w w') : Isolated T l w w' := by
  have hsome : ∀ id, (w'.actor? id).isSome = (w.actor? id).isSome := fun id => by
    by_cases hid : id = T
    · exact hid ▸ h.own
    · have hrest := congrArg Option.isSome (h.stageVars id hid)
      rwa [Option.isSome_map, Option.isSome_map] at hrest
  refine ⟨fun {id a a'} hid ha ha' => ?_, fun {id a'} ha ha' => ?_, fun {id a} ha ha' => ?_,
    fun ha ha' => graph?_of_follows hw hf hplay ha ha', hplay⟩
  · have hrest := h.stageVars id hid
    rw [ha, ha'] at hrest
    have hrest : { a' with vars := .empty } = { a with vars := .empty } := Option.some.inj hrest
    obtain ⟨⟩ := a
    obtain ⟨⟩ := a'
    cases hrest
    refine ⟨rfl, fun hs => ?_, .inl rfl⟩
    have hsame := h.others id hid hs
    rw [ha, ha'] at hsame
    cases hsame
    rfl
  · have := hsome id
    rw [ha, ha'] at this
    cases this
  · have := hsome id
    rw [ha, ha'] at this
    cases this

/-- The primitive creates a clone. -/
theorem isolated_createClone {i : Invocation σ} {source : ActorId}
    (hop : i.opcode = .control .createCloneOf)
    (he : (i.result .empty).1.world = (i.before.world.createClone source).1)
    (hw : i.before.world.book.Sound)
    (hf : i.before.world.book.Follows (i.result .empty).1.world.book)
    (hplay : SamePlay i.before.world (i.result .empty).1.world) :
    Isolated T [i] i.before.world (i.result .empty).1.world := by
  rcases i.before.world.createClone_cases source with hs | ⟨a, ha, -, -, hs⟩
  · rw [← he] at hs
    exact (Private.of_cast hs).isolated hw hf hplay
  · rw [← he] at hs
    have hactor : ∀ id, (i.result .empty).1.world.actor? id =
        if id = i.before.world.nextActor then some (a.clone id) else i.before.world.actor? id := by
      intro id
      rw [hs.actor?]
      split
      · rename_i hid
        subst hid
        exact Table.get?_insert_self _ _ _
      · rename_i hid
        exact Table.get?_insert_of_ne _ hid _
    have hold : ∀ {id b}, i.before.world.actor? id = some b →
        (i.result .empty).1.world.actor? id = some b := fun {id b} hb => by
      rw [hactor, if_neg (Nat.ne_of_lt (lt_nextActor hw hb)), hb]
    refine ⟨fun {id b b'} _ hb hb' => ?_, fun {id b'} hb hb' => ?_, fun {id b} hb hb' => ?_,
      fun hb hb' => graph?_of_follows hw hf hplay hb hb', hplay⟩
    · cases (hold hb).symm.trans hb'
      exact .refl b
    · have hclone : b' = a.clone id := by
        rw [hactor] at hb'
        split at hb'
        · exact (Option.some.inj hb').symm
        · cases hb.symm.trans hb'
      exact ⟨i, List.mem_singleton_self i, hop, hb, hb', hclone ▸ rfl, source, a, ha, hold ha,
        hclone ▸ a.copyOf_clone id⟩
    · cases (hold hb).symm.trans hb'

/-- **One primitive** leaves the other actors alone, but for what it is there for. -/
theorem isolated_result (i : Invocation σ) (hw : i.before.world.book.Sound) :
    Isolated i.before.thread.actor [i] i.before.world (i.result .empty).1.world := by
  have hchanged := (Primitive.changes_run i.site i.args i.before i.opcode).changed
  have hplay : SamePlay i.before.world (i.result .empty).1.world := samePlay_of_changed hchanged
  have hf : i.before.world.book.Follows (i.result .empty).1.world.book :=
    hw.follows_of_entries (entries_of_changed hchanged)
  cases i.touches (identified_of_sound hw) with
  | plain h => exact h.isolated hw hf hplay
  | clones source hop he => exact isolated_createClone hop he hw hf hplay
  | deletes hop he =>
    have hactor := i.before.world.actor?_deleteClone i.before.thread.actor
    rw [← he] at hactor
    refine ⟨fun {id a a'} hid ha ha' => ?_, fun {id a'} ha ha' => ?_, fun {id a} ha ha' => ?_,
      fun ha ha' => graph?_of_follows hw hf hplay ha ha', hplay⟩
    · rcases hactor id with hsame | ⟨hnone, -, -⟩
      · cases ha.symm.trans (hsame.symm.trans ha')
        exact .refl a
      · cases hnone.symm.trans ha'
    · rcases hactor id with hsame | ⟨hnone, -, -⟩
      · cases ha.symm.trans (hsame.symm.trans ha')
      · cases hnone.symm.trans ha'
    · rcases hactor id with hsame | ⟨-, hid, b, hb, hclone⟩
      · cases ha.symm.trans (hsame.symm.trans ha')
      · cases ha.symm.trans hb
        exact ⟨hclone, .inl ⟨hid, i, List.mem_singleton_self i, hop⟩⟩
  | stops hstops he =>
    have hactor := i.before.world.actor?_stopAll
    rw [← he] at hactor
    have hany : Invocation.AnyStops [i] := ⟨i, List.mem_singleton_self i, hstops⟩
    refine ⟨fun {id a a'} hid ha ha' => ?_, fun {id a'} ha ha' => ?_, fun {id a} ha ha' => ?_,
      fun ha ha' => graph?_of_follows hw hf hplay ha ha', hplay⟩
    · rcases hactor id with hsame | ⟨hnone, -⟩
      · rw [ha, ha', Option.map_some] at hsame
        cases hsame
        exact ⟨rfl, fun _ => rfl, .inr ⟨rfl, hany⟩⟩
      · cases hnone.symm.trans ha'
    · rcases hactor id with hsame | ⟨hnone, -⟩
      · rw [ha, ha'] at hsame
        cases hsame
      · cases hnone.symm.trans ha'
    · rcases hactor id with hsame | ⟨-, b, hb, hclone⟩
      · rw [ha, ha'] at hsame
        cases hsame
      · cases ha.symm.trans hb
        exact ⟨hclone, .inr hany⟩

/-! ### One primitive after the other -/

/-- Then nothing more is done to the cast. -/
theorem Isolated.aside (h : Isolated T l w w') (hs : SameCast w' w'') : Isolated T l w w'' := by
  refine ⟨fun hid ha ha' => h.kept hid ha (hs.actor? _ ▸ ha'),
    fun ha ha' => h.added ha (hs.actor? _ ▸ ha'), fun ha ha' => h.removed ha (hs.actor? _ ▸ ha'),
    fun ha ha' => (hs.graph? _).trans (h.graph ha (hs.actor? _ ▸ ha')), h.play.trans (.of_cast hs)⟩

/-- After a first part of the turn a second one. The ids that are given out on the way are new, so
nobody comes in the place of the running actor or of the stage. -/
theorem Isolated.trans (h : Isolated T l w w') (h' : Isolated T l' w' w'') (hw : w.book.Sound)
    (hf : w.book.Follows w'.book) (hf' : w'.book.Follows w''.book) (hT : T < w.nextActor)
    (hstage : ∀ {id}, w.stage = some id → id < w.nextActor) : Isolated T (l ++ l') w w'' := by
  have hleft : Invocation.AnyStops l → Invocation.AnyStops (l ++ l') :=
    fun ⟨i, hi, hs⟩ => ⟨i, List.mem_append_left _ hi, hs⟩
  have hright : Invocation.AnyStops l' → Invocation.AnyStops (l ++ l') :=
    fun ⟨i, hi, hs⟩ => ⟨i, List.mem_append_right _ hi, hs⟩
  -- ids are not given out again, so whoever is there before and after is there in between
  have hmiddle : ∀ {id a a''}, w.actor? id = some a → w''.actor? id = some a'' →
      ∃ a', w'.actor? id = some a' := fun {id a a''} ha ha'' => by
    have hlt := Nat.lt_of_lt_of_le (lt_nextActor hw ha) hf.next_le
    obtain ⟨a', ha', -⟩ := exists_actor_of_follows hf' ha'' hlt
    exact ⟨a', ha'⟩
  refine ⟨fun {id a a''} hid ha ha'' => ?_, fun {id a''} ha ha'' => ?_, fun {id a} ha ha'' => ?_,
    fun ha ha'' => ?_, h.play.trans h'.play⟩
  · obtain ⟨a', ha'⟩ := hmiddle ha ha''
    have hsecond := h'.kept hid ha' ha''
    rw [h.play.stage] at hsecond
    exact ((h.kept hid ha ha').mono hleft).trans (hsecond.mono hright)
  · cases ha' : w'.actor? id with
    | none =>
      obtain ⟨i, hi, hclones⟩ := h'.added ha' ha''
      exact ⟨i, List.mem_append_right _ hi, hclones⟩
    | some a' =>
      obtain ⟨i, hi, hclones⟩ := h.added ha ha'
      have hnew : ¬id < w.nextActor := fun hlt => by
        obtain ⟨a, hold, -⟩ := exists_actor_of_follows hf ha' hlt
        cases ha.symm.trans hold
      -- a clone of the first part is spared in the second one, so it is still the copy it was
      have hsecond := h'.kept (by rintro rfl; exact hnew hT) ha' ha''
      have hbubble : a'.bubble = none := by
        obtain ⟨_, _, _, _, hcopy⟩ := hclones.copy
        exact hcopy.bubble
      rw [hsecond.eq (fun hs => hnew (hstage (h.play.stage ▸ hs))) hbubble]
      exact ⟨i, List.mem_append_left _ hi, hclones⟩
  · cases ha' : w'.actor? id with
    | none =>
      obtain ⟨hclone, hgone⟩ := h.removed ha ha'
      exact ⟨hclone, hgone.imp (fun ⟨hid, i, hi, hop⟩ => ⟨hid, i, List.mem_append_left _ hi, hop⟩)
        hleft⟩
    | some a' =>
      obtain ⟨hclone, hgone⟩ := h'.removed ha' ha''
      obtain ⟨b, hb, hrole⟩ := exists_actor_of_follows hf ha' (lt_nextActor hw ha)
      cases ha.symm.trans hb
      have hsame : a.isClone = a'.isClone := congrArg Role.isClone hrole
      exact ⟨hsame.trans hclone, hgone.imp (fun ⟨hid, i, hi, hop⟩ =>
        ⟨hid, i, List.mem_append_right _ hi, hop⟩) hright⟩
  · obtain ⟨a', ha'⟩ := hmiddle ha ha''
    exact (h'.graph ha' ha'').trans (h.graph ha ha')

end World

namespace Scene

open World

variable {σ : Type} {k : Scheduler} {g? : Option Graph} {s s' : Scene σ} {l : List (Invocation σ)}

/-- **All the way along a turn** the running actor leaves the others alone. Primitives are run for
an actor that exists, so its id has been given out. -/
theorem Along.isolated (h : Along k g? s l s') (hw : s.world.book.Sound)
    (hstage : ∀ {id}, s.world.stage = some id → id < s.world.nextActor)
    (hrunning : ∀ g, g? = some g → s.thread.actor < s.world.nextActor) :
    Isolated s.thread.actor l s.world s'.world := by
  induction h with
  | nil =>
    exact (Private.of_cast (.refl _)).isolated hw (.refl _) (.refl _)
  | tidy _ ht ih => exact ih.aside ht.sameCast
  | @call l i hl hi ih =>
    have hchanges := hl.changes
    have hbefore := entries_of_changed hchanges.changed
    have hafter := entries_of_changed
      (Primitive.changes_run i.site i.args i.before i.opcode).changed
    have hsound := hw.entries hbefore
    have hresult := isolated_result i hsound
    rw [hchanges.actor] at hresult
    exact ih.trans hresult hw (hw.follows_of_entries hbefore) (hsound.follows_of_entries hafter)
      (hrunning _ hi.graph) hstage

end Scene

namespace World

variable {σ : Type} {w w' : World σ}

/-- Ids of actors and of the stage have been given out. -/
structure Numbered (w : World σ) : Prop where
  sound : w.book.Sound
  stage_lt : ∀ {id}, w.stage = some id → id < w.nextActor

theorem Numbered.changed (h : w.Numbered) (hc : Changed w w') : w'.Numbered := by
  have hplay := samePlay_of_changed hc
  exact ⟨h.sound.entries (entries_of_changed hc), fun hs =>
    Nat.lt_of_lt_of_le (h.stage_lt (hplay.stage ▸ hs)) hplay.next_le⟩

/-- **Part of a turn**: whatever primitives are run until then. -/
theorem Numbered.isolated {p : Pass σ} (hp : p.world.Numbered) {k : Scheduler} {i : Nat}
    {t : Thread} {s : Scene σ} {l : List (Invocation σ)}
    (h : Scene.Along k (p.world.graph? t.actor) ⟨p.without i, t⟩ l s) :
    Isolated t.actor l p.world s.world := by
  have hrunning : ∀ g, p.world.graph? t.actor = some g → t.actor < p.world.nextActor := by
    intro g hg
    rw [graph?_eq_programs] at hg
    obtain ⟨a, ha, -⟩ := Option.bind_eq_some_iff.1 hg
    exact lt_nextActor hp.sound ha
  have hout := h.isolated hp.sound hp.stage_lt hrunning
  exact ⟨hout.kept, hout.added, hout.removed, hout.graph,
    hout.play.programs, hout.play.stage, hout.play.next_le⟩

/-- The turns of a step as they begin: the pass as it is then, and the place of the thread. -/
def entrances (fuel : Nat) (w : World σ) : List (Pass σ × Nat) :=
  w.journal (fun p i => [(p, i)]) .empty fuel

theorem numbered_of_entrances {P : World σ → Prop} (h : Show P w) {fuel : Nat} {turn : Pass σ × Nat}
    (hturn : turn ∈ w.entrances fuel) : turn.1.world.Numbered := by
  obtain ⟨k, hk⟩ := h.exists_scheduler
  obtain ⟨front, rest, hsplit⟩ := List.append_of_mem hturn
  obtain ⟨p, i, _, front', rest', hroute, -, hlog, -⟩ :=
    (trail_step hk (fun p i => [(p, i)]) fuel).reaches front turn rest hsplit
  have hnumbered : w.Numbered := ⟨h.sound, fun hs => h.stage_lt hs⟩
  have hmem : turn ∈ front' ++ turn :: rest' := List.mem_append_right _ List.mem_cons_self
  rw [← hlog] at hmem
  rw [List.mem_singleton.1 hmem]
  exact hnumbered.changed hroute.changed

/-- **Every turn of a step in a show isolates the actors**: at its end, and before and after each
primitive that it runs, whether it comes to its end or not. -/
theorem isolated_of_show {P : World σ → Prop} (h : Show P w) {fuel : Nat} {p : Pass σ} {i : Nat}
    {t : Thread} (hturn : (p, i) ∈ w.entrances fuel) (ht : p.world.threads[i]? = some t) :
    (∀ p', Pass.visitAt .empty fuel p i = some p' →
      Isolated t.actor (Pass.visitAtInvocations fuel p i) p.world p'.world) ∧
    ∀ front j rest, Pass.visitAtInvocations fuel p i = front ++ j :: rest →
      Isolated t.actor front p.world j.before.world ∧
        Isolated t.actor (front ++ [j]) p.world (j.result .empty).1.world := by
  have hp : p.world.Numbered := numbered_of_entrances h hturn
  refine ⟨fun p' hv => ?_, fun front j rest hsplit => ?_⟩
  · rcases Pass.along_visitAt hv with ⟨hnone, rfl⟩ | ⟨u, s, hu, halong, hworld, -⟩
    · rw [hnone]
      exact (hp.isolated (i := i) (t := t) (k := p'.scheduler) .nil).aside
        ⟨rfl, rfl, rfl, rfl, rfl, rfl, rfl⟩
    · cases ht.symm.trans hu
      rw [hworld]
      exact (hp.isolated halong).aside ⟨rfl, rfl, rfl, rfl, rfl, rfl, rfl⟩
  · obtain ⟨u, hu, halong, hwithin⟩ := Pass.along_of_mem hsplit
    cases ht.symm.trans hu
    exact ⟨hp.isolated halong, hp.isolated (halong.call hwithin)⟩

/-- An actor that notes something, hides, clones itself and says something. -/
def twin : Graph :=
  Graph.empty.run
    [.create { Block.detached "flag" (.event .whenFlagClicked) with
        next := some ⟨1, 0⟩
        topLevel := true },
      .create { Block.detached "set" (.data .setVariable) with
        fields := Table.empty.insert "VARIABLE" ⟨"role", none⟩
        inputs := Table.empty.insert "VALUE" (.literal (.text "lead"))
        parent := some ⟨0, 0⟩
        next := some ⟨2, 0⟩ },
      .create { Block.detached "hide" (.looks .hide) with
        parent := some ⟨1, 0⟩
        next := some ⟨3, 0⟩ },
      .create { Block.detached "clone" (.control .createCloneOf) with
        inputs := Table.empty.insert "CLONE_OPTION" (.literal (.text "_myself_"))
        parent := some ⟨2, 0⟩
        next := some ⟨4, 0⟩ },
      .create { Block.detached "say" (.looks .say) with
        inputs := Table.empty.insert "MESSAGE" (.literal (.text "Two of us"))
        parent := some ⟨3, 0⟩ }]

/-- An actor that stops everything. -/
def curtain : Graph :=
  Graph.empty.run
    [.create { Block.detached "flag" (.event .whenFlagClicked) with
        next := some ⟨1, 0⟩
        topLevel := true },
      .create { Block.detached "stop" (.control .stop) with
        fields := Table.empty.insert "STOP_OPTION" ⟨"all", none⟩
        parent := some ⟨0, 0⟩ }]

/-- In one turn a clone is created, which has the variable of the actor and is hidden as well; in
the next one another actor stops everything, which deletes the clone and clears the bubble of the
first actor. -/
theorem isolated_of_show_twin : ∃ w : World Unit, Show (fun _ => True) w ∧
    (w.entrances 9).map (fun e => (e.1.world.threads[e.2]?.map (·.actor),
      (Pass.visitAt .empty 9 e.1 e.2).map fun p' =>
        p'.world.actors.entries.map fun a => (a.1, a.2.bubble))) =
      [(some 0, some [(0, some "Two of us"), (1, none), (2, none)]),
        (some 1, some [(0, none), (1, none)])] ∧
    (w.entrances 9).map (fun e => ((Pass.visitAt .empty 9 e.1 e.2).bind (·.world.actor? 2)).map
      fun a => (a.vars.values.map (·.get), a.visible)) = [some ([.text "lead"], false), none] ∧
    ∀ e ∈ w.entrances 9, ∀ t, e.1.world.threads[e.2]? = some t → ∀ p',
      Pass.visitAt .empty 9 e.1 e.2 = some p' →
        Isolated t.actor (Pass.visitAtInvocations 9 e.1 e.2) e.1.world p'.world := by
  let start := ((blank Settings.standard ()).addSprite "Cat" twin).1
  let ready := (start.addSprite "Dog" curtain).1.greenFlag.1
  have hready : Show (fun _ => True) ready :=
    (((Show.blank _ ()).apply (c := .addSprite "Cat" twin) nofun rfl).apply
      (c := .addSprite "Dog" curtain) nofun rfl).apply (c := .greenFlag) nofun rfl
  exact ⟨ready, hready, by decide +kernel, by decide +kernel,
    fun e he t ht => (isolated_of_show hready he ht).1⟩

end World

end Stagecraft
