import Stagecraft.Proofs.Saved.Program

/-!
# What an actor brings back

Loading puts the variables and the lists of an actor into one table, the lists last, and exporting
takes them apart again. A list that has the id of a variable takes its place, so the variable is
lost. All else comes back: the actors in their order, and of each the name, the kind, the place, the
program and the lists.

* `SavedActor.get?_vars_reloaded`, `SavedActor.get?_lists_reloaded` : what comes back of one actor;
* `World.toProject_load` : what comes back of a project, actor by actor;
* `World.returns_of_load` : **a project comes back as it was exactly if no list has the id of a
  variable of its actor**.
-/

namespace Stagecraft

/-! ### One actor -/

namespace SavedActor

variable (a : SavedActor)

/-- No list has the id of a variable. -/
def Separate : Prop := ∀ id ∈ a.vars.keys, id ∉ a.lists.keys

instance : Decidable a.Separate :=
  inferInstanceAs (Decidable (∀ id ∈ a.vars.keys, id ∉ a.lists.keys))

/-- A saved variable with its id, as the row of an actor's table. -/
def scalarRow (e : String × SavedVariable) : String × Variable :=
  (e.1, ⟨e.1, e.2.name, .scalar e.2.value, e.2.isCloud⟩)

/-- A saved list with its id, as the row of an actor's table. -/
def listRow (e : String × SavedList) : String × Variable :=
  (e.1, ⟨e.1, e.2.name, .list e.2.items, false⟩)

/-- The table that loading makes of the variables and lists. -/
def table : Table String Variable :=
  (a.lists.entries.map listRow).foldl (fun t e => t.insert e.1 e.2)
    ((a.vars.entries.map scalarRow).foldl (fun t e => t.insert e.1 e.2) .empty)

/-- The actor that loading makes. -/
def loaded (id : ActorId) (sprite : SpriteId) : Actor :=
  a.dress (.create id sprite a.name a.isStage)

/-- What is saved of the actor that loading makes. -/
def reloaded : SavedActor :=
  { a with vars := (a.loaded 0 0).savedVariables, lists := (a.loaded 0 0).savedLists }

theorem foldl_insertVariable (l : List Variable) :
    ∀ b : Actor, l.foldl Actor.insertVariable b =
      { b with vars := (l.map fun v => (v.id, v)).foldl (fun t e => t.insert e.1 e.2) b.vars } := by
  induction l with
  | nil => exact fun _ => rfl
  | cons v rest ih => exact fun b => ih (b.insertVariable v)

theorem loaded_eq (id : ActorId) (sprite : SpriteId) : a.loaded id sprite =
    { Actor.create id sprite a.name a.isStage with
      vars := a.table, x := a.x, y := a.y, visible := a.visible } := by
  rw [loaded, dress, foldl_insertVariable, allVariables, List.map_append, List.map_map,
    List.map_map, List.foldl_append]
  rfl

theorem sprite_loaded (id : ActorId) (sprite : SpriteId) :
    (a.loaded id sprite).sprite = sprite := by
  rw [loaded_eq]
  rfl

theorem nodup_scalarRow : ((a.vars.entries.map scalarRow).map (·.1)).Nodup := by
  rw [List.map_map]
  exact a.vars.nodup

theorem nodup_listRow : ((a.lists.entries.map listRow).map (·.1)).Nodup := by
  rw [List.map_map]
  exact a.lists.nodup

/-- The list under an id comes before the variable under that id. -/
theorem get?_table (id : String) : a.table.get? id =
    ((a.lists.get? id).map fun l => (listRow (id, l)).2).or
      ((a.vars.get? id).map fun v => (scalarRow (id, v)).2) := by
  have hfind : ∀ {α : Type} (row : String × α → String × Variable), (∀ e, (row e).1 = e.1) →
      ∀ l : List (String × α), ((l.map row).find? fun e => e.1 = id).map (·.2) =
        ((l.find? fun e => e.1 = id).map (·.2)).map fun v => (row (id, v)).2 := by
    intro α row hrow l
    rw [List.find?_map, Option.map_map, Option.map_map]
    have hp : ((fun e : String × Variable => decide (e.1 = id)) ∘ row) =
        fun e => decide (e.1 = id) :=
      funext fun e => by simp [hrow]
    rw [hp]
    refine Option.map_congr fun e he => ?_
    have hid : e.1 = id := by simpa using List.find?_some he
    subst hid
    rfl
  rw [table, Table.get?_foldl_insert _ _ _ a.nodup_listRow,
    Table.get?_foldl_insert _ _ _ a.nodup_scalarRow, hfind listRow fun _ => rfl,
    hfind scalarRow fun _ => rfl, Table.get?_empty, Option.or_none]
  rfl

/-- What is saved of a scalar. -/
def savedScalar? (v : Variable) : Option SavedVariable :=
  match v.content with
  | .scalar value => some ⟨v.name, value, v.cloud⟩
  | .list _ => none

/-- What is saved of a list. -/
def savedList? (v : Variable) : Option SavedList :=
  match v.content with
  | .scalar _ => none
  | .list items => some ⟨v.name, items⟩

theorem vars_reloaded : a.reloaded.vars = a.table.pick savedScalar? := by
  rw [reloaded, loaded_eq]
  rfl

theorem lists_reloaded : a.reloaded.lists = a.table.pick savedList? := by
  rw [reloaded, loaded_eq]
  rfl

/-- A variable comes back unless a list has its id. -/
theorem get?_vars_reloaded (id : String) :
    a.reloaded.vars.get? id = if id ∈ a.lists.keys then none else a.vars.get? id := by
  rw [vars_reloaded, Table.get?_pick, get?_table]
  simp only [Table.mem_keys_iff]
  cases a.lists.get? id with
  | some l => rfl
  | none => cases a.vars.get? id <;> rfl

/-- A list comes back. -/
theorem get?_lists_reloaded (id : String) : a.reloaded.lists.get? id = a.lists.get? id := by
  rw [lists_reloaded, Table.get?_pick, get?_table]
  cases a.lists.get? id with
  | some l => rfl
  | none => cases a.vars.get? id <;> rfl

variable {a} in
/-- Rows of variables and lists without a common id stay apart. -/
theorem Separate.entries_table (h : a.Separate) :
    a.table.entries = a.vars.entries.map scalarRow ++ a.lists.entries.map listRow := by
  have hscalars : ((a.vars.entries.map scalarRow).foldl (fun t e => t.insert e.1 e.2)
      (Table.empty : Table String Variable)).entries = a.vars.entries.map scalarRow :=
    Table.entries_ofList a.nodup_scalarRow
  rw [table, Table.entries_foldl_insert, hscalars]
  rw [hscalars, List.map_append]
  refine List.nodup_append.2 ⟨a.nodup_scalarRow, a.nodup_listRow, ?_⟩
  rintro id hvar _ hlist rfl
  rw [List.map_map] at hvar hlist
  exact h id hvar hlist

/-- An actor comes back as it was exactly if no list has the id of a variable. -/
theorem reloaded_eq_iff : a.reloaded = a ↔ a.Separate := by
  constructor
  · intro h id hvar hlist
    have hget := a.get?_vars_reloaded id
    rw [h, if_pos hlist] at hget
    rw [Table.mem_keys_iff, hget] at hvar
    cases hvar
  · intro h
    have hvars : a.reloaded.vars = a.vars := by
      apply Table.eq_of_entries
      rw [vars_reloaded, Table.entries_pick, h.entries_table, List.filterMap_append,
        List.filterMap_map,
        List.filterMap_map]
      simp [Function.comp_def, savedScalar?, scalarRow, listRow]
    have hlists : a.reloaded.lists = a.lists := by
      apply Table.eq_of_entries
      rw [lists_reloaded, Table.entries_pick, h.entries_table, List.filterMap_append,
        List.filterMap_map,
        List.filterMap_map]
      simp [Function.comp_def, savedList?, scalarRow, listRow]
    calc a.reloaded = { a with vars := a.reloaded.vars, lists := a.reloaded.lists } := rfl
      _ = a := by rw [hvars, hlists]

end SavedActor

/-! ### The cast -/

namespace World

variable {σ : Type} {w : World σ}

/-- An actor of a world is one that was loaded, with the program that was loaded for it. -/
structure Plays (w : World σ) (e : ActorId × Actor) (saved : SavedActor) : Prop where
  actor : e.2 = saved.loaded e.1 e.2.sprite
  program : (w.sprites.get? e.2.sprite).map (·.graph) = some (Graph.ofSaved saved.blocks).indexed

/-- The actors of a world are those that were loaded, in order. -/
structure Loaded (w : World σ) (saved : List SavedActor) : Prop where
  actor_lt : ∀ id ∈ w.actors.keys, id < w.nextActor
  sprite_lt : ∀ id ∈ w.sprites.keys, id < w.nextSprite
  actors : List.Forall₂ (Plays w) w.actors.entries saved

theorem loaded_blank (settings : Settings) (host : σ) (dice : Nat → Nat) :
    Loaded (blank settings host dice) [] :=
  ⟨fun _ h => absurd h List.not_mem_nil, fun _ h => absurd h List.not_mem_nil, .nil⟩

theorem Loaded.notify {saved : List SavedActor} (h : w.Loaded saved) (n : Notice) :
    (w.notify n).Loaded saved :=
  ⟨h.actor_lt, h.sprite_lt, h.actors.imp fun _ _ hp => ⟨hp.actor, hp.program⟩⟩

/-- All that loading an actor does to actors and programs. -/
theorem loadActor_cast (w : World σ) (a : SavedActor) :
    (w.loadActor a).1.nextActor = w.nextActor + 1 ∧
      (w.loadActor a).1.nextSprite = w.nextSprite + 1 ∧
      (w.loadActor a).1.sprites = w.sprites.insert w.nextSprite
        ⟨a.name, (Graph.ofSaved a.blocks).indexed, w.nextActor, []⟩ ∧
      (w.loadActor a).1.actors = (w.actors.insert w.nextActor
        (.create w.nextActor w.nextSprite a.name a.isStage)).modify w.nextActor a.dress := by
  unfold loadActor
  cases hstage : a.isStage with
  | false => exact ⟨rfl, rfl, rfl, rfl⟩
  | true =>
    simp only [if_true, addStage, addActor]
    cases w.stage <;> exact ⟨rfl, rfl, rfl, rfl⟩

theorem Loaded.loadActor {saved : List SavedActor} (h : w.Loaded saved) (a : SavedActor) :
    (w.loadActor a).1.Loaded (saved ++ [a]) := by
  obtain ⟨hnext, hnextSprite, hsprites, hactors⟩ := w.loadActor_cast a
  have hnew : w.nextActor ∉ w.actors.keys := fun hk => Nat.lt_irrefl _ (h.actor_lt _ hk)
  have hentries : (w.loadActor a).1.actors.entries =
      w.actors.entries ++ [(w.nextActor, a.loaded w.nextActor w.nextSprite)] := by
    rw [hactors]
    exact Table.entries_insert_modify _ _ _ hnew
  refine ⟨?_, ?_, ?_⟩
  · intro id hid
    rw [hnext]
    rw [Table.keys, hentries, List.map_append] at hid
    rcases List.mem_append.1 hid with hid | hid
    · exact Nat.lt_succ_of_lt (h.actor_lt id hid)
    · rw [List.mem_singleton.1 hid]
      exact Nat.lt_succ_self _
  · intro id hid
    rw [hnextSprite]
    rw [hsprites, Table.keys_insert] at hid
    split at hid
    · exact Nat.lt_succ_of_lt (h.sprite_lt id hid)
    · rcases List.mem_append.1 hid with hid | hid
      · exact Nat.lt_succ_of_lt (h.sprite_lt id hid)
      · rw [List.mem_singleton.1 hid]
        exact Nat.lt_succ_self _
  · have hold : ∀ e saved', w.Plays e saved' → (w.loadActor a).1.Plays e saved' := by
      intro e saved' hp
      refine ⟨hp.actor, ?_⟩
      -- the sprite of an actor that was there is not the new one
      have hne : e.2.sprite ≠ w.nextSprite := by
        intro he
        obtain ⟨s, hs, -⟩ := Option.map_eq_some_iff.1 hp.program
        have hk := h.sprite_lt e.2.sprite ((Table.mem_keys_iff _ _).2 (by rw [hs]; rfl))
        exact Nat.lt_irrefl _ (he ▸ hk)
      rw [hsprites, Table.get?_insert_of_ne _ hne]
      exact hp.program
    have hnew' : (w.loadActor a).1.Plays (w.nextActor, a.loaded w.nextActor w.nextSprite) a := by
      constructor
      · rw [SavedActor.sprite_loaded]
      · rw [SavedActor.sprite_loaded, hsprites, Table.get?_insert_self]
        rfl
    rw [hentries]
    exact List.rel_append (h.actors.imp hold) (.cons hnew' .nil)

theorem Loaded.loadActors (rest : List SavedActor) :
    ∀ {w : World σ} {saved : List SavedActor}, w.Loaded saved →
      (w.loadActors rest).1.Loaded (saved ++ rest) := by
  induction rest with
  | nil => exact fun h => (List.append_nil _).symm ▸ h
  | cons a rest ih =>
    intro w saved h
    rw [List.append_cons]
    exact ih (h.loadActor a)

theorem loaded_load (settings : Settings) (host : σ) (dice : Nat → Nat) (p : SavedProject) :
    ((blank settings host dice).load p).1.Loaded p.targets := by
  have h := loaded_blank settings host dice
  unfold load
  split
  · exact h.loadActors p.targets
  · exact (h.notify _).loadActors p.targets

/-! ### The project -/

theorem toSaved_indexed (g : Graph) : g.indexed.toSaved = g.toSaved := by
  unfold Graph.indexed
  split <;> rfl

/-- What is saved of an actor that was loaded. -/
theorem Plays.saveActor {e : ActorId × Actor} {saved : SavedActor} (h : w.Plays e saved)
    (he : e ∈ w.actors.entries) : e.2.isClone = false ∧ w.saveActor e.2 = saved.reloaded := by
  have hactor : e.2 = { Actor.create e.1 e.2.sprite saved.name saved.isStage with
      vars := saved.table, x := saved.x, y := saved.y, visible := saved.visible } :=
    h.actor.trans (saved.loaded_eq _ _)
  have hid : e.2.id = e.1 := congrArg (·.id) hactor
  have hgraph : w.graph? e.2.id = some (Graph.ofSaved saved.blocks).indexed := by
    rw [graph?, actor?, hid, (Table.get?_eq_some_iff _ _ _).2 he]
    exact h.program
  refine ⟨by rw [hactor]; rfl, ?_⟩
  rw [World.saveActor, hgraph]
  simp only [toSaved_indexed, Graph.toSaved_ofSaved, SavedActor.reloaded, SavedActor.loaded_eq]
  rw [hactor]
  rfl

/-- **What comes back of a project**, actor by actor. -/
theorem toProject_load (settings : Settings) (host : σ) (dice : Nat → Nat) (p : SavedProject) :
    ((blank settings host dice).load p).1.toProject = ⟨p.targets.map SavedActor.reloaded⟩ := by
  have hloaded := loaded_load settings host dice p
  generalize ((blank settings host dice).load p).1 = w at hloaded
  have hsave : ∀ {entries saved}, List.Forall₂ (Plays w) entries saved →
      (∀ e ∈ entries, e ∈ w.actors.entries) →
      ((entries.map (·.2)).filter (!·.isClone)).map w.saveActor =
        saved.map SavedActor.reloaded := by
    intro entries saved h
    induction h with
    | nil => exact fun _ => rfl
    | cons hp _ ih =>
      intro hmem
      obtain ⟨hclone, hsaved⟩ := hp.saveActor (hmem _ List.mem_cons_self)
      rw [List.map_cons, List.filter_cons_of_pos (by simp [hclone]), List.map_cons, hsaved,
        ih fun e he => hmem e (List.mem_cons_of_mem _ he), List.map_cons]
  rw [toProject, Table.values, hsave hloaded.actors fun _ h => h]

/-- What a saved actor brings back: everything but the variables whose ids lists have. -/
structure Returns (a b : SavedActor) : Prop where
  name : b.name = a.name
  isStage : b.isStage = a.isStage
  position : b.x = a.x ∧ b.y = a.y
  visible : b.visible = a.visible
  program : b.blocks = a.blocks
  lists : ∀ id, b.lists.get? id = a.lists.get? id
  vars : ∀ id, b.vars.get? id = if id ∈ a.lists.keys then none else a.vars.get? id

/-- **What loading loses.** A project that is loaded into a fresh world and exported again has the
same actors in the same order. Every actor has its name, kind, place, visibility and program, its
lists, and its variables but those whose ids lists of the actor have. So the project comes back
exactly as it was, with all its tables in the same order, if and only if no actor has a variable and
a list of the same id. -/
theorem returns_of_load (settings : Settings) (host : σ) (dice : Nat → Nat) (p : SavedProject) :
    List.Forall₂ Returns p.targets ((blank settings host dice).load p).1.toProject.targets ∧
      (((blank settings host dice).load p).1.toProject = p ↔ ∀ a ∈ p.targets, a.Separate) := by
  rw [toProject_load]
  constructor
  · refine List.forall₂_map_right_iff.2 (List.forall₂_same.2 fun a _ => ?_)
    exact ⟨rfl, rfl, ⟨rfl, rfl⟩, rfl, rfl, a.get?_lists_reloaded, a.get?_vars_reloaded⟩
  · have hmap : p.targets.map SavedActor.reloaded = p.targets.map id ↔
        ∀ a ∈ p.targets, a.reloaded = a := List.map_inj_left
    rw [List.map_id] at hmap
    simp only [← SavedActor.reloaded_eq_iff, ← hmap]
    exact ⟨fun h => congrArg (·.targets) h, fun h => congrArg SavedProject.mk h⟩

/-- A stage, and a sprite with a variable and a list. -/
def scoreboard (listId : String) : SavedProject where
  targets :=
    [{ Graph.ring with name := "Stage", isStage := true },
      { Graph.ring with
        vars := .ofList [("n", ⟨"count", .number 3.0, true⟩), ("m", ⟨"name", .text "", false⟩)]
        lists := .ofList [(listId, ⟨"scores", [.number 1.0, .flag true]⟩)]
        x := 10.0
        visible := false }]

/-- A project whose ids are separate comes back as it was. -/
theorem returns_of_load_scoreboard : (∀ a ∈ (scoreboard "s").targets, a.Separate) ∧
    ((blank .standard ()).load (scoreboard "s")).1.toProject = scoreboard "s" := by
  have h : ∀ a ∈ (scoreboard "s").targets, a.Separate := by decide +kernel
  exact ⟨h, (returns_of_load .standard () (fun _ => 0) (scoreboard "s")).2.2 h⟩

/-- A list with the id of a variable is all that is left of the two. -/
theorem lost_of_load_scoreboard :
    ((blank .standard ()).load (scoreboard "n")).1.toProject ≠ scoreboard "n" ∧
      (scoreboard "n").targets.map (fun a => (a.vars.size, a.lists.size)) = [(0, 0), (2, 1)] ∧
      ((blank .standard ()).load (scoreboard "n")).1.toProject.targets.map
        (fun a => (a.vars.size, a.lists.size)) = [(0, 0), (1, 1)] := by
  decide +kernel

end World

end Stagecraft
