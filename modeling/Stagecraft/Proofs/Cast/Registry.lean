import Stagecraft.Proofs.Cast.Book
import Stagecraft.Proofs.Cast.Changes
import Stagecraft.Proofs.Schedule.Uniqueness

/-!
# The book of a world

A world keeps the book of its actors in its tables. Whatever happens to a world, in a step or
between steps, is a chain of entries of the book: an actor is added, cloned or deleted, and all else
leaves the book alone.

* `World.book` : the book of a world;
* `World.entries_of_change` : what a block does to the cast, the book has entries for;
* `World.entries_apply` : **so it has for every call of a host**.
-/

namespace Stagecraft

/-! ### Tables that are read in part -/

namespace Table

variable {κ α β : Type} [DecidableEq κ]

theorem get?_mapValues (t : Table κ α) (f : α → β) (k : κ) :
    (t.mapValues f).get? k = (t.get? k).map f := by
  apply Option.ext
  intro v
  rw [get?_eq_some_iff, Option.map_eq_some_iff, mapValues, List.mem_map]
  constructor
  · rintro ⟨⟨k', a⟩, ha, he⟩
    cases he
    exact ⟨a, (get?_eq_some_iff t _ a).2 ha, rfl⟩
  · rintro ⟨a, ha, rfl⟩
    exact ⟨(k, a), (get?_eq_some_iff t k a).1 ha, rfl⟩

theorem mapValues_insert (t : Table κ α) (f : α → β) (k : κ) (v : α) :
    (t.insert k v).mapValues f = (t.mapValues f).insert k (f v) := by
  have hrows : ∀ l : List (κ × α), (insertRow k v l).map (fun e => (e.1, f e.2)) =
      insertRow k (f v) (l.map fun e => (e.1, f e.2)) := by
    intro l
    induction l with
    | nil => rfl
    | cons e rest ih =>
      by_cases he : e.1 = k
      · simp [insertRow, he]
      · simp [insertRow, he, ih]
  exact eq_of_entries (hrows t.entries)

theorem mapValues_modify (t : Table κ α) {f : α → β} (k : κ) {g : α → α} {h : β → β}
    (hfg : ∀ a, f (g a) = h (f a)) : (t.modify k g).mapValues f = (t.mapValues f).modify k h := by
  refine eq_of_entries ?_
  simp only [mapValues, modify, List.map_map]
  refine List.map_congr_left fun e _ => ?_
  by_cases he : e.1 = k <;> simp [he, hfg]

/-- A change that cannot be read. -/
theorem mapValues_modify_of_eq (t : Table κ α) {f : α → β} (k : κ) {g : α → α}
    (hfg : ∀ a, f (g a) = f a) : (t.modify k g).mapValues f = t.mapValues f := by
  refine eq_of_entries ?_
  simp only [mapValues, modify, List.map_map]
  refine List.map_congr_left fun e _ => ?_
  by_cases he : e.1 = k <;> simp [he, hfg]

theorem mapValues_erase (t : Table κ α) (f : α → β) (k : κ) :
    (t.erase k).mapValues f = (t.mapValues f).erase k := by
  refine eq_of_entries ?_
  simp only [mapValues, erase, filter, List.filter_map]
  rfl

end Table

namespace World

variable {σ : Type} {w w' : World σ}

/-- The clones that the sprites list. -/
def rosters (w : World σ) : Table SpriteId (List ActorId) := w.sprites.mapValues (·.clones)

/-- The book of a world. -/
def book (w : World σ) : Book where
  roles := w.roles
  rosters := w.rosters
  nextActor := w.nextActor
  nextSprite := w.nextSprite
  cloneCount := w.cloneCount
  maxClones := w.settings.maxClones

/-! ### What leaves the book alone -/

theorem book_of_cast (h : SameCast w w') : w'.book = w.book := by
  simp only [book, roles, rosters, h.actors, h.sprites, h.nextActor, h.nextSprite, h.cloneCount,
    h.settings]

theorem book_of_register (h : SameRegister w w') : w'.book = w.book := by
  simp only [book, rosters, h.roles, h.sprites, h.nextActor, h.nextSprite, h.cloneCount, h.settings]

theorem book_modifyActor (w : World σ) (id : ActorId) {f : Actor → Actor}
    (hf : ∀ a, (f a).role = a.role) : (w.modifyActor id f).book = w.book := by
  unfold book
  rw [w.roles_modifyActor id hf]
  rfl

theorem book_editGraph (w : World σ) (id : ActorId) (f : Graph → Graph) :
    (w.editGraph id f).book = w.book := by
  unfold editGraph
  split
  · rename_i a _
    have hrosters : (w.sprites.modify a.sprite fun s =>
        { s with graph := (f s.graph).indexed }).mapValues (·.clones) = w.rosters :=
      w.sprites.mapValues_modify_of_eq a.sprite fun _ => rfl
    simp only [book, rosters, hrosters]
    rfl
  · rfl

theorem book_lookupVariable (w : World σ) (actor : ActorId) (id : Option String) (name : String)
    (kind : VariableKind) : (w.lookupVariable actor id name kind).1.book = w.book := by
  unfold lookupVariable
  split
  · rfl
  · split
    · rfl
    · exact book_modifyActor w actor fun _ => rfl

/-- The roster of a sprite is changed, and nothing else about it. -/
theorem rosters_modify (sprites : Table SpriteId Sprite) (sprite : SpriteId)
    (f : List ActorId → List ActorId) :
    (sprites.modify sprite fun s => { s with clones := f s.clones }).mapValues (·.clones) =
      (sprites.mapValues (·.clones)).modify sprite f :=
  sprites.mapValues_modify sprite fun _ => rfl

/-- Who an actor is can be read from the book. -/
theorem get?_roles (w : World σ) (id : ActorId) :
    w.book.roles.get? id = (w.actor? id).map Actor.role :=
  Table.get?_mapValues _ _ _

/-! ### Entries -/

/-- A clone at the end of the actors is a clone in the book. -/
theorem book_enterClone (w : World σ) (a : Actor) :
    ({ w with
      nextActor := w.nextActor + 1
      actors := w.actors.insert w.nextActor (a.clone w.nextActor)
      sprites := w.sprites.modify a.sprite fun s => { s with clones := s.clones ++ [w.nextActor] }
      cloneCount := w.cloneCount + 1 } : World σ).book = w.book.clone a.role := by
  simp only [book, roles, rosters, Book.clone, Table.mapValues_insert,
    rosters_modify w.sprites a.sprite (· ++ [w.nextActor])]
  rfl

/-- A row that is closed up is taken out of the book. -/
theorem book_closeUp (w : World σ) (id : ActorId) (a : Actor) :
    ({ w with
      actors := w.actors.erase id
      sprites := w.sprites.modify a.sprite fun s => { s with clones := s.clones.filter (· ≠ id) }
      cloneCount := w.cloneCount - 1 } : World σ).book = w.book.delete id a.role := by
  simp only [book, roles, rosters, Book.delete, Table.mapValues_erase,
    rosters_modify w.sprites a.sprite (·.filter (· ≠ id))]
  rfl

theorem get?_roles_of_actor {id : ActorId} {a : Actor} (ha : w.actor? id = some a) :
    w.book.roles.get? id = some a.role := by
  rw [get?_roles, ha]
  rfl

theorem entries_createClone (w : World σ) (source : ActorId) :
    Book.Entries w.book (w.createClone source).1.book := by
  rcases w.createClone_cases source with hs | ⟨a, ha, hstage, hlimit, hs⟩
  · rw [book_of_cast hs]
    exact .refl
  · rw [book_of_cast hs, book_enterClone]
    exact .single (.clone (get?_roles_of_actor ha) hstage hlimit)

theorem entries_deleteClone (w : World σ) (id : ActorId) :
    Book.Entries w.book (w.deleteClone id).1.book := by
  rcases w.deleteClone_cases id with he | ⟨a, ha, hclone, hs⟩
  · rw [he]
    exact .refl
  · rw [book_of_cast hs, book_closeUp]
    exact .single (.delete (get?_roles_of_actor ha) hclone)

theorem book_clearBubbles (w : World σ) : ({ w with
    actors := w.actors.mapValues fun a => { a with bubble := none } } : World σ).book = w.book := by
  have hroles : (w.actors.mapValues fun a => { a with bubble := none }).mapValues Actor.role =
      w.actors.mapValues Actor.role :=
    Table.eq_of_entries (by simp [Table.mapValues, Actor.role])
  simp only [book, roles, hroles, rosters]

theorem entries_stopAll (w : World σ) : Book.Entries w.book w.stopAll.book := by
  have hdelete : ∀ (ids : List ActorId) (w : World σ),
      Book.Entries w.book (ids.foldl (fun w id => (w.deleteClone id).1) w).book := by
    intro ids
    induction ids with
    | nil => exact fun _ => .refl
    | cons id rest ih => exact fun w => (entries_deleteClone w id).trans (ih _)
  obtain ⟨w₁, hs₁, w₂, rfl, hs₂⟩ := w.stopAll_cast
  rw [book_of_cast hs₂, book_clearBubbles, ← book_of_cast hs₁]
  exact hdelete _ _

/-- **What a block does to the cast, the book has entries for.** -/
theorem entries_of_change {actor : ActorId} (h : Change actor w w') :
    Book.Entries w.book w'.book := by
  cases h with
  | aside hs =>
    rw [book_of_cast hs]
    exact .refl
  | restyle f hf =>
    rw [book_modifyActor w actor fun a => by
      obtain ⟨x, y, visible, bubble, he⟩ := hf a
      rw [he]
      rfl]
    exact .refl
  | lookup id name kind =>
    rw [book_lookupVariable]
    exact .refl
  | @write id name kind place f _ _ =>
    have hwrite := book_modifyActor (w.lookupVariable actor id name kind).1 place.1
      (f := fun a => { a with vars := a.vars.modify place.2 f }) fun _ => rfl
    rw [modifyVariable, hwrite, book_lookupVariable]
    exact .refl
  | createClone source => exact entries_createClone w source
  | deleteClone => exact entries_deleteClone w actor
  | stopAll => exact entries_stopAll w

theorem entries_of_changed (h : Changed w w') : Book.Entries w.book w'.book :=
  h.keeps (P := fun w₁ => Book.Entries w.book w₁.book)
    (fun hc hes => hes.trans (entries_of_change hc)) .refl

/-- So a step is a chain of entries. -/
theorem entries_step {fuel : Nat} {ended : List ThreadId}
    (h : w.step .empty fuel = some (w', ended)) : Book.Entries w.book w'.book :=
  entries_of_changed (changed_step h)

/-! ### Calls -/

theorem book_addActor (w : World σ) (name : String) (g : Graph) (isStage : Bool) :
    (w.addActor name g isStage).1.book = w.book.add isStage := by
  simp only [addActor, book, roles, rosters, Book.add, Table.mapValues_insert]
  rfl

theorem entries_addActor (w : World σ) (name : String) (g : Graph) (isStage : Bool) :
    Book.Entries w.book (w.addActor name g isStage).1.book := by
  rw [book_addActor]
  exact .single (.add isStage)

theorem entries_addStage (w : World σ) (name : String) (g : Graph) :
    Book.Entries w.book (w.addStage name g).1.book := by
  have hstage : (w.addStage name g).1.book = (w.addActor name g true).1.book := by
    unfold addStage
    simp only
    split <;> rfl
  exact hstage ▸ entries_addActor w name g true

/-- The variables of a saved actor do not change who it is. -/
theorem role_dress (saved : SavedActor) (a : Actor) : (saved.dress a).role = a.role := by
  have hvars : ∀ (vars : List Variable) (a : Actor),
      (vars.foldl Actor.insertVariable a).role = a.role := by
    intro vars
    induction vars with
    | nil => exact fun _ => rfl
    | cons v rest ih => exact fun a => ih (a.insertVariable v)
  exact hvars saved.allVariables a

theorem entries_loadActor (w : World σ) (saved : SavedActor) :
    Book.Entries w.book (w.loadActor saved).1.book := by
  unfold loadActor
  simp only
  rw [book_modifyActor _ _ (role_dress saved)]
  split
  · exact entries_addStage w _ _
  · exact entries_addActor w _ _ false

theorem entries_loadActors (saved : List SavedActor) :
    ∀ w : World σ, Book.Entries w.book (w.loadActors saved).1.book := by
  induction saved with
  | nil => exact fun _ => .refl
  | cons a rest ih => exact fun w => (entries_loadActor w a).trans (ih _)

theorem entries_load (w : World σ) (p : SavedProject) : Book.Entries w.book (w.load p).1.book := by
  unfold load
  split
  · exact entries_loadActors p.targets w
  · exact entries_loadActors p.targets (w.notify _)

theorem entries_greenFlag (w : World σ) : Book.Entries w.book w.greenFlag.1.book := by
  unfold greenFlag
  simp only
  refine (book_of_cast (sameCast_startHats _ _ _ _)).symm ▸ ?_
  exact entries_stopAll w

theorem book_postCloud (w : World σ) (name : String) (v : Value) :
    (w.postCloud name v).book = w.book := by
  unfold postCloud
  split
  · rfl
  · split
    · split
      · exact book_modifyActor _ _ fun _ => rfl
      · rfl
    · rfl

theorem book_answerQuestion (w : World σ) (text : String) :
    (w.answerQuestion text).1.book = w.book := by
  unfold answerQuestion deliver
  split
  · rfl
  · simp only
    split <;> rfl

theorem sameCast_toggleScript (w : World σ) (actor : ActorId) (top : Handle) :
    SameCast w (w.toggleScript actor top).1 := by
  unfold toggleScript
  split
  · exact (sameCast_modifyRunning w actor top _).trans (sameCast_dropFinished _)
  · exact (w.sameCast_pushThread actor top).trans ⟨rfl, rfl, rfl, rfl, rfl, rfl, rfl⟩

theorem book_toggleScript (w : World σ) (actor : ActorId) (top : Handle) :
    (w.toggleScript actor top).1.book = w.book :=
  book_of_cast (w.sameCast_toggleScript actor top)

/-- **Every call of a host is a chain of entries.** -/
theorem entries_apply {c : Call} (h : c.apply w = some w') : Book.Entries w.book w'.book := by
  have hsame : ∀ {w₁ : World σ}, w₁.book = w.book → Book.Entries w.book w₁.book :=
    fun he => he ▸ .refl
  cases c with
  | addSprite name g =>
    cases h
    exact entries_addActor w name g false
  | addStage name g =>
    cases h
    exact entries_addStage w name g
  | load p =>
    cases h
    exact entries_load w p
  | loadStrict p =>
    cases h
    unfold loadStrict
    cases p.problems with
    | nil => exact entries_loadActors p.targets w
    | cons problem rest => exact .refl
  | greenFlag =>
    obtain rfl := Option.some.inj h
    exact entries_greenFlag w
  | broadcast message | clickActor actor =>
    cases h
    exact hsame (book_of_cast (sameCast_startHats w _ _ _))
  | queueEvent | postKey | postMouse | postPause | postUser | clock =>
    cases h
    exact hsame (book_of_cast ⟨rfl, rfl, rfl, rfl, rfl, rfl, rfl⟩)
  | postCloud name v =>
    cases h
    exact hsame (book_postCloud w name v)
  | answer text =>
    cases h
    exact hsame (book_answerQuestion w text)
  | toggleScript actor top =>
    cases h
    exact hsame (book_toggleScript w actor top)
  | createClone source =>
    cases h
    exact entries_createClone w source
  | deleteClone id =>
    cases h
    exact entries_deleteClone w id
  | stopAll =>
    cases h
    exact entries_stopAll w
  | step fuel =>
    obtain ⟨⟨w₁, ended⟩, hstep, rfl⟩ := Option.map_eq_some_iff.1 h
    exact entries_step hstep

end World

end Stagecraft
