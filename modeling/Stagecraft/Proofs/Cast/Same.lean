import Stagecraft.World.Hats

/-!
# What leaves the cast alone

The cast is the actors with their variables, the sprites with their programs, and the stage. Most of
what happens to a world is about threads, devices and results, and leaves the cast alone. What does
not is said here for clones: they come one at a time, and go when they are deleted or everything is
stopped.

* `Actor.Restyled`, `Variable.Rewritten` : what blocks do to an actor and to a variable;
* `World.SameCast` : two worlds with the same actors, programs and stage;
* `World.createClone_cases`, `World.deleteClone_cases`, `World.stopAll_cast` : what becomes of
  clones.
-/

namespace Stagecraft

/-! ### Changes of an actor and of a variable -/

/-- The actor is moved, shown, hidden or given a bubble. -/
def Actor.Restyled (a b : Actor) : Prop :=
  ∃ x y visible bubble, b = { a with x := x, y := y, visible := visible, bubble := bubble }

/-- The variable holds something else of the same kind. -/
structure Variable.Rewritten (v v' : Variable) : Prop where
  id : v'.id = v.id
  name : v'.name = v.name
  cloud : v'.cloud = v.cloud
  kind : v'.kind = v.kind

namespace Variable

theorem rewritten_set (v : Variable) (x : Value) : v.Rewritten (v.set x) := by
  unfold set
  cases h : v.content with
  | scalar y => exact ⟨rfl, rfl, rfl, by simp [kind, h]⟩
  | list items => exact ⟨rfl, rfl, rfl, rfl⟩

theorem rewritten_modifyItems (v : Variable) (f : List Value → List Value) :
    v.Rewritten (v.modifyItems f) := by
  unfold modifyItems
  cases h : v.content with
  | scalar y => exact ⟨rfl, rfl, rfl, rfl⟩
  | list items => exact ⟨rfl, rfl, rfl, by simp [kind, h]⟩

end Variable

namespace World

variable {σ : Type} {w w' w'' : World σ}

/-! ### What leaves the cast alone -/

/-- The same actors, programs, stage and settings, and the same ids to come. -/
structure SameCast (w w' : World σ) : Prop where
  actors : w'.actors = w.actors
  sprites : w'.sprites = w.sprites
  stage : w'.stage = w.stage
  nextActor : w'.nextActor = w.nextActor
  nextSprite : w'.nextSprite = w.nextSprite
  cloneCount : w'.cloneCount = w.cloneCount
  settings : w'.settings = w.settings

namespace SameCast

theorem refl (w : World σ) : SameCast w w := ⟨rfl, rfl, rfl, rfl, rfl, rfl, rfl⟩

theorem trans (h : SameCast w w') (h' : SameCast w' w'') : SameCast w w'' where
  actors := h'.actors.trans h.actors
  sprites := h'.sprites.trans h.sprites
  stage := h'.stage.trans h.stage
  nextActor := h'.nextActor.trans h.nextActor
  nextSprite := h'.nextSprite.trans h.nextSprite
  cloneCount := h'.cloneCount.trans h.cloneCount
  settings := h'.settings.trans h.settings

theorem actor? (h : SameCast w w') (id : ActorId) : w'.actor? id = w.actor? id := by
  rw [World.actor?, h.actors, World.actor?]

theorem graph? (h : SameCast w w') (id : ActorId) : w'.graph? id = w.graph? id := by
  simp only [World.graph?, World.actor?, h.actors, h.sprites]

/-- Something that keeps the cast is done for one item after the other. -/
theorem foldl {α : Type} {f : World σ → α → World σ} (hf : ∀ w a, SameCast w (f w a))
    (items : List α) : ∀ w, SameCast w (items.foldl f w) := by
  induction items with
  | nil => exact .refl
  | cons a rest ih => exact fun w => (hf w a).trans (ih _)

end SameCast

theorem sameCast_dropFinished (w : World σ) : SameCast w w.dropFinished := by
  unfold dropFinished
  split
  · exact .refl w
  · exact ⟨rfl, rfl, rfl, rfl, rfl, rfl, rfl⟩

theorem sameCast_pushThread (w : World σ) (actor : ActorId) (top : Handle) :
    SameCast w (w.pushThread actor top).1 := by
  unfold pushThread
  simp only
  split <;> exact ⟨rfl, rfl, rfl, rfl, rfl, rfl, rfl⟩

theorem sameCast_modifyRunning (w : World σ) (actor : ActorId) (top : Handle)
    (f : Thread → Thread) : SameCast w (w.modifyRunning actor top f) := by
  unfold modifyRunning
  split <;> exact ⟨rfl, rfl, rfl, rfl, rfl, rfl, rfl⟩

theorem sameCast_startScript (w : World σ) (restarts : Bool) (actor : ActorId) (top : Handle) :
    SameCast w (w.startScript restarts actor top).1 := by
  unfold startScript
  split
  · exact ⟨rfl, rfl, rfl, rfl, rfl, rfl, rfl⟩
  · split
    · split
      · exact sameCast_modifyRunning w actor top _
      · exact .refl w
    · exact sameCast_pushThread w actor top

theorem sameCast_startScripts (restarts : Bool) (scripts : List (ActorId × Handle)) :
    ∀ w : World σ, SameCast w (startScripts restarts scripts w).1 := by
  induction scripts with
  | nil => exact .refl
  | cons script rest ih =>
    exact fun w => (sameCast_startScript w restarts script.1 script.2).trans (ih _)

/-- Starting scripts leaves the cast alone. -/
theorem sameCast_startHats (w : World σ) (hat : Opcode) (fields : List (String × String))
    (only : Option ActorId) : SameCast w (w.startHats hat fields only).1 := by
  unfold startHats
  split
  · exact ⟨rfl, rfl, rfl, rfl, rfl, rfl, rfl⟩
  · exact sameCast_startScripts _ _ w

theorem sameCast_dispatchEvents (w : World σ) : SameCast w w.dispatchEvents := by
  have hdrain : SameCast w { w with events := w.events.drain.1 } :=
    ⟨rfl, rfl, rfl, rfl, rfl, rfl, rfl⟩
  exact hdrain.trans (SameCast.foldl (f := fun w e => (w.raise e).1)
    (fun w e => sameCast_startHats w e.hat e.fields e.actor) w.events.drain.2 _)

theorem sameCast_stopActor (w : World σ) (actor : ActorId) (keep : Option ThreadId) :
    SameCast w (w.stopActor actor keep) := by
  have hretire : SameCast w ((w.mapThreads fun t =>
      if t.actor = actor && some t.id ≠ keep then t.retire else t).retireCurrent
        fun c => c.actor == actor && some c.id != keep) := ⟨rfl, rfl, rfl, rfl, rfl, rfl, rfl⟩
  exact hretire.trans (sameCast_dropFinished _)

theorem sameCast_clearPrompts (w : World σ) : SameCast w w.clearPrompts := by
  have hempty : SameCast w { w with prompts := [] } := ⟨rfl, rfl, rfl, rfl, rfl, rfl, rfl⟩
  have hdrop : ∀ (w : World σ) (p : Prompt), SameCast w (w.dropResolver p.channel) := fun _ _ =>
    ⟨rfl, rfl, rfl, rfl, rfl, rfl, rfl⟩
  exact hempty.trans (SameCast.foldl hdrop w.prompts _)

/-- Nobody is cloned, or there is a new actor at the end. -/
theorem createClone_cases (w : World σ) (source : ActorId) :
    SameCast w (w.createClone source).1 ∨ ∃ a, w.actor? source = some a ∧ a.isStage = false ∧
      w.cloneCount < w.settings.maxClones ∧ SameCast { w with
        nextActor := w.nextActor + 1
        actors := w.actors.insert w.nextActor (a.clone w.nextActor)
        sprites := w.sprites.modify a.sprite fun s => { s with clones := s.clones ++ [w.nextActor] }
        cloneCount := w.cloneCount + 1 } (w.createClone source).1 := by
  unfold createClone
  split
  · exact .inl ⟨rfl, rfl, rfl, rfl, rfl, rfl, rfl⟩
  · rename_i hlimit
    split
    · exact .inl (.refl w)
    · rename_i a ha
      split
      · exact .inl (.refl w)
      · rename_i hstage
        exact .inr ⟨a, ha, Bool.eq_false_iff.2 hstage, Nat.lt_of_not_le hlimit,
          sameCast_startHats _ _ _ _⟩

/-- There is no such clone, or its row is closed up. -/
theorem deleteClone_cases (w : World σ) (id : ActorId) :
    (w.deleteClone id).1 = w ∨ ∃ a, w.actor? id = some a ∧ a.isClone = true ∧ SameCast { w with
        actors := w.actors.erase id
        sprites := w.sprites.modify a.sprite fun s => { s with clones := s.clones.filter (· ≠ id) }
        cloneCount := w.cloneCount - 1 } (w.deleteClone id).1 := by
  unfold deleteClone
  split
  · exact .inl rfl
  · rename_i a ha
    split
    · exact .inl rfl
    · rename_i hclone
      have hstop := w.sameCast_stopActor id none
      refine .inr ⟨a, ha, by simpa using hclone, ?_, ?_, hstop.stage, hstop.nextActor,
        hstop.nextSprite, ?_, hstop.settings⟩
      · simp only [hstop.actors]
      · simp only [hstop.sprites]
      · simp only [hstop.cloneCount]

/-- Stopping everything deletes the clones one after the other and clears the bubbles. -/
theorem stopAll_cast (w : World σ) : ∃ w₁, SameCast w w₁ ∧ ∃ w₂, w₂ =
    w₁.clones.foldl (fun w id => (w.deleteClone id).1) w₁ ∧
      SameCast { w₂ with actors := w₂.actors.mapValues fun a => { a with bubble := none } }
        w.stopAll := by
  have hretire : SameCast w ((w.mapThreads Thread.retire).retireCurrent fun _ => true) :=
    ⟨rfl, rfl, rfl, rfl, rfl, rfl, rfl⟩
  refine ⟨_, hretire.trans (sameCast_dropFinished _), _, rfl, ?_⟩
  refine SameCast.trans ?_ (sameCast_clearPrompts _)
  exact ⟨rfl, rfl, rfl, rfl, rfl, rfl, rfl⟩

theorem sameCast_draw (w : World σ) : SameCast w w.draw.1 := by
  simp only [draw]
  exact ⟨rfl, rfl, rfl, rfl, rfl, rfl, rfl⟩

end World

end Stagecraft
