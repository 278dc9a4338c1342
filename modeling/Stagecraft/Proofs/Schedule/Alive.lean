import Stagecraft.Proofs.Cast.Show
import Stagecraft.Proofs.Schedule.Containment

/-!
# Threads that ended leave the lists

In a pass a thread that ended stays in its list until the round is over. Between passes nothing has
to wait for that: whatever ends a thread drops it as well.

* `World.Alive` : no thread in the lists has ended;
* `World.Gesture.alive` : between steps it stays so;
* `World.alive_of_step` : **and a step leaves it so**.
-/

namespace Stagecraft.World

variable {σ : Type} {w w' : World σ}

/-- No thread in the lists has ended. -/
def Alive (w : World σ) : Prop := ∀ t ∈ w.threads ++ w.spawned, t.isDone = false

/-- Between passes, threads that ended are dropped. -/
theorem alive_dropFinished (hp : w.inPass = false) : w.dropFinished.Alive := by
  intro t ht
  rw [dropFinished, hp] at ht
  simp only [Bool.false_eq_true, if_false, ← List.filter_append] at ht
  exact Bool.not_eq_true' _ ▸ (List.mem_filter.1 ht).2

namespace Alive

/-- Whatever leaves the threads alone. -/
theorem tend (hw : w.Alive) (ht : w'.threads = w.threads) (hs : w'.spawned = w.spawned) :
    w'.Alive := by
  rwa [Alive, ht, hs]

theorem mapThreads {f : Thread → Thread} (hw : w.Alive)
    (hf : ∀ t, t.isDone = false → (f t).isDone = false) : (w.mapThreads f).Alive := by
  intro t ht
  simp only [World.mapThreads, ← List.map_append] at ht
  obtain ⟨u, hu, rfl⟩ := List.mem_map.1 ht
  exact hf u (hw u hu)

/-! ### Starting -/

theorem pushThread (hw : w.Alive) (actor : ActorId) (top : Handle) :
    (w.pushThread actor top).1.Alive := by
  intro t ht
  rcases List.mem_cons.1 ((w.perm_pushThread actor top).mem_iff.1 ht) with rfl | ht
  · rfl
  · exact hw t ht

theorem startScript (hw : w.Alive) (restarts : Bool) (actor : ActorId) (top : Handle) :
    (w.startScript restarts actor top).1.Alive := by
  -- a thread that is started over runs
  have hfirst : ∀ l : List Thread, (∀ t ∈ l, t.isDone = false) →
      ∀ t ∈ modifyFirst (runsScript actor top) Thread.restart l, t.isDone = false := by
    intro l hl t ht
    have hrel := forall₂_modifyFirst (R := fun t t' => t.isDone = false → t'.isDone = false)
      (fun _ h => h) (p := runsScript actor top) (f := Thread.restart) (fun _ _ _ => rfl) l
    obtain ⟨u, hu, hd⟩ := exists_of_forall₂ hrel ht
    exact hd (hl u hu)
  unfold World.startScript
  split
  · exact hw
  · split
    · split
      · unfold modifyRunning
        split
        · exact fun t ht => (List.mem_append.1 ht).elim
            (hfirst _ (fun u hu => hw u (List.mem_append_left _ hu)) t)
            fun ht => hw t (List.mem_append_right _ ht)
        · exact fun t ht => (List.mem_append.1 ht).elim
            (fun ht => hw t (List.mem_append_left _ ht))
            (hfirst _ (fun u hu => hw u (List.mem_append_right _ hu)) t)
      · exact hw
    · exact hw.pushThread actor top

theorem startScripts (restarts : Bool) (scripts : List (ActorId × Handle)) :
    ∀ {w : World σ}, w.Alive → (World.startScripts restarts scripts w).1.Alive := by
  induction scripts with
  | nil => exact id
  | cons script rest ih => exact fun hw => ih (hw.startScript restarts script.1 script.2)

theorem startHats (hw : w.Alive) (hat : Opcode) (fields : List (String × String))
    (only : Option ActorId) : (w.startHats hat fields only).1.Alive := by
  unfold World.startHats
  split
  · exact hw
  · exact startScripts _ _ hw

theorem raise (hw : w.Alive) (e : Event) : (w.raise e).1.Alive :=
  hw.startHats e.hat e.fields e.actor

theorem dispatchEvents (hw : w.Alive) : w.dispatchEvents.Alive := by
  have hfold : ∀ (raised : List Event) {w : World σ}, w.Alive →
      (raised.foldl (fun w e => (w.raise e).1) w).Alive := by
    intro raised
    induction raised with
    | nil => exact id
    | cons e rest ih => exact fun hw => ih (hw.raise e)
  exact hfold _ (hw.tend rfl rfl)

theorem createClone (hw : w.Alive) (source : ActorId) : (w.createClone source).1.Alive := by
  unfold World.createClone
  split
  · exact hw
  · split
    · exact hw
    · split
      · exact hw
      · refine raise ?_ _
        exact hw.tend rfl rfl

/-! ### Stopping -/

theorem stopActor (hp : w.inPass = false) (actor : ActorId) (keep : Option ThreadId) :
    (w.stopActor actor keep).Alive :=
  alive_dropFinished hp

theorem toggleScript (hw : w.Alive) (hp : w.inPass = false) (actor : ActorId) (top : Handle) :
    (w.toggleScript actor top).1.Alive := by
  unfold World.toggleScript
  split
  · refine alive_dropFinished ?_
    unfold modifyRunning
    split <;> exact hp
  · refine (hw.pushThread actor top).mapThreads fun t ht => ?_
    split <;> exact ht

theorem deleteClone (hw : w.Alive) (hp : w.inPass = false) (id : ActorId) :
    (w.deleteClone id).1.Alive := by
  unfold World.deleteClone
  split
  · exact hw
  · split
    · exact hw
    · exact (stopActor hp id none).tend rfl rfl

theorem deleteClones (ids : List ActorId) : ∀ {w : World σ}, w.Alive → w.inPass = false →
    (ids.foldl (fun w id => (w.deleteClone id).1) w).Alive := by
  induction ids with
  | nil => exact fun hw _ => hw
  | cons id rest ih =>
    intro w hw hp
    have hidle : (w.deleteClone id).1.inPass = false := by
      rw [inPass, (tends_deleteClone w id).scheduler]
      exact hp
    exact ih (hw.deleteClone hp id) hidle

theorem clearPrompts (hw : w.Alive) : w.clearPrompts.Alive := by
  have hfold : ∀ (prompts : List Prompt) {w : World σ}, w.Alive →
      (prompts.foldl (fun w p => w.dropResolver p.channel) w).Alive := by
    intro prompts
    induction prompts with
    | nil => exact id
    | cons p rest ih => exact fun hw => ih (hw.tend rfl rfl)
  exact hfold w.prompts (hw.tend rfl rfl)

theorem stopAll (hp : w.inPass = false) : w.stopAll.Alive := by
  have hdrop : ((w.mapThreads Thread.retire).retireCurrent fun _ => true).dropFinished.Alive :=
    alive_dropFinished hp
  have hidle : ((w.mapThreads Thread.retire).retireCurrent fun _ => true).dropFinished.inPass =
      false := by
    rw [inPass, (tends_dropFinished _).scheduler]
    exact hp
  unfold World.stopAll
  simp only
  refine clearPrompts ?_
  exact (deleteClones _ hdrop hidle).tend rfl rfl

end Alive

/-- **Between steps no thread in the lists has ended.** -/
theorem Gesture.alive (h : Gesture w w') (hw : w.Alive) (hp : w.inPass = false) : w'.Alive := by
  cases h with
  | tend h _ => exact hw.tend h.threads h.spawned
  | pushThread actor top => exact hw.pushThread actor top
  | toggleScript actor top => exact hw.toggleScript hp actor top
  | stopActor actor keep => exact .stopActor hp actor keep
  | startHats hat fields only => exact hw.startHats hat fields only
  | createClone source => exact hw.createClone source
  | deleteClone id => exact hw.deleteClone hp id
  | stopAll => exact .stopAll hp
  | greenFlag =>
    unfold World.greenFlag
    refine Alive.raise ?_ _
    exact (Alive.stopAll hp).tend rfl rfl

/-- **A step leaves no thread in the lists that has ended.** -/
theorem alive_of_step {ext : Extensions σ} {fuel : Nat} {ended : List ThreadId}
    (hp : w.inPass = false) (h : w.step ext fuel = some (w', ended)) : w'.Alive := by
  obtain ⟨p, hrounds, rfl⟩ := exists_rounds_of_step hp h
  have halive : ∀ t ∈ p.world.threads, t.isDone = false := by
    unfold roundsOfStep at hrounds
    split at hrounds
    · cases hrounds
    · exact Pass.alive_rounds _ hrounds
  have hafter : (afterPass p).Alive := by
    intro t ht
    simp only [afterPass, Pass.finish, List.append_nil] at ht
    rcases List.mem_append.1 ht with ht | ht
    · exact halive t ht
    · exact Bool.not_eq_true' _ ▸ (List.mem_filter.1 ht).2
  exact hafter.dispatchEvents.tend rfl rfl

end Stagecraft.World
