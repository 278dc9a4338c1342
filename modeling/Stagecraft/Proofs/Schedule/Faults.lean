import Stagecraft.Proofs.Schedule.Effects

/-!
# The record of faults

Faults are recorded when a turn ends in one, and nowhere else. Scripts are started, threads are
stopped and clones come and go without a fault being recorded or forgotten.

* `World.faults_startHats`, `World.faults_stopActor` : starting and stopping;
* `World.Effect.faults` : **no effect of a built-in primitive touches the record**.
-/

namespace Stagecraft.World

variable {σ : Type} {w w' : World σ}

/-! ### Starting and stopping threads -/

theorem faults_dropFinished (w : World σ) : w.dropFinished.faults = w.faults := by
  unfold dropFinished
  split <;> rfl

theorem faults_pushThread (w : World σ) (actor : ActorId) (top : Handle) :
    (w.pushThread actor top).1.faults = w.faults := by
  unfold pushThread
  simp only
  split <;> rfl

theorem faults_modifyRunning (w : World σ) (actor : ActorId) (top : Handle) (f : Thread → Thread) :
    (w.modifyRunning actor top f).faults = w.faults := by
  unfold modifyRunning
  split <;> rfl

theorem faults_startScript (w : World σ) (restarts : Bool) (actor : ActorId) (top : Handle) :
    (w.startScript restarts actor top).1.faults = w.faults := by
  unfold startScript
  split
  · rfl
  · split
    · split
      · exact faults_modifyRunning w actor top _
      · rfl
    · exact faults_pushThread w actor top

theorem faults_startScripts (restarts : Bool) (scripts : List (ActorId × Handle)) :
    ∀ w : World σ, (startScripts restarts scripts w).1.faults = w.faults := by
  induction scripts with
  | nil => exact fun _ => rfl
  | cons script rest ih =>
    exact fun w => (ih _).trans (faults_startScript w restarts script.1 script.2)

theorem faults_startHats (w : World σ) (hat : Opcode) (fields : List (String × String))
    (only : Option ActorId) : (w.startHats hat fields only).1.faults = w.faults := by
  unfold startHats
  split
  · rfl
  · exact faults_startScripts _ _ w

theorem faults_dispatchEvents (w : World σ) : w.dispatchEvents.faults = w.faults := by
  have hfold : ∀ (raised : List Event) (w : World σ),
      (raised.foldl (fun w e => (w.raise e).1) w).faults = w.faults := by
    intro raised
    induction raised with
    | nil => exact fun _ => rfl
    | cons e rest ih => exact fun w => (ih _).trans (faults_startHats w e.hat e.fields e.actor)
  exact hfold w.events.drain.2 { w with events := w.events.drain.1 }

theorem faults_stopActor (w : World σ) (actor : ActorId) (keep : Option ThreadId) :
    (w.stopActor actor keep).faults = w.faults :=
  faults_dropFinished _

/-! ### Clones, and stopping everything -/

theorem faults_createClone (w : World σ) (source : ActorId) :
    (w.createClone source).1.faults = w.faults := by
  unfold createClone
  split
  · rfl
  · split
    · rfl
    · split
      · rfl
      · exact faults_startHats _ _ _ _

theorem faults_deleteClone (w : World σ) (id : ActorId) :
    (w.deleteClone id).1.faults = w.faults := by
  unfold deleteClone
  split
  · rfl
  · split
    · rfl
    · exact faults_stopActor w id none

theorem faults_deleteClones (ids : List ActorId) :
    ∀ w : World σ, (ids.foldl (fun w id => (w.deleteClone id).1) w).faults = w.faults := by
  induction ids with
  | nil => exact fun _ => rfl
  | cons id rest ih => exact fun w => (ih _).trans (faults_deleteClone w id)

theorem faults_clearPrompts (w : World σ) : w.clearPrompts.faults = w.faults := by
  have hfold : ∀ (prompts : List Prompt) (w : World σ),
      (prompts.foldl (fun w p => w.dropResolver p.channel) w).faults = w.faults := by
    intro prompts
    induction prompts with
    | nil => exact fun _ => rfl
    | cons p rest ih => exact fun w => ih (w.dropResolver p.channel)
  exact hfold w.prompts { w with prompts := [] }

theorem faults_stopAll (w : World σ) : w.stopAll.faults = w.faults := by
  have hdrop := faults_dropFinished ((w.mapThreads Thread.retire).retireCurrent fun _ => true)
  unfold stopAll
  simp only
  rw [faults_clearPrompts]
  exact (faults_deleteClones _ _).trans hdrop

/-- **No effect of a built-in primitive touches the record of faults.** -/
theorem Effect.faults (h : Effect w w') : w'.faults = w.faults := by
  cases h with
  | tend _ _ _ _ _ hr => exact hr.faults
  | startHats hat fields only => exact faults_startHats w hat fields only
  | stopActor actor keep => exact faults_stopActor w actor keep
  | stopAll => exact faults_stopAll w
  | createClone source => exact faults_createClone w source
  | deleteClone id => exact faults_deleteClone w id

end Stagecraft.World
