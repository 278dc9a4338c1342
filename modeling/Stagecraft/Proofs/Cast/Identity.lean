import Stagecraft.Proofs.Cast.Changes
import Stagecraft.Proofs.Schedule.Uniqueness

/-!
# Actors carry their ids

An actor is found under an id and carries one. The two are the same in every run: whatever changes
the cast puts a new actor under its own id and leaves the ids of the others alone.

* `World.Identified` : every actor carries the id under which it stands;
* `World.Identified.change` : no block does anything to that;
* `World.identified_of_play` : **so it holds in every run**, whatever the host calls.
-/

namespace Stagecraft

namespace World

variable {σ : Type} {w w' : World σ}

/-! ### Actors carry their ids -/

/-- Every actor carries the id under which it stands. -/
def Identified (w : World σ) : Prop := ∀ e ∈ w.actors.entries, e.2.id = e.1

namespace Identified

theorem of_same (h : SameCast w w') (hw : w.Identified) : w'.Identified := by
  intro e he
  rw [h.actors] at he
  exact hw e he

theorem actor? (hw : w.Identified) {id : ActorId} {a : Actor} (ha : w.actor? id = some a) :
    a.id = id :=
  hw _ ((Table.get?_eq_some_iff _ _ _).1 ha)

theorem modifyActor (hw : w.Identified) (id : ActorId) {f : Actor → Actor}
    (hf : ∀ a, (f a).id = a.id) : (w.modifyActor id f).Identified := by
  intro e he
  obtain ⟨e', he', rfl⟩ := List.mem_map.1 he
  split
  · exact (hf e'.2).trans (hw e' he')
  · exact hw e' he'

theorem insert (hw : w.Identified) {id : ActorId} {a : Actor} (ha : a.id = id) :
    ∀ e ∈ (w.actors.insert id a).entries, e.2.id = e.1 := by
  intro e he
  rcases List.mem_cons.1 ((w.actors.entries_insert_perm id a).mem_iff.1 he) with rfl | he
  · exact ha
  · exact hw e (List.mem_filter.1 he).1

theorem lookupVariable (hw : w.Identified) (actor : ActorId) (id : Option String) (name : String)
    (kind : VariableKind) : (w.lookupVariable actor id name kind).1.Identified := by
  unfold World.lookupVariable
  split
  · exact hw
  · split
    · exact hw
    · exact hw.modifyActor actor fun _ => rfl

theorem deleteClone (hw : w.Identified) (id : ActorId) : (w.deleteClone id).1.Identified := by
  rcases w.deleteClone_cases id with he | ⟨a, -, -, hs⟩
  · rwa [he]
  · refine of_same hs fun e he => hw e (List.mem_filter.1 he).1

theorem createClone (hw : w.Identified) (source : ActorId) :
    (w.createClone source).1.Identified := by
  rcases w.createClone_cases source with hs | ⟨a, -, -, -, hs⟩
  · exact of_same hs hw
  · exact of_same hs (hw.insert rfl)

theorem stopAll (hw : w.Identified) : w.stopAll.Identified := by
  have hdelete : ∀ (ids : List ActorId) {w : World σ}, w.Identified →
      (ids.foldl (fun w id => (w.deleteClone id).1) w).Identified := by
    intro ids
    induction ids with
    | nil => exact id
    | cons id rest ih => exact fun h => ih (h.deleteClone id)
  obtain ⟨w₁, hs₁, w₂, rfl, hs₂⟩ := w.stopAll_cast
  refine of_same hs₂ fun e he => ?_
  obtain ⟨e', he', rfl⟩ := List.mem_map.1 he
  exact hdelete _ (of_same hs₁ hw) e' he'

/-- **A change of the cast leaves the actors their ids.** -/
theorem change {actor : ActorId} (h : Change actor w w') (hw : w.Identified) : w'.Identified := by
  cases h with
  | aside hs => exact of_same hs hw
  | restyle f hf =>
    refine hw.modifyActor actor fun a => ?_
    obtain ⟨x, y, visible, bubble, he⟩ := hf a
    rw [he]
  | lookup id name kind => exact hw.lookupVariable actor id name kind
  | write id name kind f _ _ =>
    exact (hw.lookupVariable actor id name kind).modifyActor _ fun _ => rfl
  | createClone source => exact hw.createClone source
  | deleteClone => exact hw.deleteClone actor
  | stopAll => exact hw.stopAll

theorem addActor (hw : w.Identified) (name : String) (g : Graph) (isStage : Bool) :
    (w.addActor name g isStage).1.Identified :=
  hw.insert rfl

theorem addStage (hw : w.Identified) (name : String) (g : Graph) :
    (w.addStage name g).1.Identified := by
  unfold World.addStage
  simp only
  split <;> exact hw.addActor name g true

theorem loadActors (saved : List SavedActor) :
    ∀ {w : World σ}, w.Identified → (w.loadActors saved).1.Identified := by
  induction saved with
  | nil => exact id
  | cons a rest ih =>
    intro w hw
    refine ih ?_
    have hadd : (if a.isStage then w.addStage a.name (Graph.ofSaved a.blocks)
        else w.addSprite a.name (Graph.ofSaved a.blocks)).1.Identified := by
      split
      · exact hw.addStage _ _
      · exact hw.addActor _ _ false
    have hdress : ∀ (vars : List Variable) (b : Actor),
        (vars.foldl Actor.insertVariable b).id = b.id := by
      intro vars
      induction vars with
      | nil => exact fun _ => rfl
      | cons v rest ih => exact fun b => ih (b.insertVariable v)
    exact hadd.modifyActor _ fun b => hdress a.allVariables b

theorem postCloud (hw : w.Identified) (name : String) (v : Value) :
    (w.postCloud name v).Identified := by
  unfold World.postCloud
  split
  · exact hw
  · split
    · split
      · exact hw.modifyActor _ fun _ => rfl
      · exact hw
    · exact hw

theorem answerQuestion (hw : w.Identified) (text : String) :
    (w.answerQuestion text).1.Identified := by
  unfold World.answerQuestion deliver
  split
  · exact hw
  · simp only
    split <;> exact hw

/-- **A call leaves the actors their ids.** -/
theorem apply (hw : w.Identified) {c : Call} (h : c.apply w = some w') : w'.Identified := by
  cases c with
  | addSprite name g =>
    cases h
    exact hw.addActor name g false
  | addStage name g =>
    cases h
    exact hw.addStage name g
  | load p =>
    cases h
    unfold load
    split <;> exact loadActors p.targets hw
  | loadStrict p =>
    cases h
    unfold loadStrict
    cases p.problems with
    | nil => exact loadActors p.targets hw
    | cons problem rest => exact hw
  | greenFlag =>
    obtain rfl := Option.some.inj h
    exact of_same (sameCast_startHats _ _ _ _) hw.stopAll
  | broadcast message | clickActor actor =>
    cases h
    exact of_same (sameCast_startHats w _ _ _) hw
  | queueEvent | postKey | postMouse | postPause | postUser | clock =>
    cases h
    exact hw
  | postCloud name v =>
    cases h
    exact hw.postCloud name v
  | answer text =>
    cases h
    exact hw.answerQuestion text
  | toggleScript actor top =>
    cases h
    unfold toggleScript
    split
    · exact of_same ((sameCast_modifyRunning w actor top _).trans (sameCast_dropFinished _)) hw
    · have hpush := w.sameCast_pushThread actor top
      exact of_same (w := w) (hpush.trans ⟨rfl, rfl, rfl, rfl, rfl, rfl, rfl⟩) hw
  | createClone source =>
    cases h
    exact hw.createClone source
  | deleteClone id =>
    cases h
    exact hw.deleteClone id
  | stopAll =>
    cases h
    exact hw.stopAll
  | step fuel =>
    obtain ⟨⟨w₁, ended⟩, hstep, rfl⟩ := Option.map_eq_some_iff.1 h
    exact (changed_step hstep).keeps change hw

end Identified

/-- **In every run the actors carry their ids**, between calls and whenever a block is executed. -/
theorem identified_of_play {settings : Settings} {host : σ} {dice : Nat → Nat} {calls : List Call}
    (h : (blank settings host dice).play calls = some w) : w.Identified := by
  have hplay : ∀ (calls : List Call) {w₀ : World σ}, w₀.Identified → w₀.play calls = some w →
      w.Identified := by
    intro calls
    induction calls with
    | nil =>
      intro w₀ hw h
      cases h
      exact hw
    | cons c rest ih =>
      intro w₀ hw h
      obtain ⟨w₁, hc, hrest⟩ := Option.bind_eq_some_iff.1 h
      exact ih (hw.apply hc) hrest
  exact hplay calls (fun e he => by cases he) h

end World

end Stagecraft
