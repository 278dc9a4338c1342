import Stagecraft.Proofs.Schedule.Route

/-!
# What a run does to the cast

Actors, their variables and their programs change in few ways while scripts run. A block of an actor
moves or restyles that actor, looks a variable up and writes it, creates a clone, deletes the actor
itself if it is a clone, or stops everything. All else that a step does leaves the cast alone. What
holds of the cast along such deeds holds after every step.

* `World.Change` : what a block of an actor does to the cast;
* `Primitive.changes_run` : a primitive does a chain of such deeds, for the actor of its thread;
* `Scene.Along.changes` : so does a turn, as far as it has come;
* `World.changed_step` : **and so does a step, for one actor after the other**.
-/

namespace Stagecraft

namespace World

variable {σ : Type} {w w' w'' : World σ}

/-! ### Deeds -/

/-- One thing that a block of an actor does to the cast. -/
inductive Change (actor : ActorId) : World σ → World σ → Prop
  /-- The cast is left alone. -/
  | aside {w w' : World σ} : SameCast w w' → Change actor w w'
  /-- The actor moves or changes its looks. -/
  | restyle (w : World σ) (f : Actor → Actor) : (∀ a : Actor, a.Restyled (f a)) →
      Change actor w (w.modifyActor actor f)
  /-- A variable is looked up. -/
  | lookup (w : World σ) (id : Option String) (name : String) (kind : VariableKind) :
      Change actor w (w.lookupVariable actor id name kind).1
  /-- A variable that was looked up is written. -/
  | write (w : World σ) (id : Option String) (name : String) (kind : VariableKind)
      {place : ActorId × String} (f : Variable → Variable) :
      (w.lookupVariable actor id name kind).2 = some place →
      (∀ v : Variable, v.Rewritten (f v)) →
      Change actor w ((w.lookupVariable actor id name kind).1.modifyVariable place f)
  /-- An actor is cloned. -/
  | createClone (w : World σ) (source : ActorId) : Change actor w (w.createClone source).1
  /-- The actor is deleted, if it is a clone. -/
  | deleteClone (w : World σ) : Change actor w (w.deleteClone actor).1
  /-- Everything is stopped, and all clones are deleted. -/
  | stopAll (w : World σ) : Change actor w w.stopAll

/-- Deeds of one actor after the other. -/
def Changed : World σ → World σ → Prop :=
  Relation.ReflTransGen fun w w' => ∃ actor, Change actor w w'

namespace Changed

theorem refl (w : World σ) : Changed w w := Relation.ReflTransGen.refl

theorem trans (h : Changed w w') (h' : Changed w' w'') : Changed w w'' :=
  Relation.ReflTransGen.trans h h'

theorem aside (h : SameCast w w') : Changed w w' := .single ⟨0, .aside h⟩

/-- **What every deed keeps holds after all of them.** -/
theorem keeps {P : World σ → Prop} (hchange : ∀ {actor w w'}, Change actor w w' → P w → P w')
    (h : Changed w w') (hw : P w) : P w' := by
  induction h with
  | refl => exact hw
  | tail _ hd ih =>
    obtain ⟨actor, hd⟩ := hd
    exact hchange hd ih

end Changed

end World

/-! ### Scenes -/

namespace Scene

variable {σ : Type} {s s' s'' : Scene σ}

/-- The thread stays with its actor, and that actor does a chain of deeds. -/
structure Changes (s s' : Scene σ) : Prop where
  actor : s'.thread.actor = s.thread.actor
  changes : Relation.ReflTransGen (World.Change s.thread.actor) s.world s'.world

namespace Changes

theorem refl (s : Scene σ) : Changes s s := ⟨rfl, .refl⟩

theorem trans (h : Changes s s') (h' : Changes s' s'') : Changes s s'' :=
  ⟨h'.actor.trans h.actor, h.changes.trans (h.actor ▸ h'.changes)⟩

theorem of_thread (s : Scene σ) {t : Thread} (ht : s.thread.Moved t) :
    Changes s { s with thread := t } :=
  ⟨ht.actor, .refl⟩

theorem of_change (s : Scene σ) {w : World σ} (hw : World.Change s.thread.actor s.world w) :
    Changes s { s with world := w } :=
  ⟨rfl, .single hw⟩

theorem aside (s : Scene σ) {w : World σ} (hw : World.SameCast s.world w) :
    Changes s { s with world := w } :=
  of_change s (.aside hw)

theorem changed (h : Changes s s') : World.Changed s.world s'.world :=
  h.changes.lift id fun _ _ hc => ⟨_, hc⟩

end Changes

end Scene

/-! ### Primitives -/

namespace Scene

variable {σ : Type} {site : Site} {op : Opcode} {s s' : Scene σ}

/-- **All that a built-in primitive does is a deed of the running actor.** -/
theorem Does.changes (h : Does site op s s') : Changes s s' := by
  cases h with
  | shift ht => exact .of_thread s ht.moved
  | aside hw => exact .aside s hw.cast
  | ask text _ => exact .aside s ⟨rfl, rfl, rfl, rfl, rfl, rfl, rfl⟩
  | restyle f hf => exact .of_change s (.restyle _ f hf)
  | lookup id name kind => exact .of_change s (.lookup _ id name kind)
  | write id name kind f hplace hf => exact .of_change s (.write _ id name kind f hplace hf)
  | request r _ => exact .aside s ⟨rfl, rfl, rfl, rfl, rfl, rfl, rfl⟩
  | startHats hat fields only => exact .aside s (World.sameCast_startHats _ hat fields only)
  | stopActor => exact .aside s (World.sameCast_stopActor _ _ _)
  | createClone source _ => exact .of_change s (.createClone _ source)
  | deleteClone _ _ _ => exact .of_change s (.deleteClone _)
  | stopAll _ => exact .of_change s (.stopAll _)

theorem Quits.changes (h : Quits site s s') : Changes s s' := by
  cases h with
  | stays => exact .refl s
  | stopScript => exact .of_thread s (s.thread.moved_stopScript site.graph)
  | retire => exact .of_thread s (Thread.moved_retire _)

end Scene

/-- **A built-in primitive does deeds of its actor.** -/
theorem Primitive.changes_run {σ : Type} (site : Site) (args : Args) (s : Scene σ) (op : Opcode) :
    Scene.Changes s (run .empty op site args s).1 :=
  (works_run site op args s).along .refl .trans Scene.Does.changes Scene.Quits.changes

/-! ### Turns and steps -/

/-- **A turn does deeds of its actor**, as far as it has come. -/
theorem Scene.Along.changes {σ : Type} {k : Scheduler} {g? : Option Graph} {s s' : Scene σ}
    {l : List (Invocation σ)} (h : Along k g? s l s') : Changes s s' := by
  induction h with
  | nil => exact .refl s
  | tidy _ ht ih => exact ih.trans ⟨ht.actor, .single (.aside ht.sameCast)⟩
  | @call _ i _ _ ih => exact ih.trans (Primitive.changes_run i.site i.args i.before i.opcode)

theorem Pass.changed_visitAt {σ : Type} {fuel i : Nat} {p p' : Pass σ}
    (h : visitAt .empty fuel p i = some p') : World.Changed p.world p'.world := by
  rcases along_visitAt h with ⟨-, rfl⟩ | ⟨t, s, -, halong, hworld, -⟩
  · exact .refl _
  · have hout : World.SameCast p.world (p.without i) := ⟨rfl, rfl, rfl, rfl, rfl, rfl, rfl⟩
    rw [hworld]
    exact ((World.Changed.aside hout).trans halong.changes.changed).trans
      (.aside ⟨rfl, rfl, rfl, rfl, rfl, rfl, rfl⟩)

namespace World

variable {σ β : Type} {w w' : World σ}

/-- The way through a step is a chain of deeds. -/
theorem Route.changed {k : Scheduler} {log : Pass σ → Nat → List β} {fuel : Nat} {l : List β}
    (h : Route k log fuel w l w') : Changed w w' := by
  induction h with
  | nil => exact .refl w
  | aside _ hi ih => exact ih.trans (.aside hi.sameCast)
  | turn _ _ hv ih => exact ih.trans (Pass.changed_visitAt hv)

/-- **A step does deeds of one actor after the other.** -/
theorem changed_step {fuel : Nat} {ended : List ThreadId}
    (h : w.step .empty fuel = some (w', ended)) : Changed w w' := by
  cases hs : w.scheduler with
  | none =>
    rw [step, hs] at h
    cases h
    exact .refl w
  | some k => exact (route_of_step hs (Pass.visitAtInvocations fuel) h).changed

end World

end Stagecraft
