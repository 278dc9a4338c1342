import Stagecraft.Proofs.Schedule.Apart
import Stagecraft.Proofs.Schedule.Containment
import Stagecraft.Proofs.Schedule.Course

/-!
# Threads that have ended

A block may ask whether a thread is active: it is on stage, or it is in one of the lists and has
not ended. The thread on stage is the one that executes the block. Any other that is not active
has ended, and it stays so for the rest of the run.

* `World.SameStage` : whatever leaves the stage to the thread that is on it;
* `World.Ended` : a thread has ended, and it is not on stage;
* `Execution.presence` : who has ended at some moment of a run;
* `Execution.tells_presence` : **threads that have ended stay so in a run**.
-/

namespace Stagecraft

namespace World

variable {σ : Type} {w w' w'' : World σ} {id : ThreadId}

/-! ### The stage -/

/-- The stage is left to the thread that is on it. -/
def SameStage (w w' : World σ) : Prop := w'.current.map (·.id) = w.current.map (·.id)

namespace SameStage

theorem refl (w : World σ) : SameStage w w := rfl

theorem trans (h : SameStage w w') (h' : SameStage w' w'') : SameStage w w'' := Eq.trans h' h

theorem of_eq (h : w'.current = w.current) : SameStage w w' := congrArg _ h

/-- Something is noted about the thread. -/
theorem note (w : World σ) {f : Current → Current} (hf : ∀ c, (f c).id = c.id) :
    SameStage w { w with current := w.current.map f } := by
  unfold SameStage
  rw [Option.map_map]
  exact congrArg (w.current.map ·) (funext hf)

/-- Something is done for one item after the other. -/
theorem foldl {α : Type} {f : World σ → α → World σ} (hf : ∀ w a, SameStage w (f w a))
    (items : List α) : ∀ w, SameStage w (items.foldl f w) := by
  induction items with
  | nil => exact .refl
  | cons a rest ih => exact fun w => (hf w a).trans (ih _)

end SameStage

theorem sameStage_dropFinished (w : World σ) : SameStage w w.dropFinished := by
  unfold dropFinished
  split <;> exact .refl w

theorem sameStage_retireCurrent (w : World σ) (p : Current → Bool) :
    SameStage w (w.retireCurrent p) :=
  .note w fun c => by split <;> rfl

theorem sameStage_stopActor (w : World σ) (actor : ActorId) (keep : Option ThreadId) :
    SameStage w (w.stopActor actor keep) := by
  have hretire := sameStage_retireCurrent
    (w.mapThreads fun t => if t.actor = actor && some t.id ≠ keep then t.retire else t)
    fun c => c.actor == actor && some c.id != keep
  exact hretire.trans (sameStage_dropFinished _)

theorem sameStage_startScript (w : World σ) (restarts : Bool) (actor : ActorId) (top : Handle) :
    SameStage w (w.startScript restarts actor top).1 := by
  unfold startScript
  split
  · exact .note w fun _ => rfl
  · split
    · split
      · unfold modifyRunning
        split <;> exact .refl w
      · exact .refl w
    · exact .of_eq (current_pushThread w actor top)

theorem sameStage_startScripts (restarts : Bool) (scripts : List (ActorId × Handle)) :
    ∀ w : World σ, SameStage w (startScripts restarts scripts w).1 := by
  induction scripts with
  | nil => exact .refl
  | cons script rest ih =>
    intro w
    rw [startScripts]
    exact (sameStage_startScript w restarts script.1 script.2).trans (ih _)

theorem sameStage_startHats (w : World σ) (hat : Opcode) (fields : List (String × String))
    (only : Option ActorId) : SameStage w (w.startHats hat fields only).1 := by
  unfold startHats
  split
  · exact .refl w
  · exact sameStage_startScripts _ _ w

theorem sameStage_createClone (w : World σ) (source : ActorId) :
    SameStage w (w.createClone source).1 := by
  unfold createClone
  split
  · exact .refl w
  · split
    · exact .refl w
    · split
      · exact .refl w
      · exact SameStage.trans (.of_eq rfl) (sameStage_startHats _ _ _ _)

theorem sameStage_deleteClone (w : World σ) (id : ActorId) : SameStage w (w.deleteClone id).1 := by
  unfold deleteClone
  split
  · exact .refl w
  · split
    · exact .refl w
    · exact (sameStage_stopActor w id none).trans (.of_eq rfl)

theorem sameStage_clearPrompts (w : World σ) : SameStage w w.clearPrompts := by
  have hdrop : SameStage w { w with prompts := [] } := .of_eq rfl
  exact hdrop.trans (.foldl (f := fun w p => w.dropResolver p.channel) (fun _ _ => .of_eq rfl)
    w.prompts _)

theorem sameStage_stopAll (w : World σ) : SameStage w w.stopAll := by
  have hretire := (sameStage_retireCurrent (w.mapThreads Thread.retire) fun _ => true).trans
    (sameStage_dropFinished _)
  have hclones := hretire.trans (.foldl (f := fun w id => (w.deleteClone id).1)
    sameStage_deleteClone
    ((w.mapThreads Thread.retire).retireCurrent fun _ => true).dropFinished.clones _)
  unfold stopAll
  simp only
  refine SameStage.trans hclones (SameStage.trans ?_ (sameStage_clearPrompts _))
  exact .of_eq rfl

/-- **No effect puts another thread on the stage.** -/
theorem Effect.sameStage (h : Effect w w') : SameStage w w' := by
  cases h with
  | tend _ _ _ _ hc _ => exact .of_eq hc
  | startHats hat fields only => exact sameStage_startHats w hat fields only
  | stopActor actor keep => exact sameStage_stopActor w actor keep
  | stopAll => exact sameStage_stopAll w
  | createClone source => exact sameStage_createClone w source
  | deleteClone id => exact sameStage_deleteClone w id

end World

/-- The extensions leave the stage to the thread that is on it. -/
def Extensions.KeepsStage {σ : Type} (ext : Extensions σ) : Prop :=
  ∀ (name : String) (handler : Extension σ), ext.get? name = some handler →
    ∀ (site : Site) (args : Args) (s : Scene σ),
      World.SameStage s.world (handler site args s).1.world

namespace Scene

open World

variable {σ : Type} {ext : Extensions σ} {s s' : Scene σ}

theorem Acts.sameStage (hext : ext.KeepsStage) (h : Acts ext s s') :
    SameStage s.world s'.world := by
  induction h with
  | refl => exact .refl _
  | tail _ ha ih =>
    refine ih.trans ?_
    cases ha with
    | thread _ => exact .refl _
    | world hw => exact hw.sameStage
    | extended site args hget => exact hext _ _ hget site args _

theorem Obeyed.sameStage {r : Scene σ × Bool} (h : Obeyed s r) : SameStage s.world r.1.world := by
  cases h with
  | unasked => exact .refl _
  | stopped hc | startsOver hc => exact congrArg (Option.map (·.id)) hc.symm

/-- **Nor does a block.** -/
theorem Stepped.sameStage (hext : ext.KeepsStage) {g : Graph} {k k' : Scheduler} {turn : Turn}
    (h : Stepped ext g k s k' s' turn) : SameStage s.world s'.world := by
  have hacts : Acts ext s.entered (s.entered.execute ext k.countBlock g).1 :=
    acts_execute k.countBlock g s.entered
  have hentered : SameStage s.world s.entered.world := .of_eq rfl
  have hexec := hentered.trans (hacts.sameStage hext)
  cases h with
  | empty => exact .refl _
  | failed opcode _ hx =>
    rw [hx] at hexec
    exact hexec
  | obeyed _ hx ho =>
    rw [hx] at hexec
    exact hexec.trans (obeyed_of_obey ho).sameStage
  | moved _ hx _ hp =>
    rw [hx] at hexec
    obtain ⟨t, -, rfl⟩ := (proceeded_of_proceed hp).moves
    exact hexec

end Scene

/-! ### Threads that have ended -/

namespace World

variable {σ : Type} {w w' : World σ} {id : ThreadId}

/-- A thread has ended, and it is not on stage. -/
structure Ended (w : World σ) (id : ThreadId) : Prop extends Spent w id where
  offStage : w.current.map (·.id) ≠ some id

theorem Ended.meanwhile (h : Ended w id) (hm : Meanwhile w w') (hs : SameStage w w') :
    Ended w' id :=
  ⟨h.toSpent.meanwhile hm, by rw [hs]; exact h.offStage⟩

/-- Threads other than the one on stage are active until they have ended. -/
theorem isActive_eq_false_iff (hnodup : ((w.threads ++ w.spawned).map (·.id)).Nodup)
    (hlt : id < w.nextThread) (hstage : w.current.map (·.id) ≠ some id) :
    w.isActive id = false ↔ w.Ended id := by
  have hactive : w.isActive id = (w.thread? id).any fun t => !t.isDone := by
    unfold isActive
    cases hc : w.current with
    | none => cases w.thread? id <;> rfl
    | some c =>
      have hne : c.id ≠ id := fun he => hstage (by rw [hc, ← he]; rfl)
      have hbeq : (c.id == id) = false := beq_eq_false_iff_ne.2 hne
      cases w.thread? id <;> simp [hbeq]
  rw [hactive]
  cases ht : w.thread? id with
  | none =>
    refine ⟨fun _ => ⟨⟨hlt, fun t hmem he => ?_⟩, hstage⟩, fun _ => rfl⟩
    exact absurd he (by simpa using List.find?_eq_none.1 ht t hmem)
  | some t =>
    have hmem := List.mem_of_find?_eq_some ht
    have hid : t.id = id := by simpa using List.find?_some ht
    simp only [Option.any_some, Bool.not_eq_eq_eq_not, Bool.not_false]
    refine ⟨fun hd => ⟨⟨hlt, fun u hu huid => ?_⟩, hstage⟩, fun h => h.done t hmem hid⟩
    rwa [List.inj_on_of_nodup_map hnodup hu hmem (huid.trans hid.symm)]

end World

/-! ### In a turn -/

namespace Scene

open World

variable {σ : Type} {ext : Extensions σ} {g : Graph}

/-- From one world to another of a turn. -/
structure Onward (w w' : World σ) : Prop where
  meanwhile : Meanwhile w w'
  stage : SameStage w w'

theorem Onward.refl (w : World σ) : Onward w w := ⟨.refl w, .refl w⟩

theorem Onward.trans {w w' w'' : World σ} (h : Onward w w') (h' : Onward w' w'') : Onward w w'' :=
  ⟨h.meanwhile.trans h'.meanwhile, h.stage.trans h'.stage⟩

theorem Onward.ended {w w' : World σ} {id : ThreadId} (h : Onward w w') (hw : w.Ended id) :
    w'.Ended id :=
  hw.meanwhile h.meanwhile h.stage

theorem onward_stepBlock (hext : ext.Orderly) (hstage : ext.KeepsStage) (g : Graph) (k : Scheduler)
    (s : Scene σ) : Onward s.world (s.stepBlock ext g k).2.1.world := by
  rcases hstep : s.stepBlock ext g k with ⟨k₁, s₁, turn⟩
  have hstepped := stepped_of_stepBlock hstep
  exact ⟨(upheld_meanwhile hext).stepped hstepped, hstepped.sameStage hstage⟩

end Scene

namespace Pass

open World Scene

variable {σ : Type} {ext : Extensions σ} {w : World σ} {t : Thread} {id : ThreadId}

/-- What is told of the worlds in which a visit executes blocks: the thread is on stage. -/
structure Covers (w : World σ) (t : Thread) (l : List (Execution σ))
    (o : Option (Scheduler × Scene σ)) : Prop where
  alive : ∀ e ∈ l, t.isDone = false
  stage : ∀ e ∈ l, e.scene.world.current.map (·.id) = some t.id
  self : ∀ e ∈ l, Onward e.scene.world e.after.2.1.world
  first : ∀ e ∈ l, Meanwhile w e.scene.world
  order : l.Pairwise fun a b => Onward a.after.2.1.world b.scene.world
  last : ∀ k s, o = some (k, s) → ∀ e ∈ l, Meanwhile e.after.2.1.world s.world

theorem Covers.nil (w : World σ) (t : Thread) (o : Option (Scheduler × Scene σ)) :
    Covers w t [] o :=
  ⟨fun _ he => (by cases he), fun _ he => (by cases he), fun _ he => (by cases he),
    fun _ he => (by cases he), .nil, fun _ _ _ _ he => by cases he⟩

theorem covers_letRun (hext : ext.Orderly) (hstage : ext.KeepsStage) (fuel : Nat) (k : Scheduler)
    (w : World σ) (ht : t.isDone = false) :
    Covers w t (runExecutions ext fuel k w t) (letRun ext fuel k w t) := by
  refine runExecutions_cases (P := Covers w t) (.nil w t _) fun g _ => ?turn
  case turn =>
    have hturn : Scene.Unfolds (fun s s' : Scene σ => Onward s.world s'.world) ⟨onStage w t, t⟩
        (Scene.executions ext g fuel k ⟨onStage w t, t⟩)
        (Scene.takeTurn ext g fuel k ⟨onStage w t, t⟩) :=
      Scene.unfolds_executions (R := fun s s' => Onward s.world s'.world) (fun s => .refl s.world)
        Onward.trans (fun k s => onward_stepBlock hext hstage g k s) fuel k _
    have hon : Meanwhile w (onStage w t) := (upheld_meanwhile hext).stage _ _
    refine ⟨fun _ _ => ht, fun e he => (hturn.first e he).stage, hturn.self,
      fun e he => hon.trans (hturn.first e he).meanwhile, hturn.order, fun k' s h e he => ?_⟩
    obtain ⟨r, hr, heq⟩ := Option.map_eq_some_iff.1 h
    cases heq
    exact (hturn.last r.1 r.2 hr e he).meanwhile.trans ((upheld_meanwhile hext).stage _ _)

theorem covers_visit (hext : ext.Orderly) (hstage : ext.KeepsStage) (fuel : Nat) (k : Scheduler)
    (w : World σ) (t : Thread) :
    Covers w t (visitExecutions ext fuel k w t) (visit ext fuel k w t) := by
  refine visitExecutions_cases (P := Covers w t) (.nil w t _) (fun hst => ?runs)
    (fun s hst he => ?wakes) (fun _ _ _ => .nil w t _)
  case runs =>
    refine covers_letRun hext hstage fuel k w ?_
    rcases hst with hst | hst <;> simp [Thread.isDone, hst]
  case wakes =>
    have hwoken := woken_of_wake he
    have hwake := (upheld_meanwhile hext).woken hwoken
    have hrun := covers_letRun hext hstage fuel k s.world (t := s.thread)
      (by simp [Thread.isDone, hwoken.running])
    exact ⟨fun _ _ => by simp [Thread.isDone, hst],
      fun e he => (hrun.stage e he).trans (congrArg some hwoken.moved.id), hrun.self,
      fun e he => hwake.trans (hrun.first e he), hrun.order, hrun.last⟩

end Pass

/-! ### In a run -/

namespace Execution

open World Scene

variable {σ : Type} {ext : Extensions σ} {w w' : World σ} {l : List (Execution σ)}
  {P : Extensions σ → Prop}

/-- Who has ended at some moment: in a turn, of those that are not on stage. The thread that
executes a block is on stage. -/
def presence (σ : Type) : Course σ where
  View := Nat × (ThreadId → Prop)
  world w := (w.nextThread, w.Spent)
  scene s := (s.world.nextThread, s.world.Ended)
  Leads v v' := v.1 ≤ v'.1 ∧ ∀ id, v.2 id → v'.2 id
  Each e := e.scene.world.current.map (·.id) = some e.thread.id ∧
    Onward e.scene.world e.after.2.1.world
  trans h h' := ⟨Nat.le_trans h.1 h'.1, fun id hid => h'.2 id (h.2 id hid)⟩
  aside h := ⟨h.meanwhile.next_le, fun _ hid => hid.meanwhile h.meanwhile⟩
  events w :=
    have hm := Meanwhile.of_descends (tends_dispatchEvents w).descends
    ⟨hm.next_le, fun _ hid => hid.meanwhile hm⟩
  flush w :=
    have hm : Meanwhile w w.flushCloud.1 := .of_subset rfl (List.Subset.refl _)
    ⟨hm.next_le, fun _ hid => hid.meanwhile hm⟩

/-- **The turn at a place**: the thread that has it is another one. -/
theorem tells_visitAt (hext : ext.Orderly) (hstage : ext.KeepsStage) (fuel : Nat) (p : Pass σ)
    (i : Nat) : (presence σ).Tells p.world (Pass.visitExecutions.visitAt ext fuel p i) := by
  unfold Log.visitAt
  cases ht : p.world.threads[i]? with
  | none => exact (Course.Telling.nil ((presence σ).aside (.refl p.world))).toTells
  | some t =>
    have hcovers := Pass.covers_visit hext hstage fuel p.scheduler
      { p.world with threads := p.world.threads.set i .absent } t
    have hids := (Pass.keeps_visitExecutions hext fuel p.scheduler
      { p.world with threads := p.world.threads.set i .absent } t).ids
    refine ⟨fun e he => ⟨(hcovers.stage e he).trans (congrArg some (hids e he).symm),
      hcovers.self e he⟩, fun e he => ⟨(hcovers.first e he).next_le, fun id hid =>
        ⟨(hid.absent i).meanwhile (hcovers.first e he), ?_⟩⟩, ?_⟩
    · rw [hcovers.stage e he]
      intro hown
      have hdone := hid.done t (List.mem_append_left _ (List.mem_of_getElem? ht))
        (Option.some.inj hown)
      rw [hcovers.alive e he] at hdone
      cases hdone
    · exact hcovers.order.imp fun h => ⟨h.meanwhile.next_le, fun id hid => h.ended hid⟩

theorem visits_presence (hext : ext.Orderly) (hstage : ext.KeepsStage) :
    (presence σ).Visits ext := by
  refine ⟨tells_visitAt hext hstage, fun {fuel p p' i} h => ?_⟩
  have htells := tells_visitAt hext hstage fuel p i
  have hspent : ∀ id, p.world.Spent id → p'.world.Spent id := fun id hid => hid.visitAt hext rfl h
  unfold Log.visitAt at htells ⊢
  obtain ⟨ht, rfl⟩ | ⟨t, k, s, ht, hv, rfl⟩ := Pass.visitAt_cases h
  · rw [ht]
    exact .nil ((presence σ).aside (.refl _))
  · rw [ht] at htells ⊢
    have hcovers := Pass.covers_visit hext hstage fuel p.scheduler
      { p.world with threads := p.world.threads.set i .absent } t
    have hmean := (upheld_meanwhile hext).visit hv
    refine ⟨htells, ⟨hmean.next_le, hspent⟩, fun e he => ?_⟩
    have hlast := hcovers.last k s hv e he
    refine ⟨hlast.next_le, fun id hid => ?_⟩
    have hgone := hid.toSpent.meanwhile hlast
    refine ⟨hgone.lt, fun u hu huid => ?_⟩
    rcases Thread.mem_set hu with hu | rfl
    · exact hgone.done u hu huid
    · -- the thread that is back in its place is still on stage behind its block
      have hown : t.id = id := (Pass.conserves_visit hext hv).id.symm.trans huid
      have hstay := Eq.trans (hcovers.self e he).stage (hcovers.stage e he)
      exact absurd (hstay.trans (congrArg some hown)) hid.offStage

/-- **Threads that have ended stay so in a run**, also in a step that does not come to its end. -/
theorem tells_presence (hw : w.Settled) (h : Plays P w l w')
    (hP : ∀ ext, P ext → ext.Orderly ∧ ext.KeepsStage) (hext : P ext) (fuel : Nat) :
    (presence σ).Tells w (l ++ ofStep ext fuel w') :=
  Course.tells_of_plays (C := presence σ) hw h
    (fun hd => ⟨hd, hd.meanwhile.next_le, fun _ hid => hid.meanwhile hd.meanwhile⟩)
    (fun ext hp => ⟨(hP ext hp).1, visits_presence (hP ext hp).1 (hP ext hp).2⟩) hext fuel

end Execution

end Stagecraft
