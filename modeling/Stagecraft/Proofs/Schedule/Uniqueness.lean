import Stagecraft.Proofs.Graph.Operation
import Stagecraft.Proofs.Schedule.Stage
import Stagecraft.Saved.Load

/-!
# One thread for each script

A script runs at most once at a time. A thread that has its turn is out of the list, so it has to be
seen that there is room for it when it comes back: either it has ended, or its script was not
started meanwhile. A thread that was asked to end leaves room at once, and does end when its block
is over.

* `World.seating_apart` : threads of different scripts take turns and stay so;
* `World.Call` : what a host calls;
* `World.apart_of_play` : **between any two calls every script runs once at most**.
-/

namespace Stagecraft

namespace World

variable {σ : Type} {w w' : World σ}

/-! ### Steps -/

/-- The threads in the lists run different scripts. -/
def ListsApart (w : World σ) : Prop := (w.threads ++ w.spawned).Pairwise Thread.Apart

/-- **Threads of different scripts stay apart while they take turns.** -/
theorem seating_apart : Seating (ListsApart (σ := σ)) Room where
  thin hw _ hsub := hw.sublist hsub
  subdued hw _ hsub := apart_of_subdued hsub hw
  roomy hroom _ ht hs := by
    intro u hu
    rw [ht, hs] at hu
    exact hroom u hu
  effect h hw :=
    have hsingle := h.keeps.single ⟨hw.lists, hw.fits⟩
    ⟨hsingle.apart, hsingle.room⟩
  leave {w i t} hw ht := by
    obtain ⟨hthreads, hspawned, hacross⟩ := List.pairwise_append.1 hw
    have habsent : ∀ u : Thread, Thread.absent.Apart u := fun u h => by cases h
    refine ⟨List.pairwise_append.2 ⟨?_, hspawned, fun a ha b hb => ?_⟩, fun hd u hu hud => ?_⟩
    · exact apart_set hthreads (fun u _ => (habsent u).symm) i
    · rcases List.mem_or_eq_of_mem_set ha with ha | rfl
      · exact hacross a ha b hb
      · exact habsent b
    · rcases List.mem_append.1 hu with hu | hu
      · exact apart_of_absent hthreads ht hu hud hd
      · exact (hacross t (List.mem_of_getElem? ht) u hu hd hud).symm
  join {w t} i hw hroom := by
    obtain ⟨hthreads, hspawned, hacross⟩ := List.pairwise_append.1 hw
    refine List.pairwise_append.2 ⟨?_, hspawned, fun a ha b hb => ?_⟩
    · refine apart_set hthreads (fun u hu hud hd => ?_) i
      exact hroom hd u (List.mem_append_left _ hu) hud
    · rcases List.mem_or_eq_of_mem_set ha with ha | rfl
      · exact hacross a ha b hb
      · exact fun hd hbd => (hroom hd b (List.mem_append_right _ hb) hbd).symm

/-- Threads run different scripts, and nobody is on stage. -/
abbrev AtRest (w : World σ) : Prop := Seated ListsApart w

theorem AtRest.single (hw : w.AtRest) : w.Single :=
  ⟨hw.lists, hw.staged.fits⟩

theorem AtRest.of_keeps (hw : w.AtRest) (h : Keeps w w') : w'.AtRest := by
  refine ⟨(h.single hw.single).apart, ?_⟩
  have hstage := h.stage
  rwa [hw.stage, Option.map_none, Option.map_eq_none_iff] at hstage

/-! ### What a host calls -/

/-- A call of a host that starts threads at hats only. -/
inductive Call where
  /-- Add a sprite with a program. -/
  | addSprite (name : String) (g : Graph)
  /-- Add a stage with a program. -/
  | addStage (name : String) (g : Graph)
  /-- Load a project, with its problems as warnings. -/
  | load (p : SavedProject)
  /-- Load a project if it has no problems. -/
  | loadStrict (p : SavedProject)
  /-- Click the green flag. -/
  | greenFlag
  /-- Send a message. -/
  | broadcast (message : String)
  /-- Click an actor. -/
  | clickActor (actor : ActorId)
  /-- Queue an event. -/
  | queueEvent (e : Event)
  /-- A key goes down or up. -/
  | postKey (key : String) (down : Bool)
  /-- The pointer moves. -/
  | postMouse (e : MouseMove)
  /-- The timer is paused or resumed. -/
  | postPause (paused : Bool)
  /-- A user signs in. -/
  | postUser (name : String)
  /-- A shared variable changed elsewhere. -/
  | postCloud (name : String) (v : Value)
  /-- The question on screen is answered. -/
  | answer (text : String)
  /-- Start a script, or stop it when it runs. -/
  | toggleScript (actor : ActorId) (top : Handle)
  /-- Clone an actor. -/
  | createClone (source : ActorId)
  /-- Delete a clone. -/
  | deleteClone (id : ActorId)
  /-- Stop everything. -/
  | stopAll
  /-- The clock shows a reading and goes on from there as told. -/
  | clock (micros : Nat) (drift : Nat → Nat)
  /-- Run one pass. -/
  | step (fuel : Nat)

/-- What a call makes of a world; nothing when a step does not end within its fuel. -/
def Call.apply (w : World σ) : Call → Option (World σ)
  | .addSprite name g => some (w.addSprite name g).1
  | .addStage name g => some (w.addStage name g).1
  | .load p => some (w.load p).1
  | .loadStrict p => some (match w.loadStrict p with
    | .ok r => r.1
    | .error _ => w)
  | .greenFlag => some w.greenFlag.1
  | .broadcast message => some (w.broadcast message).1
  | .clickActor actor => some (w.clickActor actor).1
  | .queueEvent e => some (w.queueEvent e)
  | .postKey key down => some (w.postKey key down)
  | .postMouse e => some (w.postMouse e)
  | .postPause paused => some (w.postPause paused)
  | .postUser name => some (w.postUser name)
  | .postCloud name v => some (w.postCloud name v)
  | .answer text => some (w.answerQuestion text).1
  | .toggleScript actor top => some (w.toggleScript actor top).1
  | .createClone source => some (w.createClone source).1
  | .deleteClone id => some (w.deleteClone id).1
  | .stopAll => some w.stopAll
  | .clock micros drift => some { w.setClock micros with drift := drift }
  | .step fuel => (w.step .empty fuel).map (·.1)

/-- One call after the other. -/
def play (w : World σ) : List Call → Option (World σ)
  | [] => some w
  | c :: rest => (c.apply w).bind fun w => w.play rest

theorem calms_notify (w : World σ) (n : Notice) : Calms w (w.notify n) := .tend rfl rfl rfl

theorem calms_addActor (w : World σ) (name : String) (g : Graph) (isStage : Bool) :
    Calms w (w.addActor name g isStage).1 := .tend rfl rfl rfl

theorem calms_addStage (w : World σ) (name : String) (g : Graph) :
    Calms w (w.addStage name g).1 := by
  unfold addStage
  simp only
  split <;> exact .tend rfl rfl rfl

theorem calms_loadActors (saved : List SavedActor) :
    ∀ w : World σ, Calms w (w.loadActors saved).1 := by
  induction saved with
  | nil => exact .refl
  | cons a rest ih =>
    intro w
    refine Calms.trans ?_ (ih _)
    have hadd : Calms w (if a.isStage then w.addStage a.name (Graph.ofSaved a.blocks)
        else w.addSprite a.name (Graph.ofSaved a.blocks)).1 := by
      split
      · exact calms_addStage w _ _
      · exact calms_addActor w _ _ false
    exact hadd.trans (.tend rfl rfl rfl)

theorem calms_load (w : World σ) (p : SavedProject) : Calms w (w.load p).1 := by
  unfold load
  split
  · exact calms_loadActors _ w
  · exact (calms_notify w _).trans (calms_loadActors _ _)

theorem calms_postCloud (w : World σ) (name : String) (v : Value) :
    Calms w (w.postCloud name v) := by
  unfold postCloud
  split
  · exact calms_notify w _
  · split
    · split
      · exact .tend rfl rfl rfl
      · exact calms_notify w _
    · exact calms_notify w _

theorem calms_answerQuestion (w : World σ) (text : String) :
    Calms w (w.answerQuestion text).1 := by
  unfold answerQuestion deliver
  split
  · exact .refl w
  · simp only
    split <;> exact .tend rfl rfl rfl

/-- **A call keeps threads apart**, as long as it does not let them take turns. -/
theorem keeps_apply (hc : w.current = none) {c : Call} (hstep : ∀ fuel, c ≠ .step fuel)
    (h : c.apply w = some w') : Keeps w w' := by
  cases c with
  | addSprite name g =>
    cases h
    exact .of_calms (calms_addActor w _ _ false)
  | addStage name g =>
    cases h
    exact .of_calms (calms_addStage w _ _)
  | load p =>
    cases h
    exact .of_calms (calms_load w p)
  | loadStrict p =>
    cases h
    unfold loadStrict
    cases p.problems with
    | nil => exact .of_calms (calms_loadActors p.targets w)
    | cons problem rest => exact .refl w
  | greenFlag =>
    obtain rfl := Option.some.inj h
    exact keeps_greenFlag w
  | broadcast message | clickActor actor =>
    cases h
    exact keeps_startHats w _ _ _
  | queueEvent | postKey | postMouse | postPause | postUser | clock =>
    cases h
    exact .tend rfl rfl rfl
  | postCloud name v =>
    cases h
    exact .of_calms (calms_postCloud w name v)
  | answer text =>
    cases h
    exact .of_calms (calms_answerQuestion w text)
  | toggleScript actor top =>
    cases h
    exact keeps_toggleScript hc actor top
  | createClone source =>
    cases h
    exact keeps_createClone w source
  | deleteClone id =>
    cases h
    exact keeps_deleteClone w id
  | stopAll =>
    cases h
    exact keeps_stopAll w
  | step fuel => exact absurd rfl (hstep fuel)

/-- **A call leaves every script running once at most.** -/
theorem AtRest.apply (hw : w.AtRest) {c : Call} (h : c.apply w = some w') : w'.AtRest := by
  by_cases hstep : ∃ fuel, c = .step fuel
  · obtain ⟨fuel, rfl⟩ := hstep
    obtain ⟨⟨w₁, ended⟩, he, rfl⟩ := Option.map_eq_some_iff.1 h
    exact seating_apart.step hw he
  · exact hw.of_keeps (keeps_apply hw.stage (fun fuel he => hstep ⟨fuel, he⟩) h)

theorem AtRest.play {calls : List Call} (hw : w.AtRest) (h : w.play calls = some w') :
    w'.AtRest := by
  induction calls generalizing w with
  | nil =>
    cases h
    exact hw
  | cons c rest ih =>
    obtain ⟨w₁, hc, hrest⟩ := Option.bind_eq_some_iff.1 h
    exact ih (hw.apply hc) hrest

/-- **A script runs once at most.** Between any two calls, two threads that have not ended run
scripts of different actors or from different blocks, whatever random numbers were drawn. -/
theorem apart_of_play {settings : Settings} {host : σ} {dice : Nat → Nat} {calls : List Call}
    (h : (blank settings host dice).play calls = some w) :
    (w.threads ++ w.spawned).Pairwise fun t u =>
      t.isDone = false → u.isDone = false → ¬(t.actor = u.actor ∧ t.top = u.top) := by
  have hblank : (blank settings host dice).AtRest := ⟨.nil, rfl⟩
  refine (hblank.play h).lists.imp fun hap ht hu he => ?_
  exact hap ht hu (Prod.ext he.1 he.2)

/-- A script that sends the message that it waits for. -/
def echo : Graph :=
  Graph.empty.run
    [.create { Block.detached "hat" (.event .whenBroadcastReceived) with
        fields := Table.empty.insert "BROADCAST_OPTION" ⟨"echo", none⟩
        next := some ⟨1, 0⟩
        topLevel := true },
      .create { Block.detached "send" (.event .broadcast) with
        inputs := Table.empty.insert "BROADCAST_INPUT" (.literal (.text "echo"))
        parent := some ⟨0, 0⟩ }]

/-- The script is started, starts itself over while it has its turn, and is started over from
outside: there is one thread all the while. -/
theorem apart_of_echo : ∃ w, (blank Settings.standard ()).play
      [.addSprite "Cat" echo, .broadcast "Echo", .step 5, .broadcast "echo"] = some w ∧
    w.threads.map (fun t => (t.id, t.isDone)) = [(1, false)] ∧
    (w.threads ++ w.spawned).Pairwise fun t u =>
      t.isDone = false → u.isDone = false → ¬(t.actor = u.actor ∧ t.top = u.top) := by
  have hrun : ((blank Settings.standard ()).play
      [.addSprite "Cat" echo, .broadcast "Echo", .step 5, .broadcast "echo"]).map
        (fun w => w.threads.map (fun t => (t.id, t.isDone))) = some [(1, false)] := by
    decide +kernel
  obtain ⟨w, hw, hids⟩ := Option.map_eq_some_iff.1 hrun
  exact ⟨w, hw, hids, apart_of_play hw⟩

end World

end Stagecraft
