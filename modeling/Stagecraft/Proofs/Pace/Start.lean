import Stagecraft.Proofs.Pace.Timeless
import Stagecraft.Proofs.Pace.Load
import Stagecraft.Proofs.Schedule.Growth

/-!
# Starting the script of a project

Before the first step of a world a project is loaded and scripts are started. None of that tells the
time, so what comes of it depends on the timeless part of the settings alone. A world that was
opened like that is ready: its threads stand at the tops of their scripts, and nothing else is under
way.

* `World.Start`, `World.opened` : what starts a script, and the world that comes of it;
* `World.timeless_opened` : **opened worlds differ in nothing but time**;
* `World.Ready`, `World.ready_opened` : what holds before the first step.
-/

namespace Stagecraft

/-- The thread stands at the top of its script. -/
structure Thread.Fresh (t : Thread) : Prop where
  stack : ∃ top, t.top = some top ∧ t.stack = [.start top false]
  status : t.status = .running
  restarting : t.restarting = false

theorem Thread.fresh_start (id : ThreadId) (actor : ActorId) (top : Handle) :
    (Thread.start id actor top).Fresh := ⟨⟨top, rfl, rfl⟩, rfl, rfl⟩

theorem Thread.Fresh.restart {t : Thread} (h : t.Fresh) : t.restart.Fresh := by
  obtain ⟨top, htop, -⟩ := h.stack
  exact ⟨⟨top, htop, by rw [Thread.restart, htop]⟩, rfl, rfl⟩

namespace World

variable {σ : Type}

/-- What starts a script before the first step. -/
inductive Start where
  /-- The green flag is clicked. -/
  | greenFlag
  /-- An event is raised: a message, a key, a click on an actor. -/
  | event (e : Event)
  /-- A script is clicked. -/
  | toggle (actor : ActorId) (top : Handle)
  /-- A script is started by its top block. -/
  | push (actor : ActorId) (top : Handle)

/-- What a start makes of a world. -/
def Start.apply (w : World σ) : Start → World σ
  | .greenFlag => w.greenFlag.1
  | .event e => (w.raise e).1
  | .toggle actor top => (w.toggleScript actor top).1
  | .push actor top => (w.pushThread actor top).1

/-- A world with a project in which scripts were started. -/
def opened (settings : Settings) (host : σ) (p : SavedProject) (starts : List Start)
    (dice : Nat → Nat := fun _ => 0) : World σ :=
  starts.foldl Start.apply ((blank settings host dice).load p).1

/-! ### Starting does not tell the time -/

/-- A change of a world that commutes with its timeless part. -/
def Timeless (f : World σ → World σ) : Prop := ∀ w, (f w).timeless = f w.timeless

theorem Timeless.comp {f f' : World σ → World σ} (h : Timeless f) (h' : Timeless f') :
    Timeless fun w => f' (f w) := fun w => by rw [h', h]

theorem Timeless.foldl {ι : Type} {f : World σ → ι → World σ} (hf : ∀ i, Timeless (f · i))
    (l : List ι) : Timeless fun w => l.foldl f w := by
  induction l with
  | nil => exact fun _ => rfl
  | cons i rest ih => exact (hf i).comp ih

/-- Changes that commute with the timeless part make the same of worlds that differ in time. -/
theorem Timeless.same {f : World σ → World σ} (hf : Timeless f) {w w' : World σ}
    (h : w.timeless = w'.timeless) : (f w).timeless = (f w').timeless := by
  rw [hf w, hf w', h]

theorem timeless_pushThread (w : World σ) (actor : ActorId) (top : Handle) :
    w.timeless.pushThread actor top =
      ((w.pushThread actor top).1.timeless, (w.pushThread actor top).2) := by
  have hpass : World.inPass { w.timeless with nextThread := w.timeless.nextThread + 1 } =
      World.inPass { w with nextThread := w.nextThread + 1 } := inPass_timeless w
  unfold pushThread
  simp only [hpass]
  split <;> rfl

theorem timeless_modifyRunning (w : World σ) (actor : ActorId) (top : Handle)
    (f : Thread → Thread) :
    (w.modifyRunning actor top f).timeless = w.timeless.modifyRunning actor top f :=
  apply_ite timeless _ _ _

theorem timeless_startScript (w : World σ) (restarts : Bool) (actor : ActorId) (top : Handle) :
    w.timeless.startScript restarts actor top =
      ((w.startScript restarts actor top).1.timeless,
        (w.startScript restarts actor top).2) := by
  have hcurrent : w.timeless.currentRuns actor top = w.currentRuns actor top := rfl
  have hrunning : w.timeless.running? actor top = w.running? actor top := rfl
  unfold startScript
  rw [hcurrent, hrunning, timeless_pushThread, ← timeless_modifyRunning]
  split
  · rfl
  · split
    · split <;> rfl
    · rfl

theorem timeless_startScripts (restarts : Bool) (scripts : List (ActorId × Handle)) :
    ∀ w : World σ, startScripts restarts scripts w.timeless =
      ((startScripts restarts scripts w).1.timeless, (startScripts restarts scripts w).2) := by
  induction scripts with
  | nil => exact fun _ => rfl
  | cons e rest ih =>
    intro w
    rw [startScripts, startScripts, timeless_startScript]
    simp only [ih]

theorem timeless_raise (e : Event) : Timeless fun w : World σ => (w.raise e).1 := by
  intro w
  unfold raise startHats
  split
  · rfl
  · exact (congrArg Prod.fst (timeless_startScripts _ _ w)).symm

theorem timeless_toggleScript (actor : ActorId) (top : Handle) :
    Timeless fun w : World σ => (w.toggleScript actor top).1 := by
  intro w
  have hrunning : w.timeless.running? actor top = w.running? actor top := rfl
  show (w.toggleScript actor top).1.timeless = (w.timeless.toggleScript actor top).1
  unfold toggleScript
  rw [hrunning, timeless_pushThread, ← timeless_modifyRunning, ← timeless_dropFinished]
  split <;> rfl

theorem timeless_deleteClone (id : ActorId) :
    Timeless fun w : World σ => (w.deleteClone id).1 := by
  intro w
  have hactor : w.timeless.actor? id = w.actor? id := rfl
  show (w.deleteClone id).1.timeless = (w.timeless.deleteClone id).1
  unfold deleteClone
  rw [hactor, ← timeless_stopActor]
  split
  · rfl
  · split <;> rfl

theorem timeless_clearPrompts : Timeless fun w : World σ => w.clearPrompts := by
  intro w
  have hdrop : ∀ p : Prompt, Timeless fun w : World σ => w.dropResolver p.channel :=
    fun _ _ => rfl
  exact Timeless.foldl hdrop w.prompts { w with prompts := [] }

theorem timeless_stopAll : Timeless fun w : World σ => w.stopAll := by
  have hthreads : Timeless fun w : World σ =>
      ((w.mapThreads Thread.retire).retireCurrent fun _ => true).dropFinished :=
    fun _ => timeless_dropFinished _
  have hclones : Timeless fun w : World σ =>
      w.clones.foldl (fun w id => (w.deleteClone id).1) w :=
    fun w => Timeless.foldl timeless_deleteClone w.clones w
  have hactors : Timeless fun w : World σ => clearPrompts { w with
      actors := w.actors.mapValues fun a => { a with bubble := none }
      events := .empty } := fun _ => timeless_clearPrompts _
  exact (hthreads.comp hclones).comp hactors

/-- The green flag resets the timer, which is left out. -/
theorem timeless_greenFlag (w : World σ) :
    w.greenFlag.1.timeless = (w.timeless.stopAll.raise .greenFlag).1 :=
  calc w.greenFlag.1.timeless
    _ = (w.stopAll.timeless.raise .greenFlag).1 :=
      timeless_raise .greenFlag { w.stopAll with timer := w.stopAll.timer.reset w.stopAll.now }
    _ = (w.timeless.stopAll.raise .greenFlag).1 :=
      congrArg (fun w : World σ => (w.raise .greenFlag).1) (timeless_stopAll w)

/-- **What starts a script does the same at any time.** -/
theorem Start.same (start : Start) {w w' : World σ} (h : w.timeless = w'.timeless) :
    (start.apply w).timeless = (start.apply w').timeless := by
  cases start with
  | greenFlag => rw [Start.apply, Start.apply, timeless_greenFlag, timeless_greenFlag, h]
  | event e => exact (timeless_raise e).same h
  | toggle actor top => exact (timeless_toggleScript actor top).same h
  | push actor top =>
    exact Timeless.same (f := fun w => (w.pushThread actor top).1)
      (fun w => (congrArg Prod.fst (timeless_pushThread w actor top)).symm) h

/-! ### Loading does not tell the time -/

theorem timeless_addStage (w : World σ) (name : String) (g : Graph) :
    w.timeless.addStage name g = ((w.addStage name g).1.timeless, (w.addStage name g).2) := by
  obtain ⟨_, _, _, _, _, _, stage, _⟩ := w
  cases stage <;> rfl

theorem timeless_loadActor (w : World σ) (saved : SavedActor) :
    w.timeless.loadActor saved = ((w.loadActor saved).1.timeless, (w.loadActor saved).2) := by
  unfold loadActor
  simp only [timeless_addStage]
  split <;> rfl

theorem timeless_loadActors (saved : List SavedActor) :
    Timeless fun w : World σ => (w.loadActors saved).1 := by
  induction saved with
  | nil => exact fun _ => rfl
  | cons a rest ih =>
    intro w
    simp only [loadActors, timeless_loadActor]
    exact ih _

theorem timeless_load (p : SavedProject) : Timeless fun w : World σ => (w.load p).1 := by
  intro w
  unfold load
  split <;> exact timeless_loadActors _ _

theorem timeless_blank {settings settings' : Settings} (h : settings.timeless = settings'.timeless)
    (host : σ) (dice : Nat → Nat) :
    (blank settings host dice).timeless = (blank settings' host dice).timeless := by
  have hwidth : settings.stageWidth = settings'.stageWidth := (congrArg Settings.stageWidth h :)
  have hheight : settings.stageHeight = settings'.stageHeight :=
    (congrArg Settings.stageHeight h :)
  have hlimits : settings.limits = settings'.limits := (congrArg Settings.limits h :)
  have hblank : ∀ s : Settings, (blank s host dice).timeless = { (blank s host dice).timeless with
      settings := s.timeless
      scheduler := some s.limits
      mouse := .create s.stageWidth.length s.stageHeight.length } := fun _ => rfl
  rw [hblank settings, hblank settings', h, hwidth, hheight, hlimits]
  rfl

/-- Worlds that were opened under settings that differ in pace differ in nothing but time. -/
theorem timeless_opened {settings settings' : Settings}
    (h : settings.timeless = settings'.timeless) (host : σ) (p : SavedProject)
    (starts : List Start) (dice : Nat → Nat) : (opened settings host p starts dice).timeless =
      (opened settings' host p starts dice).timeless := by
  have hfold : ∀ {w w' : World σ}, w.timeless = w'.timeless →
      (starts.foldl Start.apply w).timeless = (starts.foldl Start.apply w').timeless := by
    induction starts with
    | nil => exact fun h => h
    | cons start rest ih => exact fun h => ih (start.same h)
  exact hfold ((timeless_load p).same (timeless_blank h host dice))

/-! ### Worlds before the first step -/

/-- No step was taken yet: the threads stand at the tops of their scripts, and nothing waits for the
end of a pass. -/
structure Ready (c : Settings) (w : World σ) : Prop where
  settings : w.settings = c
  atRest : w.inPass = false
  spawned : w.spawned = []
  events : w.events = .empty
  current : w.current = none
  fresh : ∀ t ∈ w.threads, t.Fresh
  defines : ∀ id s, w.sprites.get? id = some s → s.graph.Defines

variable {c : Settings} {w : World σ}

theorem ready_blank (settings : Settings) (host : σ) (dice : Nat → Nat) :
    (blank settings host dice).Ready settings where
  settings := rfl
  atRest := rfl
  spawned := rfl
  events := rfl
  current := rfl
  fresh := by simp [blank]
  defines := fun _ _ h => nomatch h

/-- Other threads at the tops of their scripts. -/
theorem Ready.withThreads (h : w.Ready c) {threads : List Thread}
    (hfresh : ∀ t ∈ threads, t.Fresh) : ({ w with threads := threads } : World σ).Ready c :=
  { h with fresh := hfresh }

/-- Threads that have ended leave the list outside a pass. -/
theorem Ready.dropFinished (h : w.Ready c) {threads : List Thread}
    (hfresh : ∀ t ∈ threads, t.isDone = true ∨ t.Fresh) :
    ({ w with threads := threads } : World σ).dropFinished.Ready c := by
  have hrest : World.inPass { w with threads := threads } = false := h.atRest
  unfold World.dropFinished
  rw [hrest, if_neg Bool.false_ne_true]
  refine { h with spawned := ?_, fresh := fun t ht => ?_ }
  · simp [h.spawned]
  · obtain ⟨ht, hlive⟩ := List.mem_filter.1 ht
    exact (hfresh t ht).resolve_left (by simpa using hlive)

/-! ### Starting scripts -/

/-- Outside a pass the threads are all in one list. -/
theorem Ready.modifyRunning_eq (h : w.Ready c) (actor : ActorId) (top : Handle)
    (f : Thread → Thread) :
    ∃ threads, w.modifyRunning actor top f = { w with threads := threads } ∧
      ∀ t ∈ threads, ∃ u ∈ w.threads, t = u ∨ t = f u := by
  unfold modifyRunning
  split
  · have hrel := forall₂_modifyFirst (R := fun u t => t = u ∨ t = f u) (fun _ => .inl rfl)
      (fun u (_ : runsScript actor top u = true) => .inr rfl) w.threads
    exact ⟨_, rfl, fun t => exists_of_forall₂ hrel⟩
  · refine ⟨w.threads, ?_, fun t ht => ⟨t, ht, .inl rfl⟩⟩
    rw [h.spawned, modifyFirst]

theorem Ready.pushThread (h : w.Ready c) (actor : ActorId) (top : Handle) :
    (w.pushThread actor top).1.Ready c := by
  have hrest : World.inPass { w with nextThread := w.nextThread + 1 } = false := h.atRest
  unfold World.pushThread
  simp only [hrest, Bool.false_eq_true, if_false]
  refine { h with fresh := fun t ht => ?_ }
  rcases List.mem_append.1 ht with ht | ht
  · exact h.fresh t ht
  · rw [List.mem_singleton.1 ht]
    exact Thread.fresh_start _ _ _

theorem Ready.startScript (h : w.Ready c) (restarts : Bool) (actor : ActorId) (top : Handle) :
    (w.startScript restarts actor top).1.Ready c := by
  have hcurrent : w.currentRuns actor top = false := by rw [currentRuns, h.current]
  unfold World.startScript
  rw [hcurrent, if_neg Bool.false_ne_true]
  split
  · split
    · obtain ⟨threads, he, hthreads⟩ := h.modifyRunning_eq actor top Thread.restart
      simp only [he]
      refine h.withThreads fun t ht => ?_
      obtain ⟨u, hu, rfl | rfl⟩ := hthreads t ht
      · exact h.fresh t hu
      · exact (h.fresh u hu).restart
    · exact h
  · exact h.pushThread actor top

theorem Ready.startScripts (restarts : Bool) (scripts : List (ActorId × Handle)) :
    ∀ {w : World σ}, w.Ready c → (startScripts restarts scripts w).1.Ready c := by
  induction scripts with
  | nil => exact fun h => h
  | cons e rest ih => exact fun h => ih (h.startScript restarts e.1 e.2)

theorem Ready.raise (h : w.Ready c) (e : Event) : (w.raise e).1.Ready c := by
  unfold World.raise startHats
  split
  · exact { h with }
  · exact Ready.startScripts _ _ h

theorem Ready.toggleScript (h : w.Ready c) (actor : ActorId) (top : Handle) :
    (w.toggleScript actor top).1.Ready c := by
  unfold World.toggleScript
  split
  · obtain ⟨threads, he, hthreads⟩ := h.modifyRunning_eq actor top Thread.retire
    simp only [he]
    refine h.dropFinished fun t ht => ?_
    obtain ⟨u, hu, rfl | rfl⟩ := hthreads t ht
    · exact .inr (h.fresh t hu)
    · exact .inl rfl
  · have hpush := h.pushThread actor top
    refine { hpush with spawned := ?_, fresh := fun t ht => ?_ }
    · simp [mapThreads, hpush.spawned]
    · obtain ⟨u, hu, rfl⟩ := List.mem_map.1 ht
      have hfresh := hpush.fresh u hu
      split
      · exact ⟨hfresh.stack, hfresh.status, hfresh.restarting⟩
      · exact hfresh

/-! ### Stopping -/

/-- Some threads are told to end. -/
theorem Ready.sweep (h : w.Ready c) {f : Thread → Thread} (hf : ∀ t, f t = t ∨ (f t).isDone = true)
    (p : Current → Bool) : ((w.mapThreads f).retireCurrent p).dropFinished.Ready c := by
  have hswept : (w.mapThreads f).retireCurrent p = { w with threads := w.threads.map f } := by
    simp [mapThreads, retireCurrent, h.spawned, h.current]
  rw [hswept]
  refine h.dropFinished fun t ht => ?_
  obtain ⟨u, hu, rfl⟩ := List.mem_map.1 ht
  rcases hf u with hsame | hdone
  · exact .inr (hsame.symm ▸ h.fresh u hu)
  · exact .inl hdone

theorem Ready.deleteClone (h : w.Ready c) (id : ActorId) : (w.deleteClone id).1.Ready c := by
  unfold World.deleteClone
  split
  · exact h
  · split
    · exact h
    · have hstopped : (w.stopActor id none).Ready c := by
        refine h.sweep (fun t => ?_) _
        split
        · exact .inr rfl
        · exact .inl rfl
      refine { hstopped with defines := fun sprite s hs => ?_ }
      rw [Table.get?_modify] at hs
      split at hs
      · obtain ⟨s', hs', rfl⟩ := Option.map_eq_some_iff.1 hs
        exact hstopped.defines sprite s' hs'
      · exact hstopped.defines sprite s hs

theorem Ready.stopAll (h : w.Ready c) : w.stopAll.Ready c := by
  have hswept := h.sweep (f := Thread.retire) (fun _ => .inr rfl) fun _ => true
  have hdeleted := List.foldlRecOn
    (((w.mapThreads Thread.retire).retireCurrent fun _ => true).dropFinished.clones)
    (fun w id => (World.deleteClone w id).1) hswept fun w h id _ => h.deleteClone id
  unfold World.stopAll clearPrompts
  refine List.foldlRecOn (motive := Ready c) _ _ ?_ fun w h p _ => { h with }
  exact { hdeleted with events := rfl }

theorem Ready.greenFlag (h : w.Ready c) : w.greenFlag.1.Ready c := by
  have hreset : Ready c { w.stopAll with timer := w.stopAll.timer.reset w.stopAll.now } :=
    { h.stopAll with }
  exact hreset.raise .greenFlag

theorem Ready.start (h : w.Ready c) (start : Start) : (start.apply w).Ready c := by
  cases start with
  | greenFlag => exact h.greenFlag
  | event e => exact h.raise e
  | toggle actor top => exact h.toggleScript actor top
  | push actor top => exact h.pushThread actor top

/-! ### Loading -/

theorem Ready.addActor (h : w.Ready c) (name : String) {g : Graph} (hg : g.indexed.Defines)
    (isStage : Bool) : (w.addActor name g isStage).1.Ready c := by
  refine { h with defines := fun id s hs => ?_ }
  by_cases hid : id = w.nextSprite
  · subst hid
    have hnew := (Table.get?_insert_self w.sprites w.nextSprite _).symm.trans hs
    cases hnew
    exact hg
  · exact h.defines id s ((Table.get?_insert_of_ne w.sprites hid _).symm.trans hs)

theorem Ready.addStage (h : w.Ready c) (name : String) {g : Graph} (hg : g.indexed.Defines) :
    (w.addStage name g).1.Ready c := by
  have hadded := h.addActor name hg true
  unfold World.addStage
  simp only
  split <;> exact { hadded with }

theorem Ready.loadActor (h : w.Ready c) (saved : SavedActor) : (w.loadActor saved).1.Ready c := by
  have hdefines := (Graph.raw_ofSaved saved.blocks).defines
  unfold World.loadActor
  cases saved.isStage with
  | true =>
    have hadded := h.addStage saved.name hdefines
    exact { hadded with }
  | false =>
    have hadded := h.addActor saved.name hdefines false
    exact { hadded with }

theorem Ready.loadActors (saved : List SavedActor) :
    ∀ {w : World σ}, w.Ready c → (w.loadActors saved).1.Ready c := by
  induction saved with
  | nil => exact fun h => h
  | cons a rest ih => exact fun h => ih (h.loadActor a)

theorem Ready.load (h : w.Ready c) (p : SavedProject) : (w.load p).1.Ready c := by
  unfold World.load
  split
  · exact Ready.loadActors _ h
  · exact Ready.loadActors _ { h with }

theorem ready_opened (settings : Settings) (host : σ) (p : SavedProject) (starts : List Start)
    (dice : Nat → Nat) : (opened settings host p starts dice).Ready settings :=
  List.foldlRecOn _ _ ((ready_blank settings host dice).load p) fun _ h start _ => h.start start

end World

end Stagecraft
