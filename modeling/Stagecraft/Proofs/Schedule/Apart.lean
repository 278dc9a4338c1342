import Stagecraft.Proofs.Schedule.Effects
import Stagecraft.Proofs.Schedule.Growth

/-!
# Threads of different scripts

Two threads are apart if they run different scripts or one of them has ended. A hat that is matched
while its script runs starts it over or leaves it alone. While the thread of the script has its
turn, and so is not in the list, what is asked of it stands in `current`; once it was asked to end
it no longer counts as running, and its script may be started anew.

* `Thread.Apart`, `Thread.Subdued` : threads of different scripts, and changes that keep them so;
* `World.Single` : threads are apart from each other and from the one that has its turn;
* `World.Calms` : nothing is started, which keeps them apart;
* `World.keeps_startHats` : a hat keeps them apart, and so does whatever is done to clones;
* `World.Effect.keeps` : **so does every effect of a built-in primitive**.
-/

namespace Stagecraft

/-! ### Threads and their scripts -/

namespace Thread

variable {t t' u : Thread}

/-- The script that a thread runs: its actor and the block that it started from. -/
def script (t : Thread) : ActorId × Option Handle := (t.actor, t.top)

/-- Two threads run different scripts, unless one of them has ended. -/
def Apart (t u : Thread) : Prop := t.isDone = false → u.isDone = false → t.script ≠ u.script

theorem Apart.symm (h : t.Apart u) : u.Apart t := fun hu ht he => h ht hu he.symm

theorem script_retire (t : Thread) : t.retire.script = t.script := rfl

theorem script_restart (t : Thread) : t.restart.script = t.script := rfl

theorem Moved.script (h : t.Moved t') : t'.script = t.script := by
  simp only [Thread.script, h.actor, h.top]

/-- A change of a thread that keeps its script and does not bring it back to life. -/
structure Subdued (t t' : Thread) : Prop where
  script : t'.script = t.script
  alive : t'.isDone = false → t.isDone = false

theorem Subdued.refl (t : Thread) : Subdued t t := ⟨rfl, fun h => h⟩

theorem subdued_retire (t : Thread) : Subdued t t.retire := ⟨rfl, fun h => by cases h⟩

end Thread

section Lists

variable {l l' : List Thread}

theorem subdued_refl (l : List Thread) : List.Forall₂ Thread.Subdued l l :=
  List.forall₂_same.2 fun t _ => .refl t

theorem apart_of_subdued (h : List.Forall₂ Thread.Subdued l l') (hl : l.Pairwise Thread.Apart) :
    l'.Pairwise Thread.Apart := by
  induction h with
  | nil => exact .nil
  | cons h₁ hrest ih =>
    obtain ⟨hhead, htail⟩ := List.pairwise_cons.1 hl
    refine List.pairwise_cons.2 ⟨fun u' hu' ht hu => ?_, ih htail⟩
    obtain ⟨u, hm, hs⟩ := exists_of_forall₂ hrest hu'
    rw [h₁.script, hs.script]
    exact hhead u hm (h₁.alive ht) (hs.alive hu)

/-- A thread that is apart from all others may take any place. -/
theorem apart_set {t : Thread} (hl : l.Pairwise Thread.Apart) (ht : ∀ u ∈ l, Thread.Apart u t)
    (i : Nat) : (l.set i t).Pairwise Thread.Apart := by
  induction l generalizing i with
  | nil => exact .nil
  | cons u rest ih =>
    obtain ⟨hhead, htail⟩ := List.pairwise_cons.1 hl
    have htrest : ∀ u ∈ rest, Thread.Apart u t := fun v hv => ht v (List.mem_cons_of_mem _ hv)
    cases i with
    | zero => exact List.pairwise_cons.2 ⟨fun v hv => (htrest v hv).symm, htail⟩
    | succ i =>
      refine List.pairwise_cons.2 ⟨fun v hv => ?_, ih htail htrest i⟩
      rcases List.mem_or_eq_of_mem_set hv with hv | rfl
      · exact hhead v hv
      · exact ht u List.mem_cons_self

/-- The others are apart from a thread that is taken out of its place. -/
theorem apart_of_absent {t u : Thread} (hl : l.Pairwise Thread.Apart) {i : Nat}
    (hi : l[i]? = some t) (hu : u ∈ l.set i .absent) : Thread.Apart u t := by
  induction l generalizing i with
  | nil => cases hi
  | cons v rest ih =>
    obtain ⟨hhead, htail⟩ := List.pairwise_cons.1 hl
    cases i with
    | zero =>
      cases hi
      rcases List.mem_cons.1 hu with rfl | hu
      · exact fun h => by cases h
      · exact (hhead u hu).symm
    | succ i =>
      have hi : rest[i]? = some t := hi
      rcases List.mem_cons.1 hu with rfl | hu
      · exact hhead t (List.mem_of_getElem? hi)
      · exact ih htail hi hu

end Lists

/-- The script of the thread that has its turn. -/
def Current.script (c : Current) : ActorId × Option Handle := (c.actor, c.top)

namespace World

variable {σ : Type} {w w' w'' : World σ}

/-! ### Worlds in which a script runs once -/

/-- Nothing in the lists runs the script of a thread. -/
def Room (w : World σ) (script : ActorId × Option Handle) : Prop :=
  ∀ t ∈ w.threads ++ w.spawned, t.isDone = false → t.script ≠ script

/-- Threads run different scripts, also other ones than the thread that has its turn, unless that
one was asked to end. -/
structure Single (w : World σ) : Prop where
  apart : (w.threads ++ w.spawned).Pairwise Thread.Apart
  room : ∀ c, w.current = some c → c.retire = false → w.Room c.script

/-- Whatever keeps threads apart, and leaves the stage to the script that is on it. -/
structure Keeps (w w' : World σ) : Prop where
  stage : w'.current.map (·.script) = w.current.map (·.script)
  single : w.Single → w'.Single

/-- Nothing joins the lists, no thread comes back to life, and it is not called off that the thread
on stage shall end. -/
inductive Calms : World σ → World σ → Prop
  /-- Threads are changed where they are. -/
  | subdued {w w' : World σ} : w'.current = w.current →
      List.Forall₂ Thread.Subdued (w.threads ++ w.spawned) (w'.threads ++ w'.spawned) → Calms w w'
  /-- Threads leave. -/
  | sublist {w w' : World σ} : w'.current = w.current →
      (w'.threads ++ w'.spawned).Sublist (w.threads ++ w.spawned) → Calms w w'
  /-- Something is noted about the thread on stage. -/
  | note (w : World σ) {f : Current → Current} : (∀ c, (f c).script = c.script) →
      (∀ c, (f c).retire = false → c.retire = false) →
      Calms w { w with current := w.current.map f }
  /-- One after the other. -/
  | trans {w w' w'' : World σ} : Calms w w' → Calms w' w'' → Calms w w''

namespace Calms

/-- Whatever leaves threads and stage alone. -/
theorem tend (ht : w'.threads = w.threads) (hs : w'.spawned = w.spawned)
    (hc : w'.current = w.current) : Calms w w' :=
  sublist hc (by rw [ht, hs])

theorem refl (w : World σ) : Calms w w := tend rfl rfl rfl

/-- Something calm is done for one item after the other. -/
theorem foldl {α : Type} {f : World σ → α → World σ} (hf : ∀ w a, Calms w (f w a))
    (items : List α) : ∀ w, Calms w (items.foldl f w) := by
  induction items with
  | nil => exact .refl
  | cons a rest ih => exact fun w => (hf w a).trans (ih _)

end Calms

namespace Keeps

theorem trans (h : Keeps w w') (h' : Keeps w' w'') : Keeps w w'' :=
  ⟨h'.stage.trans h.stage, fun hw => h'.single (h.single hw)⟩

/-- Where nothing is started, threads stay apart. -/
theorem of_calms (h : Calms w w') : Keeps w w' := by
  induction h with
  | @subdued w w' hc hl =>
    refine ⟨by rw [hc], fun hw => ⟨apart_of_subdued hl hw.apart, fun c hcur hr t ht hd => ?_⟩⟩
    obtain ⟨u, hu, hs⟩ := exists_of_forall₂ hl ht
    rw [hs.script]
    exact hw.room c (hc ▸ hcur) hr u hu (hs.alive hd)
  | @sublist w w' hc hl =>
    exact ⟨by rw [hc], fun hw => ⟨hw.apart.sublist hl, fun c hcur hr t ht hd =>
      hw.room c (hc ▸ hcur) hr t (hl.subset ht) hd⟩⟩
  | @note w f hscript hretire =>
    refine ⟨?_, fun hw => ⟨hw.apart, fun c hcur hr => ?_⟩⟩
    · simp only [Option.map_map]
      exact congrArg (w.current.map ·) (funext hscript)
    · obtain ⟨c₀, hc₀, rfl⟩ := Option.map_eq_some_iff.1 hcur
      rw [hscript c₀]
      exact hw.room c₀ hc₀ (hretire c₀ hr)
  | trans _ _ ih ih' => exact ih.trans ih'

/-- Whatever leaves threads and stage alone. -/
theorem tend (ht : w'.threads = w.threads) (hs : w'.spawned = w.spawned)
    (hc : w'.current = w.current) : Keeps w w' :=
  .of_calms (.tend ht hs hc)

theorem refl (w : World σ) : Keeps w w := tend rfl rfl rfl

end Keeps

/-! ### Stopping -/

theorem calms_mapThreads {f : Thread → Thread} (hf : ∀ t, Thread.Subdued t (f t)) (w : World σ) :
    Calms w (w.mapThreads f) := by
  refine .subdued rfl ?_
  rw [mapThreads, ← List.map_append]
  exact List.forall₂_map_right_iff.2 (List.forall₂_same.2 fun t _ => hf t)

/-- The thread that is changed runs, so it need not be kept from coming back to life. -/
theorem calms_modifyRunning {f : Thread → Thread} (hf : ∀ t, (f t).script = t.script)
    (w : World σ) (actor : ActorId) (top : Handle) : Calms w (w.modifyRunning actor top f) := by
  have hsub : ∀ t, runsScript actor top t = true → Thread.Subdued t (f t) := by
    intro t ht
    simp only [runsScript, Bool.and_eq_true, Bool.not_eq_true'] at ht
    exact ⟨hf t, fun _ => ht.2⟩
  have hfirst := forall₂_modifyFirst .refl hsub
  unfold modifyRunning
  split
  · exact .subdued rfl (List.rel_append (hfirst _) (subdued_refl _))
  · exact .subdued rfl (List.rel_append (subdued_refl _) (hfirst _))

theorem calms_dropFinished (w : World σ) : Calms w w.dropFinished := by
  unfold dropFinished
  split
  · exact .refl w
  · exact .sublist rfl (List.filter_sublist.append List.filter_sublist)

theorem calms_retireCurrent (w : World σ) (p : Current → Bool) : Calms w (w.retireCurrent p) := by
  refine .note w (fun c => ?_) (fun c hr => ?_)
  · split <;> rfl
  · split at hr
    · cases hr
    · exact hr

theorem calms_stopActor (w : World σ) (actor : ActorId) (keep : Option ThreadId) :
    Calms w (w.stopActor actor keep) := by
  have hretire : Calms w (w.mapThreads fun t =>
      if t.actor = actor && some t.id ≠ keep then t.retire else t) := by
    refine calms_mapThreads (fun t => ?_) w
    split
    · exact t.subdued_retire
    · exact .refl t
  exact (hretire.trans (calms_retireCurrent _ _)).trans (calms_dropFinished _)

theorem calms_clearPrompts (w : World σ) : Calms w w.clearPrompts := by
  have htend : Calms w { w with prompts := [] } := .tend rfl rfl rfl
  exact htend.trans (.foldl (f := fun w p => w.dropResolver p.channel)
    (fun _ _ => .tend rfl rfl rfl) w.prompts _)

/-! ### Starting -/

theorem room_of_running? {actor : ActorId} {top : Handle} (hn : w.running? actor top = none) :
    w.Room (actor, some top) := by
  intro t ht hd he
  have hrun := List.find?_eq_none.1 hn t ht
  obtain ⟨ha, htop⟩ := Prod.mk.inj he
  simp [runsScript, ha, htop, hd] at hrun

theorem ne_of_currentRuns {actor : ActorId} {top : Handle} (hr : w.currentRuns actor top = false)
    {c : Current} (hc : w.current = some c) (hretire : c.retire = false) :
    c.script ≠ (actor, some top) := by
  intro he
  obtain ⟨ha, htop⟩ := Prod.mk.inj he
  simp [currentRuns, hc, ha, htop, hretire] at hr

theorem perm_pushThread (w : World σ) (actor : ActorId) (top : Handle) :
    ((w.pushThread actor top).1.threads ++ (w.pushThread actor top).1.spawned).Perm
      (Thread.start w.nextThread actor top :: (w.threads ++ w.spawned)) := by
  unfold pushThread
  simp only
  split
  · rw [← List.append_assoc]
    exact List.perm_append_singleton _ _
  · rw [List.append_assoc]
    exact List.perm_middle

theorem current_pushThread (w : World σ) (actor : ActorId) (top : Handle) :
    (w.pushThread actor top).1.current = w.current := by
  unfold pushThread
  simp only
  split <;> rfl

/-- A script that does not run may be started. -/
theorem keeps_pushThread {actor : ActorId} {top : Handle} (hr : w.currentRuns actor top = false)
    (hn : w.running? actor top = none) : Keeps w (w.pushThread actor top).1 := by
  have hroom := room_of_running? hn
  have hperm := w.perm_pushThread actor top
  have hcur := w.current_pushThread actor top
  refine ⟨by rw [hcur], fun hw => ⟨?_, fun c hc hretire t ht hd => ?_⟩⟩
  · refine (hperm.pairwise_iff fun h => h.symm).2 (List.pairwise_cons.2 ⟨?_, hw.apart⟩)
    exact fun u hu _ hd he => hroom u hu hd he.symm
  · rw [hcur] at hc
    rcases List.mem_cons.1 (hperm.mem_iff.1 ht) with rfl | ht
    · exact (ne_of_currentRuns hr hc hretire).symm
    · exact hw.room c hc hretire t ht hd

theorem keeps_startScript (w : World σ) (restarts : Bool) (actor : ActorId) (top : Handle) :
    Keeps w (w.startScript restarts actor top).1 := by
  unfold startScript
  split
  · exact .of_calms (.note w (fun _ => rfl) fun _ h => h)
  · rename_i hr
    split
    · split
      · exact .of_calms (calms_modifyRunning Thread.script_restart w actor top)
      · exact .refl w
    · rename_i hn
      exact keeps_pushThread (Bool.eq_false_iff.2 hr) hn

theorem keeps_startScripts (restarts : Bool) (scripts : List (ActorId × Handle)) :
    ∀ w : World σ, Keeps w (startScripts restarts scripts w).1 := by
  induction scripts with
  | nil => exact .refl
  | cons script rest ih =>
    exact fun w => (keeps_startScript w restarts script.1 script.2).trans (ih _)

/-- **A hat starts scripts that do not run.** -/
theorem keeps_startHats (w : World σ) (hat : Opcode) (fields : List (String × String))
    (only : Option ActorId) : Keeps w (w.startHats hat fields only).1 := by
  unfold startHats
  split
  · exact .tend rfl rfl rfl
  · exact keeps_startScripts _ _ w

/-! ### Clones -/

theorem keeps_createClone (w : World σ) (source : ActorId) :
    Keeps w (w.createClone source).1 := by
  unfold createClone
  split
  · exact .tend rfl rfl rfl
  · split
    · exact .refl w
    · split
      · exact .refl w
      · refine Keeps.trans ?_ (keeps_startHats _ _ _ _)
        exact .tend rfl rfl rfl

theorem keeps_deleteClone (w : World σ) (id : ActorId) : Keeps w (w.deleteClone id).1 := by
  unfold deleteClone
  split
  · exact .refl w
  · split
    · exact .refl w
    · exact (Keeps.of_calms (calms_stopActor w id none)).trans (.tend rfl rfl rfl)

theorem keeps_deleteClones (ids : List ActorId) :
    ∀ w : World σ, Keeps w (ids.foldl (fun w id => (w.deleteClone id).1) w) := by
  induction ids with
  | nil => exact .refl
  | cons id rest ih => exact fun w => (keeps_deleteClone w id).trans (ih _)

theorem keeps_stopAll (w : World σ) : Keeps w w.stopAll := by
  have hretire := ((calms_mapThreads Thread.subdued_retire w).trans
    (calms_retireCurrent _ fun _ => true)).trans (calms_dropFinished _)
  have hdelete := (Keeps.of_calms hretire).trans (keeps_deleteClones
    ((w.mapThreads Thread.retire).retireCurrent fun _ => true).dropFinished.clones _)
  unfold stopAll
  simp only
  refine hdelete.trans (Keeps.trans ?_ (.of_calms (calms_clearPrompts _)))
  exact .tend rfl rfl rfl

theorem keeps_greenFlag (w : World σ) : Keeps w w.greenFlag.1 := by
  unfold greenFlag
  simp only
  refine (keeps_stopAll w).trans (Keeps.trans ?_ (keeps_startHats _ _ _ _))
  exact .tend rfl rfl rfl

/-- Between passes nobody is on stage, so a script that is not in the lists may be started. -/
theorem keeps_toggleScript (hc : w.current = none) (actor : ActorId) (top : Handle) :
    Keeps w (w.toggleScript actor top).1 := by
  unfold toggleScript
  split
  · exact .of_calms ((calms_modifyRunning Thread.script_retire w actor top).trans
      (calms_dropFinished _))
  · rename_i hn
    have hr : w.currentRuns actor top = false := by simp [currentRuns, hc]
    refine (keeps_pushThread hr hn).trans (.of_calms (calms_mapThreads (fun t => ?_) _))
    split
    · exact ⟨rfl, fun h => h⟩
    · exact .refl t

/-- **Every effect of a built-in primitive keeps threads apart.** -/
theorem Effect.keeps (h : Effect w w') : Keeps w w' := by
  cases h with
  | tend _ _ ht hs hc _ => exact .tend ht hs hc
  | startHats hat fields only => exact keeps_startHats w hat fields only
  | stopActor actor keep => exact .of_calms (calms_stopActor w actor keep)
  | stopAll => exact keeps_stopAll w
  | createClone source => exact keeps_createClone w source
  | deleteClone id => exact keeps_deleteClone w id

end World

end Stagecraft
