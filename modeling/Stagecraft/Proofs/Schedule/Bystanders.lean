import Stagecraft.Proofs.Schedule.Apart
import Stagecraft.Proofs.Schedule.Fairness

/-!
# Threads that wait

While one thread has its turn the others wait in the lists. Blocks do two things to them: a thread
is stopped, or it is started over at its top block. Nothing else is done to a thread outside its own
turn, by whatever primitive.

* `World.Upheld` : a relation of worlds that a turn keeps to, because all it does keeps to it;
* `Thread.Handled` : a thread is left alone, stopped or started over;
* `World.Attends` : the threads in the lists are handled, and new ones come after them;
* `World.Effect.tends` : **every effect of a built-in primitive does so**, also where it lets
  threads leave the lists;
* `Pass.handled_visitAt` : **so does a turn with all threads but its own**.
-/

namespace Stagecraft

/-! ### What a turn keeps to -/

/-- A relation of worlds that everything keeps to which happens in a turn. -/
structure World.Upheld {σ : Type} (ext : Extensions σ) (R : World σ → World σ → Prop) : Prop where
  trans : ∀ {w w' w'' : World σ}, R w w' → R w' w'' → R w w''
  /-- Whatever leaves threads and cast alone. -/
  tend : ∀ {w w' : World σ}, w'.scheduler = w.scheduler → w'.nextThread = w.nextThread →
    w'.threads = w.threads → w'.spawned = w.spawned → SameCast w w' → R w w'
  effect : ∀ {w w' : World σ}, World.Effect w w' → R w w'
  extended : ∀ {name : String} {handler : Extension σ}, ext.get? name = some handler →
    ∀ (site : Site) (args : Args) (s : Scene σ), R s.world (handler site args s).1.world

namespace World.Upheld

open Scene

variable {σ : Type} {ext : Extensions σ} {R : World σ → World σ → Prop} {s s' : Scene σ}

theorem refl (hR : Upheld ext R) (w : World σ) : R w w := hR.tend rfl rfl rfl rfl (.refl w)

/-- Something is noted about the thread on stage, or another one goes there. -/
theorem stage (hR : Upheld ext R) (w : World σ) (c : Option Current) :
    R w { w with current := c } :=
  hR.tend rfl rfl rfl rfl ⟨rfl, rfl, rfl, rfl, rfl, rfl, rfl⟩

theorem acts (hR : Upheld ext R) (h : Acts ext s s') : R s.world s'.world := by
  induction h with
  | refl => exact hR.refl _
  | tail _ ha ih =>
    refine hR.trans ih ?_
    cases ha with
    | thread _ => exact hR.refl _
    | world hw => exact hR.effect hw
    | extended site args hget => exact hR.extended hget site args _

theorem obeyed (hR : Upheld ext R) {r : Scene σ × Bool} (h : Obeyed s r) : R s.world r.1.world := by
  cases h with
  | unasked => exact hR.refl _
  | stopped | startsOver => exact hR.stage _ _

theorem stepped (hR : Upheld ext R) {g : Graph} {k k' : Scheduler} {turn : Turn}
    (h : Stepped ext g k s k' s' turn) : R s.world s'.world := by
  have hentered : R s.world s.entered.world :=
    hR.tend rfl rfl rfl rfl ⟨rfl, rfl, rfl, rfl, rfl, rfl, rfl⟩
  have hexec := hR.trans hentered (hR.acts (acts_execute k.countBlock g s.entered))
  cases h with
  | empty => exact hR.refl _
  | failed opcode _ hx =>
    rw [hx] at hexec
    exact hR.trans hexec (hR.tend rfl rfl rfl rfl ⟨rfl, rfl, rfl, rfl, rfl, rfl, rfl⟩)
  | obeyed _ hx ho =>
    rw [hx] at hexec
    exact hR.trans hexec (hR.obeyed (obeyed_of_obey ho))
  | moved _ hx _ hp =>
    rw [hx] at hexec
    obtain ⟨t, -, rfl⟩ := (proceeded_of_proceed hp).moves
    exact hexec

theorem takeTurn (hR : Upheld ext R) {g : Graph} {fuel : Nat} {k k' : Scheduler}
    (h : Scene.takeTurn ext g fuel k s = some (k', s')) : R s.world s'.world :=
  takeTurn_induction (P := fun s s' => R s.world s'.world) hR.stepped
    (fun h ih => hR.trans (hR.stepped h) ih) fuel h

theorem performed (hR : Upheld ext R) {fuel : Nat} {k k' : Scheduler} {w : World σ} {t : Thread}
    (h : Pass.Performed ext fuel k w t k' s) : R w s.world := by
  cases h with
  | gone => exact hR.refl _
  | turn _ hturn =>
    have hstage : R w (Pass.onStage w t) := hR.stage _ _
    exact hR.trans (hR.trans hstage (hR.takeTurn hturn)) (hR.stage _ _)

theorem woken (hR : Upheld ext R) {k : Scheduler} {w : World σ} {t : Thread} {r : Scene σ × Bool}
    (h : Pass.Woken k w t r) : R w r.1.world := by
  cases h with
  | free => exact hR.refl _
  | waits | takesIn | refused =>
    exact hR.tend rfl rfl rfl rfl ⟨rfl, rfl, rfl, rfl, rfl, rfl, rfl⟩

/-- **A turn keeps to it.** -/
theorem visit (hR : Upheld ext R) {fuel : Nat} {k k' : Scheduler} {w : World σ} {t : Thread}
    (h : Pass.visit ext fuel k w t = some (k', s)) : R w s.world := by
  cases Pass.visited_of_visit h with
  | passed => exact hR.refl _
  | runs _ hr => exact hR.performed (Pass.performed_of_letRun hr)
  | wakes _ hw hr =>
    exact hR.trans (hR.woken (Pass.woken_of_wake hw)) (hR.performed (Pass.performed_of_letRun hr))
  | waits _ hw => exact hR.woken (Pass.woken_of_wake hw)

end World.Upheld

/-! ### Threads in other turns -/

/-- Lists that are related place by place, one after the other. -/
theorem forall₂_trans {R : Thread → Thread → Prop} (hR : ∀ {t t' t''}, R t t' → R t' t'' → R t t'')
    {l l' l'' : List Thread} (h : List.Forall₂ R l l') (h' : List.Forall₂ R l' l'') :
    List.Forall₂ R l l'' := by
  induction h generalizing l'' with
  | nil => exact h'
  | cons ht _ ih =>
    cases h' with
    | cons ht' hrest => exact .cons (hR ht ht') (ih hrest)

namespace Thread

variable {t t' t'' : Thread}

/-- What becomes of a thread in the turn of another one. -/
inductive Handled (t : Thread) : Thread → Prop
  /-- It is left alone. -/
  | kept : Handled t t
  /-- It is stopped: nothing is on its stack and nothing pending, and it has ended. -/
  | stopped : Handled t
      { t with
        stack := []
        pending := none
        warpSince := none
        restarting := false
        status := .done }
  /-- It is started over: a fresh frame stands on its top block and nothing is pending. -/
  | startedOver {h : Handle} : t.isDone = false → t.top = some h → Handled t
      { t with
        stack := [.start h false]
        pending := none
        warpSince := none
        restarting := false
        status := .running }

theorem handled_retire (t : Thread) : Handled t t.retire := .stopped

theorem handled_restart {h : Handle} (hd : t.isDone = false) (ht : t.top = some h) :
    Handled t t.restart := by
  have he : t.restart = { t with
      stack := [.start h false]
      pending := none
      warpSince := none
      restarting := false
      status := .running } := by simp only [restart, ht]
  exact he ▸ .startedOver hd ht

namespace Handled

theorem trans (h : Handled t t') (h' : Handled t' t'') : Handled t t'' := by
  cases h with
  | kept => exact h'
  | stopped =>
    cases h' with
    | kept => exact .stopped
    | stopped => exact .stopped
    | startedOver hd _ => cases hd
  | startedOver hd ht =>
    cases h' with
    | kept => exact .startedOver hd ht
    | stopped => exact .stopped
    | startedOver _ ht' =>
      cases ht.symm.trans ht'
      exact .startedOver hd ht

theorem id (h : Handled t t') : t'.id = t.id := by cases h <;> rfl

theorem script (h : Handled t t') : t'.script = t.script := by cases h <;> rfl

/-- Nothing brings a thread back to life. -/
theorem subdued (h : Handled t t') : Subdued t t' := by
  refine ⟨h.script, fun hd' => ?_⟩
  cases h with
  | kept => exact hd'
  | stopped => cases hd'
  | startedOver hd _ => exact hd

end Handled

end Thread

namespace World

open Thread

variable {σ : Type} {w w' w'' : World σ}

/-! ### The lists in other turns -/

/-- A thread that was started meanwhile: it stands where it starts, or it was stopped again. -/
def Begun (w : World σ) (t : Thread) : Prop :=
  w.nextThread ≤ t.id ∧ ∃ actor top, Handled (.start t.id actor top) t

/-- The threads of a list are handled where they are, and the ones after them were started. -/
def Attended (w : World σ) (l l' : List Thread) : Prop :=
  ∃ old new, l' = old ++ new ∧ List.Forall₂ Handled l old ∧ ∀ t ∈ new, Begun w t

theorem Begun.handled {t t' : Thread} (h : Begun w t) (ht : Handled t t') : Begun w t' := by
  obtain ⟨hid, actor, top, hstart⟩ := h
  rw [Begun, ht.id]
  exact ⟨hid, actor, top, hstart.trans ht⟩

namespace Attended

theorem of_handled {l l' : List Thread} (h : List.Forall₂ Handled l l') : Attended w l l' :=
  ⟨l', [], (List.append_nil l').symm, h, fun _ ht => by cases ht⟩

theorem refl (w : World σ) (l : List Thread) : Attended w l l :=
  of_handled (List.forall₂_same.2 fun _ _ => .kept)

theorem trans {l l' l'' : List Thread} (h : Attended w l l') (h' : Attended w' l' l'')
    (hn : w.nextThread ≤ w'.nextThread) : Attended w l l'' := by
  obtain ⟨old, new, rfl, hold, hnew⟩ := h
  obtain ⟨old', new', rfl, hold', hnew'⟩ := h'
  -- what comes of the threads that were started first has been started as well
  have hfront := List.forall₂_take old.length hold'
  have hback := List.forall₂_drop old.length hold'
  rw [List.take_left] at hfront
  rw [List.drop_left] at hback
  refine ⟨old'.take old.length, old'.drop old.length ++ new', ?_, ?_, fun t ht => ?_⟩
  · rw [← List.append_assoc, List.take_append_drop]
  · exact forall₂_trans (R := Handled) (fun h h' => h.trans h') hold hfront
  · rcases List.mem_append.1 ht with ht | ht
    · obtain ⟨u, hu, hut⟩ := exists_of_forall₂ hback ht
      exact (hnew u hu).handled hut
    · exact ⟨Nat.le_trans hn (hnew' t ht).1, (hnew' t ht).2⟩

end Attended

/-- The threads of both lists are handled where they are, and the new ones come after them. -/
structure Attends (w w' : World σ) : Prop where
  next_le : w.nextThread ≤ w'.nextThread
  threads : Attended w w.threads w'.threads
  spawned : Attended w w.spawned w'.spawned

/-- Every thread was started meanwhile or comes from one that was handled. -/
structure Descends (w w' : World σ) : Prop where
  next_le : w.nextThread ≤ w'.nextThread
  origin : ∀ t' ∈ w'.threads ++ w'.spawned,
    Begun w t' ∨ ∃ t ∈ w.threads ++ w.spawned, Handled t t'

/-- In a pass the threads stay where they are; else they may also leave. -/
structure Tends (w w' : World σ) : Prop where
  scheduler : w'.scheduler = w.scheduler
  attends : w.inPass = true → Attends w w'
  descends : Descends w w'

namespace Attends

theorem of_handled (hn : w'.nextThread = w.nextThread)
    (ht : List.Forall₂ Handled w.threads w'.threads)
    (hs : List.Forall₂ Handled w.spawned w'.spawned) : Attends w w' :=
  ⟨Nat.le_of_eq hn.symm, .of_handled ht, .of_handled hs⟩

theorem trans (h : Attends w w') (h' : Attends w' w'') : Attends w w'' :=
  ⟨Nat.le_trans h.next_le h'.next_le, h.threads.trans h'.threads h.next_le,
    h.spawned.trans h'.spawned h.next_le⟩

theorem descends (h : Attends w w') : Descends w w' := by
  have horigin : ∀ {l l' : List Thread} {t' : Thread}, Attended w l l' → t' ∈ l' →
      Begun w t' ∨ ∃ t ∈ l, Handled t t' := by
    rintro l _ t' ⟨old, new, rfl, hold, hnew⟩ ht'
    rcases List.mem_append.1 ht' with ht' | ht'
    · exact Or.inr (exists_of_forall₂ hold ht')
    · exact Or.inl (hnew t' ht')
  refine ⟨h.next_le, fun t' ht' => ?_⟩
  rcases List.mem_append.1 ht' with ht' | ht'
  · exact (horigin h.threads ht').imp_right fun ⟨t, ht, hh⟩ => ⟨t, List.mem_append_left _ ht, hh⟩
  · exact (horigin h.spawned ht').imp_right fun ⟨t, ht, hh⟩ => ⟨t, List.mem_append_right _ ht, hh⟩

end Attends

theorem Descends.trans (h : Descends w w') (h' : Descends w' w'') : Descends w w'' := by
  refine ⟨Nat.le_trans h.next_le h'.next_le, fun t'' ht'' => ?_⟩
  rcases h'.origin t'' ht'' with hb | ⟨t', ht', hh'⟩
  · exact Or.inl ⟨Nat.le_trans h.next_le hb.1, hb.2⟩
  · rcases h.origin t' ht' with hb | ⟨t, ht, hh⟩
    · exact Or.inl (hb.handled hh')
    · exact Or.inr ⟨t, ht, hh.trans hh'⟩

namespace Tends

theorem of_attends (hs : w'.scheduler = w.scheduler) (h : Attends w w') : Tends w w' :=
  ⟨hs, fun _ => h, h.descends⟩

theorem trans (h : Tends w w') (h' : Tends w' w'') : Tends w w'' := by
  refine ⟨h'.scheduler.trans h.scheduler, fun hp => ?_, h.descends.trans h'.descends⟩
  have hp' : w'.inPass = true := by rwa [inPass, h.scheduler]
  exact (h.attends hp).trans (h'.attends hp')

/-- Whatever leaves the threads alone. -/
theorem of_eq (hs : w'.scheduler = w.scheduler) (hn : w'.nextThread = w.nextThread)
    (ht : w'.threads = w.threads) (hsp : w'.spawned = w.spawned) : Tends w w' :=
  of_attends hs ⟨Nat.le_of_eq hn.symm, ht ▸ .refl w _, hsp ▸ .refl w _⟩

theorem refl (w : World σ) : Tends w w := of_eq rfl rfl rfl rfl

end Tends

/-! ### Starting and stopping -/

theorem tends_mapThreads {f : Thread → Thread} (hf : ∀ t, Handled t (f t)) (w : World σ) :
    Tends w (w.mapThreads f) := by
  have hmap : ∀ l : List Thread, List.Forall₂ Handled l (l.map f) := fun l =>
    List.forall₂_map_right_iff.2 (List.forall₂_same.2 fun t _ => hf t)
  exact .of_attends rfl (.of_handled rfl (hmap _) (hmap _))

theorem tends_modifyRunning {actor : ActorId} {top : Handle} {f : Thread → Thread}
    (hf : ∀ t, runsScript actor top t = true → Handled t (f t)) (w : World σ) :
    Tends w (w.modifyRunning actor top f) := by
  have hfirst : ∀ l : List Thread,
      List.Forall₂ Handled l (modifyFirst (runsScript actor top) f l) :=
    forall₂_modifyFirst (fun _ => .kept) hf
  have hsame : ∀ l : List Thread, List.Forall₂ Handled l l := fun l =>
    List.forall₂_same.2 fun _ _ => .kept
  unfold modifyRunning
  split
  · exact .of_attends rfl (.of_handled rfl (hfirst _) (hsame _))
  · exact .of_attends rfl (.of_handled rfl (hsame _) (hfirst _))

theorem handled_restart_of_runsScript {actor : ActorId} {top : Handle} {t : Thread}
    (h : runsScript actor top t = true) : Handled t t.restart := by
  simp only [runsScript, Bool.and_eq_true, beq_iff_eq, Bool.not_eq_true'] at h
  exact handled_restart h.2 h.1.2

theorem tends_pushThread (w : World σ) (actor : ActorId) (top : Handle) :
    Tends w (w.pushThread actor top).1 := by
  have hnew : ∀ l : List Thread, Attended w l (l ++ [.start w.nextThread actor top]) := by
    intro l
    refine ⟨l, _, rfl, List.forall₂_same.2 fun _ _ => .kept, fun t ht => ?_⟩
    rw [List.mem_singleton.1 ht]
    exact ⟨Nat.le_refl _, actor, top, .kept⟩
  unfold pushThread
  simp only
  split
  · exact .of_attends rfl ⟨Nat.le_succ _, .refl w _, hnew _⟩
  · exact .of_attends rfl ⟨Nat.le_succ _, hnew _, .refl w _⟩

theorem tends_startScript (w : World σ) (restarts : Bool) (actor : ActorId) (top : Handle) :
    Tends w (w.startScript restarts actor top).1 := by
  unfold startScript
  split
  · exact .of_eq rfl rfl rfl rfl
  · split
    · split
      · exact tends_modifyRunning (fun _ => handled_restart_of_runsScript) w
      · exact .refl w
    · exact tends_pushThread w actor top

theorem tends_startScripts (restarts : Bool) (scripts : List (ActorId × Handle)) :
    ∀ w : World σ, Tends w (startScripts restarts scripts w).1 := by
  induction scripts with
  | nil => exact .refl
  | cons script rest ih =>
    exact fun w => (tends_startScript w restarts script.1 script.2).trans (ih _)

theorem tends_startHats (w : World σ) (hat : Opcode) (fields : List (String × String))
    (only : Option ActorId) : Tends w (w.startHats hat fields only).1 := by
  unfold startHats
  split
  · exact .of_eq rfl rfl rfl rfl
  · exact tends_startScripts _ _ w

theorem tends_dispatchEvents (w : World σ) : Tends w w.dispatchEvents := by
  have hfold : ∀ (raised : List Event) (w : World σ),
      Tends w (raised.foldl (fun w e => (w.raise e).1) w) := by
    intro raised
    induction raised with
    | nil => exact .refl
    | cons e rest ih => exact fun w => (tends_startHats w e.hat e.fields e.actor).trans (ih _)
  have hdrain : Tends w { w with events := w.events.drain.1 } := .of_eq rfl rfl rfl rfl
  exact hdrain.trans (hfold w.events.drain.2 _)

/-- Threads that have ended leave the lists between passes, and stay in a pass. -/
theorem tends_dropFinished (w : World σ) : Tends w w.dropFinished := by
  unfold dropFinished
  split
  · exact .refl w
  · rename_i hp
    refine ⟨rfl, fun h => absurd h hp, Nat.le_refl _, fun t ht => Or.inr ⟨t, ?_, .kept⟩⟩
    exact (List.filter_sublist.append List.filter_sublist).subset ht

theorem tends_stopActor (w : World σ) (actor : ActorId) (keep : Option ThreadId) :
    Tends w (w.stopActor actor keep) := by
  have hretire : Tends w (w.mapThreads fun t =>
      if t.actor = actor && some t.id ≠ keep then t.retire else t) := by
    refine tends_mapThreads (fun t => ?_) w
    split
    · exact t.handled_retire
    · exact .kept
  have hcurrent : ∀ (w : World σ) (p : Current → Bool), Tends w (w.retireCurrent p) :=
    fun _ _ => .of_eq rfl rfl rfl rfl
  exact (hretire.trans (hcurrent _ _)).trans (tends_dropFinished _)

/-! ### Clones, and stopping everything -/

theorem tends_createClone (w : World σ) (source : ActorId) : Tends w (w.createClone source).1 := by
  unfold createClone
  split
  · exact .of_eq rfl rfl rfl rfl
  · split
    · exact .refl w
    · split
      · exact .refl w
      · refine Tends.trans ?_ (tends_startHats _ _ _ _)
        exact .of_eq rfl rfl rfl rfl

theorem tends_deleteClone (w : World σ) (id : ActorId) : Tends w (w.deleteClone id).1 := by
  unfold deleteClone
  split
  · exact .refl w
  · split
    · exact .refl w
    · exact (tends_stopActor w id none).trans (.of_eq rfl rfl rfl rfl)

theorem tends_deleteClones (ids : List ActorId) :
    ∀ w : World σ, Tends w (ids.foldl (fun w id => (w.deleteClone id).1) w) := by
  induction ids with
  | nil => exact .refl
  | cons id rest ih => exact fun w => (tends_deleteClone w id).trans (ih _)

theorem tends_clearPrompts (w : World σ) : Tends w w.clearPrompts := by
  have hfold : ∀ (prompts : List Prompt) (w : World σ),
      Tends w (prompts.foldl (fun w p => w.dropResolver p.channel) w) := by
    intro prompts
    induction prompts with
    | nil => exact .refl
    | cons p rest ih =>
      intro w
      have hdrop : Tends w (w.dropResolver p.channel) := .of_eq rfl rfl rfl rfl
      exact hdrop.trans (ih _)
  have hempty : Tends w { w with prompts := [] } := .of_eq rfl rfl rfl rfl
  exact hempty.trans (hfold w.prompts _)

theorem tends_stopAll (w : World σ) : Tends w w.stopAll := by
  have hcurrent : Tends (w.mapThreads retire) ((w.mapThreads retire).retireCurrent fun _ => true) :=
    .of_eq rfl rfl rfl rfl
  have hretire := ((tends_mapThreads handled_retire w).trans hcurrent).trans (tends_dropFinished _)
  have hdelete := hretire.trans (tends_deleteClones
    ((w.mapThreads retire).retireCurrent fun _ => true).dropFinished.clones _)
  unfold stopAll
  simp only
  refine hdelete.trans (Tends.trans ?_ (tends_clearPrompts _))
  exact .of_eq rfl rfl rfl rfl

theorem tends_greenFlag (w : World σ) : Tends w w.greenFlag.1 := by
  unfold greenFlag
  simp only
  refine (tends_stopAll w).trans (Tends.trans ?_ (tends_startHats _ _ _ _))
  exact .of_eq rfl rfl rfl rfl

/-- **Every effect of a built-in primitive leaves a thread alone, stops it or starts it over.** -/
theorem Effect.tends (h : Effect w w') : Tends w w' := by
  cases h with
  | tend hs hn ht hsp _ _ => exact .of_eq hs hn ht hsp
  | startHats hat fields only => exact tends_startHats w hat fields only
  | stopActor actor keep => exact tends_stopActor w actor keep
  | stopAll => exact tends_stopAll w
  | createClone source => exact tends_createClone w source
  | deleteClone id => exact tends_deleteClone w id

theorem upheld_tends : Upheld (Table.empty : Extensions σ) Tends where
  trans := Tends.trans
  tend hs hn ht hsp _ := .of_eq hs hn ht hsp
  effect := Effect.tends
  extended hget := by
    rw [Table.get?_empty] at hget
    cases hget

end World

namespace Pass

open World Thread

variable {σ : Type}

/-! ### A turn -/

/-- **A turn leaves the other threads alone, stops them or starts them over.** They stay where they
are in the list and among the threads that were started, and new ones come after these. -/
theorem handled_visitAt {fuel i : Nat} {p p' : Pass σ} (hp : p.world.inPass = true)
    (h : visitAt .empty fuel p i = some p') :
    p.world.nextThread ≤ p'.world.nextThread ∧
      p'.world.threads.length = p.world.threads.length ∧
      (∀ j t, j ≠ i → p.world.threads[j]? = some t →
        ∃ t', p'.world.threads[j]? = some t' ∧ Handled t t') ∧
      Attended p.world p.world.spawned p'.world.spawned := by
  obtain ⟨-, rfl⟩ | ⟨t, k, scene, hi, hv, rfl⟩ := visitAt_cases h
  · exact ⟨Nat.le_refl _, rfl, fun j t _ ht => ⟨t, ht, .kept⟩, .refl _ _⟩
  · have hattends := (upheld_tends.visit hv).attends hp
    have hgrown := (conserves_visit orderly_empty hv).world.grown hp
    obtain ⟨old, new, hthreads, hold, -⟩ := hattends.threads
    -- in a pass no thread joins the list
    have hlength := congrArg List.length hgrown.threads
    have hin : ({ p.world with threads := p.world.threads.set i .absent } : World σ).inPass =
        true := hp
    rw [hin, if_pos rfl, List.append_nil, List.length_map, List.length_map,
      List.length_set] at hlength
    have hsame := hold.length_eq
    rw [List.length_set] at hsame
    have hnew : new = [] := by
      have := congrArg List.length hthreads
      rw [List.length_append] at this
      exact List.length_eq_zero_iff.1 (by omega)
    rw [hnew, List.append_nil] at hthreads
    refine ⟨hattends.next_le, by rw [List.length_set]; exact hlength, fun j u hj hu => ?_,
      hattends.spawned⟩
    have hset : (p.world.threads.set i .absent)[j]? = some u := by
      rw [List.getElem?_set_ne (Ne.symm hj), hu]
    obtain ⟨hlt, hget⟩ := List.getElem?_eq_some_iff.1 hset
    have hlt' : j < scene.world.threads.length := by rw [hthreads, ← hold.length_eq]; exact hlt
    refine ⟨scene.world.threads[j], ?_, ?_⟩
    · rw [List.getElem?_set_ne (Ne.symm hj), List.getElem?_eq_getElem hlt']
    · subst hthreads
      exact hget ▸ hold.get hlt hlt'

end Pass

end Stagecraft
