import Stagecraft.Proofs.Schedule.Conduct
import Stagecraft.Proofs.Schedule.Effects

/-!
# Turns

A block acts on the running thread and on the world. It leaves the thread's id alone, and what it
does to the other threads it does by deeds, so it conserves them (`Scene.Conserves`). A turn moves
the thread on from one block to the next, which conserves the threads as well, so a visit does
(`Pass.conserves_visit`).

`Scene.trace` and `Pass.visitTrace` follow a turn and a visit and write down which thread executes
each block. In a visit it is always the visited one (`Pass.mem_visitTrace`).
-/

namespace Stagecraft

/-- The effects of built-in primitives are things that a host could do as well. -/
theorem World.Effect.deed {σ : Type} {w w' : World σ} (h : Effect w w') : Deed w w' := by
  cases h with
  | tend hs hn ht hsp _ _ => exact .tend hs hn ht hsp
  | startHats hat fields only => exact .startHats w hat fields only
  | stopActor actor keep => exact .stopActor w actor keep
  | stopAll => exact .stopAll w
  | createClone source => exact .createClone w source
  | deleteClone id => exact .deleteClone w id

namespace Scene

variable {σ : Type} {ext : Extensions σ} {s s' s'' : Scene σ}

/-! ### Acts -/

/-- The running thread keeps its id and the other threads are conserved. -/
structure Conserves (s s' : Scene σ) : Prop where
  id : s'.thread.id = s.thread.id
  world : World.Conserves s.world s'.world

namespace Conserves

theorem refl (s : Scene σ) : Conserves s s := ⟨rfl, .refl s.world⟩

theorem trans (h : Conserves s s') (h' : Conserves s' s'') : Conserves s s'' :=
  ⟨h'.id.trans h.id, h.world.trans h'.world⟩

/-- Whatever a thread does to itself. -/
theorem of_thread (s : Scene σ) {t : Thread} (ht : t.id = s.thread.id) :
    Conserves s { s with thread := t } :=
  ⟨ht, .refl s.world⟩

theorem of_world (s : Scene σ) {w : World σ} (hw : World.Conserves s.world w) :
    Conserves s { s with world := w } :=
  ⟨rfl, hw⟩

/-- Whatever leaves the other threads alone. -/
theorem tend (s : Scene σ) {w : World σ} (hs : w.scheduler = s.world.scheduler)
    (hn : w.nextThread = s.world.nextThread) (ht : w.threads = s.world.threads)
    (hsp : w.spawned = s.world.spawned) : Conserves s { s with world := w } :=
  of_world s (.of_eq hs hn ht hsp)

end Conserves

/-- An act conserves the threads, that of an extension as far as it is orderly. -/
theorem Act.conserves (hext : ext.Orderly) (h : Act ext s s') : Conserves s s' := by
  cases h with
  | thread ht => exact .of_thread s ht.id
  | world hw => exact .of_world s hw.deed.conserves
  | extended site args hget =>
    have ⟨hw, hid⟩ := hext _ _ hget site args s
    exact ⟨hid, hw.conserves⟩

theorem Acts.conserves (hext : ext.Orderly) (h : Acts ext s s') : Conserves s s' := by
  induction h with
  | refl => exact .refl s
  | tail _ ha ih => exact ih.trans (ha.conserves hext)

/-! ### A turn -/

theorem conserves_fault (s : Scene σ) (opcode : String) (f : Fault) :
    Conserves s (s.fault opcode f) :=
  ⟨rfl, .of_eq rfl rfl rfl rfl⟩

theorem Obeyed.conserves {r : Scene σ × Bool} (h : Obeyed s r) : Conserves s r.1 := by
  cases h with
  | unasked => exact .refl s
  | stopped | startsOver => exact ⟨rfl, .of_eq rfl rfl rfl rfl⟩

/-- **Executing one block conserves the threads.** -/
theorem Stepped.conserves (hext : ext.Orderly) {g : Graph} {scheduler scheduler' : Scheduler}
    {turn : Turn} (h : Stepped ext g scheduler s scheduler' s' turn) : Conserves s s' := by
  have hentered : Conserves s s.entered := ⟨s.entered_moved.id, .of_eq rfl rfl rfl rfl⟩
  have hexec := hentered.trans ((acts_execute scheduler.countBlock g s.entered).conserves hext)
  cases h with
  | empty => exact .of_thread s rfl
  | failed opcode _ hx =>
    rw [hx] at hexec
    exact hexec.trans (conserves_fault _ _ _)
  | obeyed _ hx ho =>
    rw [hx] at hexec
    exact hexec.trans (obeyed_of_obey ho).conserves
  | moved _ hx _ hp =>
    rw [hx] at hexec
    obtain ⟨t, ht, rfl⟩ := (proceeded_of_proceed hp).moves
    exact hexec.trans (.of_thread _ ht.id)

/-- **A turn conserves the threads.** -/
theorem conserves_takeTurn (hext : ext.Orderly) {g : Graph} {fuel : Nat} {k k' : Scheduler}
    (h : takeTurn ext g fuel k s = some (k', s')) : Conserves s s' :=
  takeTurn_induction (P := Conserves) (fun h => h.conserves hext)
    (fun h ih => (h.conserves hext).trans ih) fuel h

/-- The thread of every block that a turn executes. -/
def trace (ext : Extensions σ) (g : Graph) : Nat → Scheduler → Scene σ → List ThreadId
  | 0, _, _ => []
  | fuel + 1, scheduler, s =>
    (s.thread.topBlock?.map fun _ => s.thread.id).toList ++
      match s.stepBlock ext g scheduler with
      | (_, _, .ends) => []
      | (scheduler, s, .goesOn) => trace ext g fuel scheduler s

/-- A turn executes blocks of one thread. -/
theorem mem_trace (hext : ext.Orderly) (g : Graph) (fuel : Nat) :
    ∀ (scheduler : Scheduler) (s : Scene σ), ∀ id ∈ trace ext g fuel scheduler s,
      id = s.thread.id := by
  induction fuel with
  | zero => exact fun _ _ _ h => by cases h
  | succ fuel ih =>
    intro scheduler s id h
    rw [trace] at h
    rcases List.mem_append.1 h with h | h
    · obtain ⟨_, -, rfl⟩ := Option.map_eq_some_iff.1 (Option.mem_toList.1 h)
      rfl
    · split at h
      · cases h
      · rename_i he
        exact (ih _ _ id h).trans ((stepped_of_stepBlock he).conserves hext).id

/-- A step of a turn counts the block that it executes, if there is one. -/
theorem Stepped.blocksExecuted {g : Graph} {scheduler scheduler' : Scheduler} {turn : Turn}
    (h : Stepped ext g scheduler s scheduler' s' turn) : scheduler'.stats.blocksExecuted =
      scheduler.stats.blocksExecuted +
        (s.thread.topBlock?.map fun _ => s.thread.id).toList.length := by
  cases h with
  | empty ht => rw [ht]; rfl
  | failed _ ht _ => rw [ht]; rfl
  | obeyed ht _ _ => rw [ht]; rfl
  | moved ht _ _ _ => rw [ht]; rfl

/-- The trace of a turn is as long as the count of its blocks. -/
theorem length_trace (g : Graph) (fuel : Nat) :
    ∀ (scheduler : Scheduler) (s : Scene σ) {scheduler' : Scheduler} {s' : Scene σ},
      takeTurn ext g fuel scheduler s = some (scheduler', s') →
        scheduler'.stats.blocksExecuted =
          scheduler.stats.blocksExecuted + (trace ext g fuel scheduler s).length := by
  induction fuel with
  | zero =>
    intro _ _ _ _ h
    cases h
  | succ fuel ih =>
    intro scheduler s scheduler' s' h
    rw [takeTurn] at h
    rw [trace, List.length_append, ← Nat.add_assoc]
    obtain ⟨⟨scheduler₁, s₁, turn⟩, he⟩ : ∃ r, s.stepBlock ext g scheduler = r := ⟨_, rfl⟩
    rw [he] at h ⊢
    rw [← (stepped_of_stepBlock he).blocksExecuted]
    cases turn with
    | ends =>
      cases h
      rfl
    | goesOn => exact ih _ _ h

end Scene

namespace Pass

variable {σ : Type} {ext : Extensions σ}

/-! ### Waking a parked thread -/

theorem TakenIn.moved {k : Scheduler} {w : World σ} {t : Thread} {slot : Slotting} {v : Value}
    {r : Thread × Bool} (h : TakenIn k w t v slot r) : t.Moved r.1 := by
  have hawake : t.Moved t.awake := ⟨rfl, rfl, rfl, fun h => by cases h⟩
  cases h with
  | reporter h => exact hawake.trans (Thread.moved_modifyTop _ _)
  | retired => exact t.moved_retire
  | advanced _ ha =>
    have hforgot := hawake.trans (Thread.moved_modifyTop _ fun f => { f with reported := .empty })
    exact hforgot.trans (Scheduler.advanced_of_advance ha).moved

theorem Woken.moved {k : Scheduler} {w : World σ} {t : Thread} {r : Scene σ × Bool}
    (h : Woken k w t r) : t.Moved r.1.thread := by
  cases h with
  | free => exact t.moved_status (by decide)
  | waits => exact .refl t
  | takesIn _ _ ht => exact (takenIn_of_takeIn ht).moved
  | refused => exact t.moved_retire

theorem Woken.conserves {k : Scheduler} {w : World σ} {t : Thread} {r : Scene σ × Bool}
    (h : Woken k w t r) : Scene.Conserves ⟨w, t⟩ r.1 := by
  refine ⟨h.moved.id, ?_⟩
  cases h with
  | free => exact .refl w
  | waits | takesIn | refused => exact .of_eq rfl rfl rfl rfl

/-! ### A visit -/

theorem Performed.conserves (hext : ext.Orderly) {fuel : Nat} {k k' : Scheduler} {w : World σ}
    {t : Thread} {s : Scene σ} (h : Performed ext fuel k w t k' s) : Scene.Conserves ⟨w, t⟩ s := by
  cases h with
  | gone => exact .of_thread _ rfl
  | turn _ hturn =>
    -- the thread goes on stage, takes its turn and leaves the stage again
    have hstage : Scene.Conserves ⟨w, t⟩ ⟨onStage w t, t⟩ := .tend _ rfl rfl rfl rfl
    refine (hstage.trans (Scene.conserves_takeTurn hext hturn)).trans ⟨?_, .of_eq rfl rfl rfl rfl⟩
    exact (Thread.moved_atRest _).id

/-- **A visit conserves the threads.** -/
theorem conserves_visit (hext : ext.Orderly) {fuel : Nat} {k k' : Scheduler} {w : World σ}
    {t : Thread} {s : Scene σ} (h : visit ext fuel k w t = some (k', s)) :
    Scene.Conserves ⟨w, t⟩ s := by
  cases visited_of_visit h with
  | passed => exact .refl _
  | runs _ hrun => exact (performed_of_letRun hrun).conserves hext
  | wakes _ hw hrun =>
    exact (woken_of_wake hw).conserves.trans ((performed_of_letRun hrun).conserves hext)
  | waits _ hw => exact (woken_of_wake hw).conserves.trans (.of_thread _ rfl)

/-- The thread of every block that a thread executes in a turn. -/
def runTrace (ext : Extensions σ) (fuel : Nat) (s : Scheduler) (w : World σ) (t : Thread) :
    List ThreadId :=
  match w.graph? t.actor with
  | none => []
  | some g => Scene.trace ext g fuel s ⟨onStage w t, t⟩

/-- The thread of every block that is executed in a visit. -/
def visitTrace (ext : Extensions σ) (fuel : Nat) (s : Scheduler) (w : World σ) (t : Thread) :
    List ThreadId :=
  match t.status with
  | .done => []
  | .yieldedTick => []
  | .running => runTrace ext fuel s w t
  | .yielded => runTrace ext fuel s w t
  | .parked =>
    match wake s w t with
    | (scene, true) => runTrace ext fuel s scene.world scene.thread
    | (_, false) => []

theorem mem_runTrace (hext : ext.Orderly) {fuel : Nat} {s : Scheduler} {w : World σ} {t : Thread}
    {id : ThreadId} (h : id ∈ runTrace ext fuel s w t) : id = t.id := by
  unfold runTrace at h
  split at h
  · cases h
  · exact Scene.mem_trace hext _ fuel _ _ id h

/-- **A visit executes blocks of the visited thread only.** -/
theorem mem_visitTrace (hext : ext.Orderly) {fuel : Nat} {s : Scheduler} {w : World σ}
    {t : Thread} {id : ThreadId} (h : id ∈ visitTrace ext fuel s w t) : id = t.id := by
  unfold visitTrace at h
  split at h
  · cases h
  · cases h
  · exact mem_runTrace hext h
  · exact mem_runTrace hext h
  · split at h
    · rename_i he
      exact (mem_runTrace hext h).trans (woken_of_wake he).conserves.id
    · cases h

/-- The trace of a visit is as long as the count of its blocks. -/
theorem length_visitTrace {fuel : Nat} {s s' : Scheduler} {w : World σ} {t : Thread}
    {scene : Scene σ} (h : visit ext fuel s w t = some (s', scene)) :
    s'.stats.blocksExecuted = s.stats.blocksExecuted + (visitTrace ext fuel s w t).length := by
  have hrun : ∀ {w : World σ} {t : Thread}, letRun ext fuel s w t = some (s', scene) →
      s'.stats.blocksExecuted = s.stats.blocksExecuted + (runTrace ext fuel s w t).length := by
    intro w t h
    unfold runTrace
    cases performed_of_letRun h with
    | gone hg =>
      rw [hg]
      rfl
    | turn hg hturn =>
      rw [hg]
      exact Scene.length_trace _ fuel _ _ hturn
  unfold visitTrace
  cases visited_of_visit h with
  | passed hst =>
    rcases hst with hst | hst
    all_goals
      rw [hst]
      rfl
  | runs hst hr =>
    rcases hst with hst | hst
    all_goals
      rw [hst]
      exact hrun hr
  | wakes hst hw hr =>
    simp only [hst, hw]
    exact hrun hr
  | waits hst hw =>
    simp only [hst, hw]
    rfl

end Pass

end Stagecraft
