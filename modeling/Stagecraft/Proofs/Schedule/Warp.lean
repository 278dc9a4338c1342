import Stagecraft.Proofs.Schedule.Journal
import Mathlib.Data.List.Chain

/-!
# Warp regions are atomic

A thread that has executed a block in a warp frame keeps its turn, whatever the block was, while its
top frame is a warp frame and there is time left. So no other thread executes a block in between.

The moments of a step are the blocks that it executes, each with the scene in which it is executed;
what comes after a moment can be computed from it.

* `Scheduler.LetsGo` : the ways in which a warp region may be interrupted;
* `Scheduler.Advanced.letsGo`, `Scene.Proceeded.letsGo` : a thread that moves on from a block in a
  warp frame goes on in the same turn, or it is let go;
* `Scene.Stepped.letsGo` : in a warp frame a turn ends only so;
* `World.map_moments` : the moments of a step are complete;
* `World.atomic_of_run` : **in a run a thread is let go after a moment in a warp frame, or the next
  moment is its own**.
-/

namespace Stagecraft

/-! ### Letting go -/

namespace Scheduler

/-- Another thread may have its turn before the one that has executed a block goes on. -/
inductive LetsGo {σ : Type} (s : Scheduler) (scene : Scene σ) : Prop
  /-- The thread has ended. -/
  | ended : scene.thread.isDone = true → LetsGo s scene
  /-- It starts over. -/
  | startsOver : scene.thread.restarting = true → LetsGo s scene
  /-- It is parked on a result that comes later. -/
  | parked : scene.thread.status = .parked → LetsGo s scene
  /-- Its top frame is no warp frame. -/
  | left : inWarp scene.thread = false → LetsGo s scene
  /-- The time of its warp frames is up. -/
  | late : s.warpTimerOk scene.world.now scene.thread = false → LetsGo s scene
  /-- The time of the pass is up. -/
  | spent : s.budgetExhausted scene.world.now = true → LetsGo s scene

variable {σ : Type} {s : Scheduler}

theorem LetsGo.of_warpOk {scene : Scene σ} (h : s.warpOk scene.world.now scene.thread = false) :
    s.LetsGo scene := by
  simp only [warpOk, Bool.and_eq_false_iff, Bool.not_eq_false'] at h
  rcases h with h | h
  · exact .late h
  · exact .spent h

/-- A thread whose turn is over when it has moved past a block has ended, or it stands at a loop,
and if that is a warp frame it has no time left. -/
theorem Advanced.letsGo {w : World σ} {g : Graph} {t t' : Thread}
    (h : Advanced s w.now g t (t', .ends)) : s.LetsGo ⟨w, t'⟩ := by
  cases h with
  | emptied => exact .ended rfl
  | @loop f _ _ _ _ hturn =>
    cases hw : f.warp with
    | false => exact .left hw
    | true =>
      refine .of_warpOk ?_
      by_contra hok
      simp [atLoop, hw, hok] at hturn

end Scheduler

namespace Scene

variable {σ : Type} {s s' : Scene σ} {g : Graph} {scheduler scheduler' : Scheduler} {turn : Turn}

/-- Without extensions a block moves the thread and does no more to it. -/
theorem Acts.moved (h : Acts .empty s s') : s.thread.Moved s'.thread := by
  induction h with
  | refl => exact .refl _
  | tail _ ha ih =>
    cases ha with
    | thread ht => exact ih.trans ht
    | world hw => exact ih
    | extended site args hget =>
      rw [Table.get?_empty] at hget
      cases hget

/-- A thread that does not sit out the pass goes on from a block in a warp frame, or it is let go.
-/
theorem Proceeded.letsGo {top : Handle} (hst : s.thread.status ≠ .yieldedTick)
    (h : Proceeded scheduler g top true s (s', .ends)) : scheduler.LetsGo s' := by
  cases h with
  | yielded _ hturn =>
    refine .of_warpOk ?_
    by_contra hok
    simp [hok] at hturn
  | held hs =>
    rcases hs with hs | hs | hs
    · exact absurd hs hst
    · exact .parked hs
    · exact .ended (by simp [Thread.isDone, hs])
  | empty => exact .ended rfl
  | moved _ _ ha => exact (Scheduler.advanced_of_advance ha).letsGo

/-- **In a warp frame a turn ends only when the thread is let go.** -/
theorem Stepped.letsGo (h : Stepped .empty g scheduler s scheduler' s' turn)
    (hturn : turn = .ends) (hwarp : Scheduler.inWarp s.thread = true)
    (hst : s.thread.status ≠ .yieldedTick) : scheduler'.LetsGo s' := by
  have hmoved := s.entered_moved.trans (acts_execute scheduler.countBlock g s.entered).moved
  cases h with
  | empty => exact .ended rfl
  | failed => exact .ended rfl
  | obeyed _ _ ho =>
    cases obeyed_of_obey ho with
    | stopped => exact .ended rfl
    | startsOver => exact .startsOver rfl
  | moved _ hx _ hp =>
    rw [hx] at hmoved
    rw [hwarp, hturn] at hp
    exact (proceeded_of_proceed hp).letsGo fun hs => hst (hmoved.status hs)

/-- A thread that goes on is moved and no more. -/
theorem Stepped.moves (h : Stepped .empty g scheduler s scheduler' s' turn)
    (hturn : turn = .goesOn) : s.thread.Moved s'.thread := by
  have hmoved := s.entered_moved.trans (acts_execute scheduler.countBlock g s.entered).moved
  cases h with
  | empty => cases hturn
  | failed => cases hturn
  | obeyed => cases hturn
  | moved _ hx _ hp =>
    rw [hx] at hmoved
    obtain ⟨t, ht, rfl⟩ := (proceeded_of_proceed hp).moves
    exact hmoved.trans ht

end Scene

/-! ### Moments -/

/-- A block that is about to be executed: the top block of the thread of a scene. -/
structure Moment (σ : Type) where
  /-- The scheduler. -/
  scheduler : Scheduler
  /-- The program. -/
  graph : Graph
  /-- The world and the thread. -/
  scene : Scene σ

namespace Moment

variable {σ : Type}

/-- The thread that executes the block. -/
def thread (m : Moment σ) : ThreadId := m.scene.thread.id

/-- Whether the block is executed in a warp frame. -/
def inWarp (m : Moment σ) : Bool := Scheduler.inWarp m.scene.thread

/-- Once the block is executed, another thread may have its turn. -/
def LetsGo (m : Moment σ) : Prop :=
  let after := m.scene.stepBlock .empty m.graph m.scheduler
  after.1.LetsGo after.2.1

end Moment

/-- Moments one after the other. After a moment in a warp frame the thread is let go or the next one
is its own; after the last one it is let go, if that is known to end a turn. -/
structure Atomic {σ : Type} (moments : List (Moment σ)) (whole : Prop) : Prop where
  chain : moments.IsChain fun m m' => m.inWarp = true → m.LetsGo ∨ m'.thread = m.thread
  last : whole → ∀ m ∈ moments.getLast?, m.inWarp = true → m.LetsGo

namespace Atomic

variable {σ : Type} {moments moments' : List (Moment σ)} {whole : Prop}

theorem nil : Atomic ([] : List (Moment σ)) whole := ⟨.nil, fun _ m hm => by cases hm⟩

theorem append (h : Atomic moments True) (h' : Atomic moments' whole) :
    Atomic (moments ++ moments') whole := by
  refine ⟨List.isChain_append.2 ⟨h.chain, h'.chain, fun m hm m' _ hw => ?_⟩, fun ho m hm hw => ?_⟩
  · exact Or.inl (h.last trivial m hm hw)
  · cases moments' with
    | nil =>
      rw [List.append_nil] at hm
      exact h.last trivial m hm hw
    | cons m₁ rest =>
      rw [List.getLast?_append_cons] at hm
      exact h'.last ho m hm hw

end Atomic

/-! ### A turn -/

namespace Scene

variable {σ : Type}

/-- The moments of a turn. -/
def moments (g : Graph) : Nat → Scheduler → Scene σ → List (Moment σ)
  | 0, _, _ => []
  | fuel + 1, scheduler, s =>
    (s.thread.topBlock?.map fun _ => ⟨scheduler, g, s⟩).toList ++
      match s.stepBlock .empty g scheduler with
      | (_, _, .ends) => []
      | (scheduler, s, .goesOn) => moments g fuel scheduler s

theorem map_moments (g : Graph) (fuel : Nat) : ∀ (scheduler : Scheduler) (s : Scene σ),
    (moments g fuel scheduler s).map (·.thread) = trace .empty g fuel scheduler s := by
  induction fuel with
  | zero => exact fun _ _ => rfl
  | succ fuel ih =>
    intro scheduler s
    rw [moments, trace, List.map_append]
    congr 1
    · cases s.thread.topBlock? <;> rfl
    · rcases s.stepBlock .empty g scheduler with ⟨scheduler', s', turn⟩
      cases turn with
      | goesOn => exact ih scheduler' s'
      | ends => rfl

/-- A turn without moments is that of a thread without frames. -/
theorem inWarp_of_moments_eq_nil {g : Graph} {fuel : Nat} {scheduler : Scheduler} {s : Scene σ}
    (hm : moments g fuel scheduler s = [])
    (ht : (takeTurn .empty g fuel scheduler s).isSome = true) :
    Scheduler.inWarp s.thread = false := by
  cases fuel with
  | zero => cases ht
  | succ fuel =>
    rw [moments, List.append_eq_nil_iff, Option.toList_eq_nil_iff, Option.map_eq_none_iff,
      Thread.topBlock?, Option.map_eq_none_iff, List.head?_eq_none_iff] at hm
    rw [Scheduler.inWarp, hm.1]

/-- **A turn is atomic**: all its moments are of one thread, and in a warp frame it ends only when
the thread is let go. By induction on the blocks of the turn. -/
theorem atomic_moments (g : Graph) (fuel : Nat) : ∀ (scheduler : Scheduler) (s : Scene σ),
    s.thread.status ≠ .yieldedTick →
      (∀ m ∈ moments g fuel scheduler s, m.thread = s.thread.id) ∧
        Atomic (moments g fuel scheduler s)
          ((takeTurn .empty g fuel scheduler s).isSome = true) := by
  induction fuel with
  | zero => exact fun _ _ _ => ⟨fun m hm => (by cases hm), .nil⟩
  | succ fuel ih =>
    intro scheduler s hst
    rw [moments, takeTurn]
    rcases hstep : s.stepBlock .empty g scheduler with ⟨scheduler', s', turn⟩
    have hstepped := stepped_of_stepBlock hstep
    have hafter : (Moment.mk scheduler g s).LetsGo ↔ scheduler'.LetsGo s' := by
      simp only [Moment.LetsGo, hstep]
    cases ht : s.thread.topBlock? with
    | none =>
      cases turn with
      | ends => exact ⟨fun m hm => (by cases hm), .nil⟩
      | goesOn =>
        cases hstepped with
        | moved hsome => rw [ht] at hsome; cases hsome
    | some top =>
      cases turn with
      | ends =>
        refine ⟨fun m hm => by rw [List.mem_singleton.1 hm]; rfl, .singleton _, fun _ m hm hw => ?_⟩
        cases hm
        exact hafter.2 (hstepped.letsGo rfl hw hst)
      | goesOn =>
        have hmoved := hstepped.moves rfl
        obtain ⟨hids, hatomic⟩ := ih scheduler' s' fun hs => hst (hmoved.status hs)
        have hsame : ∀ m ∈ moments g fuel scheduler' s', m.thread = s.thread.id :=
          fun m hm => (hids m hm).trans hmoved.id
        refine ⟨fun m hm => ?_, List.isChain_cons.2 ⟨fun m hm _ => ?_, hatomic.chain⟩,
          fun hover m hm hw => ?_⟩
        · rcases List.mem_cons.1 hm with rfl | hm
          · rfl
          · exact hsame m hm
        · exact Or.inr (hsame m (List.mem_of_mem_head? hm))
        · -- the last moment is one of the rest, unless the thread has no frames any more
          cases hrest : moments g fuel scheduler' s' with
          | nil =>
            simp only [hrest] at hm
            cases hm
            exact hafter.2 (.left (inWarp_of_moments_eq_nil hrest hover))
          | cons m₁ rest =>
            refine hatomic.last hover m ?_ hw
            simpa [hrest] using hm

end Scene

namespace Pass

variable {σ : Type}

/-! ### A visit and a pass -/

/-- The moments of a thread that executes blocks. -/
def runMoments (fuel : Nat) (s : Scheduler) (w : World σ) (t : Thread) : List (Moment σ) :=
  match w.graph? t.actor with
  | none => []
  | some g => Scene.moments g fuel s ⟨onStage w t, t⟩

/-- The moments of a visit. -/
def visitMoments (fuel : Nat) (s : Scheduler) (w : World σ) (t : Thread) : List (Moment σ) :=
  match t.status with
  | .done => []
  | .yieldedTick => []
  | .running => runMoments fuel s w t
  | .yielded => runMoments fuel s w t
  | .parked =>
    match wake s w t with
    | (scene, true) => runMoments fuel s scene.world scene.thread
    | (_, false) => []

/-- The moments of the turn at a place. -/
def visitAtMoments (fuel : Nat) (p : Pass σ) (i : Nat) : List (Moment σ) :=
  match p.world.threads[i]? with
  | none => []
  | some t =>
    visitMoments fuel p.scheduler { p.world with threads := p.world.threads.set i .absent } t

theorem map_runMoments (fuel : Nat) (s : Scheduler) (w : World σ) (t : Thread) :
    (runMoments fuel s w t).map (·.thread) = runTrace .empty fuel s w t := by
  unfold runMoments runTrace
  cases w.graph? t.actor with
  | none => rfl
  | some g => exact Scene.map_moments g fuel s _

theorem map_visitAtMoments (fuel : Nat) (p : Pass σ) (i : Nat) :
    (visitAtMoments fuel p i).map (·.thread) = visitAtTrace .empty fuel p i := by
  unfold visitAtMoments visitAtTrace
  cases p.world.threads[i]? with
  | none => rfl
  | some t =>
    simp only [visitMoments, visitTrace]
    cases t.status with
    | done | yieldedTick => rfl
    | running | yielded => exact map_runMoments fuel _ _ t
    | parked =>
      simp only
      rcases wake p.scheduler { p.world with threads := p.world.threads.set i .absent } t with
        ⟨scene, on⟩
      cases on with
      | true => exact map_runMoments fuel _ _ _
      | false => rfl

theorem atomic_runMoments (fuel : Nat) (s : Scheduler) (w : World σ) {t : Thread}
    (hst : t.status ≠ .yieldedTick) :
    Atomic (runMoments fuel s w t) ((letRun .empty fuel s w t).isSome = true) := by
  unfold runMoments
  cases hg : w.graph? t.actor with
  | none => exact .nil
  | some g =>
    rw [letRun_of_graph hg, Option.isSome_map]
    exact (Scene.atomic_moments g fuel s ⟨onStage w t, t⟩ hst).2

/-- **A visit is atomic.** -/
theorem atomic_visitAtMoments (fuel : Nat) (p : Pass σ) (i : Nat) :
    Atomic (visitAtMoments fuel p i) ((visitAt .empty fuel p i).isSome = true) := by
  unfold visitAtMoments visitAt
  cases p.world.threads[i]? with
  | none => exact .nil
  | some t =>
    simp only [Option.isSome_map, visitMoments, visit]
    cases hst : t.status with
    | done | yieldedTick => exact .nil
    | running | yielded => exact atomic_runMoments fuel _ _ (by simp [hst])
    | parked =>
      simp only
      rcases hw : wake p.scheduler { p.world with threads := p.world.threads.set i .absent } t with
        ⟨scene, on⟩
      -- a parked thread that goes on does not sit out the pass
      have hmoved := (woken_of_wake hw).moved
      cases on with
      | true => exact atomic_runMoments fuel _ _ fun hs => by simpa [hst] using hmoved.status hs
      | false => exact .nil

theorem atomic_visitAll (fuel : Nat) (places : List Nat) : ∀ p : Pass σ,
    Atomic (visitAllJournal (visitAtMoments fuel) .empty fuel places p)
      ((visitAll .empty fuel places p).isSome = true) := by
  induction places with
  | nil => exact fun _ => .nil
  | cons i rest ih =>
    intro p
    have hvisit := atomic_visitAtMoments fuel p i
    rw [visitAllJournal, visitAll]
    cases hv : visitAt .empty fuel p i with
    | none =>
      rw [hv] at hvisit
      exact ⟨by simpa using hvisit.chain, fun hover => by cases hover⟩
    | some p₁ =>
      rw [hv] at hvisit
      refine Atomic.append ⟨hvisit.chain, fun _ => hvisit.last rfl⟩ ?_
      simp only
      split
      · exact .nil
      · exact ih _

/-- **A pass is atomic**, by induction on its rounds. -/
theorem atomic_rounds (turnFuel : Nat) (fuel : Nat) :
    ∀ (first : Nat) (p : Pass σ) (finished : List ThreadId),
      Atomic (roundsJournal (visitAtMoments turnFuel) .empty turnFuel fuel first p finished)
        ((rounds .empty turnFuel fuel first p finished).isSome = true) := by
  induction fuel with
  | zero => exact fun _ _ _ => .nil
  | succ fuel ih =>
    intro first p finished
    have hround := atomic_visitAll turnFuel (order first p.world.threads.length)
      ⟨countRound p.scheduler, p.world⟩
    rw [roundsJournal, rounds]
    simp only
    rcases hv : visitAll .empty turnFuel (order first p.world.threads.length)
      ⟨countRound p.scheduler, p.world⟩ with _ | ⟨p₁, exhausted⟩
    · rw [hv] at hround
      exact ⟨by simpa using hround.chain, fun hover => by cases hover⟩
    · rw [hv] at hround
      refine Atomic.append ⟨hround.chain, fun _ => hround.last rfl⟩ ?_
      simp only
      split
      · exact ih _ _ _
      · exact .nil

end Pass

namespace World

variable {σ : Type} {w w' : World σ}

/-! ### A run -/

/-- The moments of a step without extensions. -/
def moments (fuel : Nat) (w : World σ) : List (Moment σ) :=
  w.journal (Pass.visitAtMoments fuel) .empty fuel

/-- The moments of a step are the blocks that it executes. -/
theorem map_moments (fuel : Nat) (w : World σ) :
    (w.moments fuel).map (·.thread) = w.trace .empty fuel := by
  rw [moments, map_journal, trace_eq_journal]
  exact congrArg (fun log => w.journal log .empty fuel)
    (funext fun p => funext fun i => Pass.map_visitAtMoments fuel p i)

theorem atomic_step (fuel : Nat) (w : World σ) :
    Atomic (w.moments fuel) ((w.step .empty fuel).isSome = true) := by
  unfold moments journal step
  cases w.scheduler with
  | none => exact .nil
  | some s =>
    have hrounds := Pass.atomic_rounds fuel fuel
      (Pass.firstPlace (s.configure w.settings) w.threads)
      (Pass.begin (s.configure w.settings) { w with scheduler := none }) []
    refine ⟨hrounds.chain, fun hover => hrounds.last ?_⟩
    simp only [Pass.run] at hover
    split at hover
    · cases hover
    · rename_i hrun
      obtain ⟨r, hr, -⟩ := Option.map_eq_some_iff.1 hrun
      exact Option.isSome_iff_exists.2 ⟨r, hr⟩

/-- A run of the world with built-in primitives: what a host does and the steps in between, with the
moments of all steps. -/
inductive Runs : World σ → List (Moment σ) → World σ → Prop
  | nil (w : World σ) : Runs w [] w
  | deed {w w₁ w' : World σ} {rest : List (Moment σ)} :
      Deed w w₁ → Runs w₁ rest w' → Runs w rest w'
  | step {fuel : Nat} {w w₁ w' : World σ} {ended : List ThreadId} {rest : List (Moment σ)} :
      w.step .empty fuel = some (w₁, ended) → Runs w₁ rest w' → Runs w (w.moments fuel ++ rest) w'

theorem Runs.atomic {run rest : List (Moment σ)} {whole : Prop} (h : Runs w run w')
    (hrest : Atomic rest whole) : Atomic (run ++ rest) whole := by
  induction h with
  | nil w => exact hrest
  | deed _ _ ih => exact ih
  | @step fuel w w₁ w' ended run hstep _ ih =>
    have hatomic := atomic_step fuel w
    rw [hstep] at hatomic
    rw [List.append_assoc]
    exact Atomic.append ⟨hatomic.chain, fun _ => hatomic.last rfl⟩ ih

/-- **Warp regions are atomic.** In a run, also in a step that has not come to its end, a block that
was executed in a warp frame is followed by one of the same thread, unless the thread was let go:
it has ended, starts over or is parked, its top frame is no warp frame, or time is up. -/
theorem atomic_of_run {run : List (Moment σ)} (h : Runs w run w') (fuel : Nat) :
    (run ++ w'.moments fuel).IsChain fun m m' =>
      m.inWarp = true → m.LetsGo ∨ m'.thread = m.thread :=
  (h.atomic (atomic_step fuel w')).chain

/-- A counted loop that is run all at once, and an endless one. -/
def burst : Graph :=
  Graph.empty.run
    [.create { Block.detached "burst" (.control .allAtOnce) with
        inputs := Table.empty.insert "SUBSTACK" (.branch ⟨1, 0⟩)
        topLevel := true },
      .create { Block.detached "repeat" (.control .repeatTimes) with
        inputs := (Table.empty.insert "TIMES" (.literal (.number 2.0))).insert "SUBSTACK"
          (.branch ⟨2, 0⟩) },
      .create { Block.detached "add" (.data .addToList) with
        fields := Table.empty.insert "LIST" ⟨"items", none⟩ },
      .create { Block.detached "loop" (.control .forever) with topLevel := true }]

/-- Both loops started. -/
def burstWorld : World Unit :=
  ((((blank .standard ()).addSprite "Cat" burst).1.pushThread 0 ⟨0, 0⟩).1.pushThread 0 ⟨3, 0⟩).1

/-- The counted loop is over before the other thread has its turn. -/
theorem atomic_of_burst : ∃ run w', Runs burstWorld run w' ∧
    run.map (fun m => (m.thread, m.inWarp)) =
      (1, false) :: List.replicate 5 (1, true) ++ [(2, false)] ∧
    (run ++ w'.moments 0).IsChain fun m m' =>
      m.inWarp = true → m.LetsGo ∨ m'.thread = m.thread := by
  have hrun : (burstWorld.step .empty 9).map (fun _ => (burstWorld.moments 9).map
      fun m => (m.thread, m.inWarp)) =
        some ((1, false) :: List.replicate 5 (1, true) ++ [(2, false)]) := by
    decide +kernel
  obtain ⟨⟨w', ended⟩, hstep, hmoments⟩ := Option.map_eq_some_iff.1 hrun
  have hruns := Runs.step hstep (.nil w')
  exact ⟨_, w', hruns, by rw [List.append_nil]; exact hmoments, atomic_of_run hruns 0⟩

end World

end Stagecraft
