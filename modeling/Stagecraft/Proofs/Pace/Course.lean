import Stagecraft.Proofs.Pace.Beat
import Stagecraft.Proofs.Schedule.Journal

/-!
# The course of a script

Steps of a world cut the beats of its only thread into turns, rounds and passes. The cuts depend on
the clock and on the settings; the beats do not. `World.Played` says how far the thread has come: it
has still beats to go, or it has ended and left the list.

* `World.Solo` : a world with one thread, which is on its own;
* `Pass.played_rounds` : **a pass plays on**;
* `World.Course` : steps with any readings of the clock, until the thread has ended;
* `World.Course.same` : **two courses from the same timeless part execute the same blocks and come
  to the same actors and faults**.
-/

namespace Stagecraft

namespace World

variable {σ : Type} {c : Settings} {g : Graph} {top : Handle} {w w' : World σ} {t : Thread}

/-- The scene in which a thread of the world has its turn. -/
def stageFor (w : World σ) (t : Thread) : Scene σ :=
  ⟨{ w with
      threads := [.absent]
      scheduler := none
      current := some ⟨t.id, t.actor, t.top, false, false⟩ }, t⟩

/-- The world has one thread, and that is on its own when it has its turn. -/
structure Solo (c : Settings) (g : Graph) (top : Handle) (w : World σ) (t : Thread) : Prop where
  threads : w.threads = [t]
  current : w.current = none
  lone : (w.stageFor t).Lone c g top

/-- How far the thread of a script has come that started with the scene `x`. -/
inductive Played (c : Settings) (g : Graph) (top : Handle) (x : Scene σ) (blocks : List Handle)
    (w : World σ) : Prop
  /-- It has still blocks to execute. -/
  | going (t : Thread) : w.Solo c g top t → t.isDone = false →
      x.Beats g c.limits blocks (w.stageFor t).timeless → Played c g top x blocks w
  /-- It has ended. -/
  | ended (y : Scene σ) : w.threads = [] → w.spawned = [] → w.events = .empty →
      x.Beats g c.limits blocks y → y.thread.isDone = true → w.actors = y.world.actors →
      w.faults = y.world.faults → Played c g top x blocks w

/-- The worlds differ in nothing but time and the scheduler. -/
structure Retimed (w w' : World σ) : Prop where
  settings : w'.settings = w.settings
  threads : w'.threads = w.threads
  current : w'.current = w.current
  stage : ∀ t, (w'.stageFor t).timeless = (w.stageFor t).timeless

theorem Solo.retimed (hs : w.Solo c g top t) (h : Retimed w w') : w'.Solo c g top t where
  threads := h.threads.trans hs.threads
  current := h.current.trans hs.current
  lone := {
    settings := h.settings.trans hs.lone.settings
    scheduler := rfl
    threads := rfl
    spawned := (congrArg (·.world.spawned) (h.stage t)).trans hs.lone.spawned
    events := (congrArg (·.world.events) (h.stage t)).trans hs.lone.events
    current := rfl
    graph := (congrArg (·.world.graph? t.actor) (h.stage t)).trans hs.lone.graph
    within := hs.lone.within
    awake := hs.lone.awake
    steady := hs.lone.steady }

theorem Played.retimed {x : Scene σ} {blocks : List Handle} (hp : Played c g top x blocks w)
    (h : Retimed w w') : Played c g top x blocks w' := by
  cases hp with
  | going t hs hlive hbeats => exact .going t (hs.retimed h) hlive ((h.stage t).symm ▸ hbeats)
  | ended y ht hsp hev hbeats hdone hactors hfaults =>
    have hsame := h.stage .absent
    refine .ended y (h.threads.trans ht) ?_ ?_ hbeats hdone ?_ ?_
    · exact (congrArg (·.world.spawned) hsame).trans hsp
    · exact (congrArg (·.world.events) hsame).trans hev
    · exact (congrArg (·.world.actors) hsame).trans hactors
    · exact (congrArg (·.world.faults) hsame).trans hfaults

theorem retimed_elapse (w : World σ) : Retimed w w.elapse := ⟨rfl, rfl, rfl, fun _ => rfl⟩

end World

namespace Scene

variable {σ : Type} {c : Settings} {g : Graph} {top : Handle} {s : Scene σ}

/-- The thread leaves the stage, and would find the same scene if it came back. -/
theorem Lone.solo (h : Lone c g top s) {w : World σ}
    (hw : w = { s.world with current := none, threads := [{ s.thread with warpSince := none }] }) :
    w.Solo c g top { s.thread with warpSince := none } ∧
      (w.stageFor { s.thread with warpSince := none }).timeless = s.timeless := by
  subst hw
  obtain ⟨w, t⟩ := s
  have hback : ({ w with
      threads := [.absent]
      scheduler := none
      current := some ⟨t.id, t.actor, t.top, false, false⟩ } : World σ) = w := by
    rw [← h.threads, ← h.scheduler, ← h.current]
  have hstage : World.stageFor
      { w with current := none, threads := [{ t with warpSince := none }] }
      { t with warpSince := none } = ⟨w, { t with warpSince := none }⟩ :=
    congrArg (fun w => Scene.mk w { t with warpSince := none }) hback
  refine ⟨⟨rfl, rfl, ?_⟩, ?_⟩
  · rw [hstage]
    exact h.goes (Thread.goes_warpSince _ _)
  · rw [hstage]
    exact Alike.mk rfl rfl

end Scene

namespace Pass

open World

variable {σ : Type} {c : Settings} {g : Graph} {top : Handle} {t : Thread}

/-! ### A visit -/

/-- The blocks of some moments. -/
def blocksOf (moments : List (Moment σ)) : List Handle :=
  moments.filterMap fun m => m.scene.thread.topBlock?

/-- A thread that executes blocks leaves the stage as it would find it. -/
theorem lone_letRun (huntimed : g.Untimed top) {fuel : Nat} {k k' : Scheduler} {w : World σ}
    {scene : Scene σ} (h : Scene.Lone c g top ⟨onStage w t, t⟩) (hlive : t.isDone = false)
    (he : letRun .empty fuel k w t = some (k', scene)) :
    ∃ s : Scene σ, s.Lone c g top ∧ k'.timeless = k.timeless ∧
      (Scene.mk (onStage w t) t).timeless.Beats g k.timeless (blocksOf (runMoments fuel k w t))
        s.timeless ∧
      scene = ⟨{ s.world with current := none }, { s.thread with warpSince := none }⟩ := by
  have hgraph : w.graph? t.actor = some g := h.graph
  unfold runMoments
  rw [letRun_of_graph hgraph] at he
  rw [hgraph]
  obtain ⟨⟨k₁, s⟩, hturn, heq⟩ := Option.map_eq_some_iff.1 he
  cases heq
  obtain ⟨hk, hlone, hbeats⟩ := Scene.beats_takeTurn huntimed fuel (h.poised hlive) hlive hturn
  refine ⟨s, hlone, hk, hbeats, ?_⟩
  rw [Thread.atRest, hlone.steady]
  rfl

/-- **A visit plays on.** -/
theorem solo_visitAt (huntimed : g.Untimed top) {fuel : Nat} {p p' : Pass σ}
    (h : p.world.Solo c g top t) (hpass : p.world.scheduler = none) (hlive : t.isDone = false)
    (he : visitAt .empty fuel p 0 = some p') :
    ∃ t', p'.world.Solo c g top t' ∧ p'.world.scheduler = none ∧
      p'.scheduler.timeless = p.scheduler.timeless ∧
      (p.world.stageFor t).timeless.Beats g p.scheduler.timeless
        (blocksOf (visitAtMoments fuel p 0)) (p'.world.stageFor t').timeless := by
  have hstage : p.world.stageFor t = ⟨onStage { p.world with threads := [.absent] } t, t⟩ := by
    unfold stageFor onStage
    rw [← hpass]
  have hlone := h.lone
  rw [hstage] at hlone ⊢
  -- the thread is neither parked nor sits out the pass, so it executes blocks
  have hvisit : visit .empty fuel p.scheduler { p.world with threads := [.absent] } t =
        letRun .empty fuel p.scheduler { p.world with threads := [.absent] } t ∧
      visitMoments fuel p.scheduler { p.world with threads := [.absent] } t =
        runMoments fuel p.scheduler { p.world with threads := [.absent] } t := by
    unfold visit visitMoments
    cases hst : t.status with
    | running | yielded => exact ⟨rfl, rfl⟩
    | done => simp [Thread.isDone, hst] at hlive
    | parked => exact absurd hst hlone.awake.1
    | yieldedTick => exact absurd hst hlone.awake.2
  have hthreads : p.world.threads[0]? = some t := by rw [h.threads]; rfl
  have hset : p.world.threads.set 0 .absent = [.absent] := by rw [h.threads]; rfl
  unfold visitAt at he
  unfold visitAtMoments
  simp only [hthreads, hset, hvisit.1, hvisit.2] at he ⊢
  obtain ⟨⟨k', scene⟩, hrun, rfl⟩ := Option.map_eq_some_iff.1 he
  obtain ⟨s, hs, hk, hbeats, rfl⟩ := lone_letRun huntimed hlone hlive hrun
  obtain ⟨hsolo, hsame⟩ := hs.solo (w := { s.world with
    current := none
    threads := [{ s.thread with warpSince := none }] }) rfl
  have hback : s.world.threads.set 0 { s.thread with warpSince := none } =
      [{ s.thread with warpSince := none }] := by rw [hs.threads]; rfl
  rw [← hsame] at hbeats
  simp only [hback]
  exact ⟨_, hsolo, hs.scheduler, hk, hbeats⟩

/-! ### A pass -/

theorem blocksOf_append (l l' : List (Moment σ)) : blocksOf (l ++ l') = blocksOf l ++ blocksOf l' :=
  List.filterMap_append

/-- A round is one visit. -/
theorem solo_visitAll (huntimed : g.Untimed top) {fuel : Nat} {p p' : Pass σ} {exhausted : Bool}
    (h : p.world.Solo c g top t) (hpass : p.world.scheduler = none) (hlive : t.isDone = false)
    (he : visitAll .empty fuel [0] p = some (p', exhausted)) :
    ∃ t', p'.world.Solo c g top t' ∧ p'.world.scheduler = none ∧
      p'.scheduler.timeless = p.scheduler.timeless ∧
      (p.world.stageFor t).timeless.Beats g p.scheduler.timeless
        (blocksOf (visitAllJournal (visitAtMoments fuel) .empty fuel [0] p))
        (p'.world.stageFor t').timeless := by
  rw [visitAll] at he
  rw [visitAllJournal, blocksOf_append]
  cases hv : visitAt .empty fuel p 0 with
  | none =>
    rw [hv] at he
    cases he
  | some p₁ =>
    obtain ⟨t', hsolo, hpass', hk, hbeats⟩ := solo_visitAt huntimed h hpass hlive hv
    have hover : p'.world = p₁.world.elapse ∧ p'.scheduler.timeless = p₁.scheduler.timeless ∧
        visitAllJournal (visitAtMoments fuel) .empty fuel [] { p₁ with world := p₁.world.elapse } =
          [] := by
      simp only [hv] at he
      split at he
      · cases he
        exact ⟨rfl, rfl, rfl⟩
      · cases he
        exact ⟨rfl, rfl, rfl⟩
    obtain ⟨hworld, hscheduler, hempty⟩ := hover
    have hretimed := retimed_elapse p₁.world
    rw [hworld]
    refine ⟨t', hsolo.retimed hretimed, hpass', hscheduler.trans hk, ?_⟩
    rw [hretimed.stage t']
    simp only [hempty, ite_self]
    simpa [blocksOf] using hbeats

theorem order_one (first : Nat) : order first 1 = [0] := by simp [order, Nat.mod_one]

theorem collect_of_live {p : Pass σ} (h : ∀ t ∈ p.world.threads, t.isDone = false)
    (finished : List ThreadId) : (p.collect finished).1.world = p.world := by
  have hkept : p.world.threads.filter (fun t => !t.isDone) = p.world.threads :=
    List.filter_eq_self.2 fun t ht => by rw [h t ht]; rfl
  have hended : p.world.threads.filter (·.isDone) = [] :=
    List.filter_eq_nil_iff.2 fun t ht => by rw [h t ht]; decide
  simp only [collect, hkept, hended, List.filterMap_nil, List.append_nil]

/-- A thread that has ended leaves the list. -/
theorem played_collect_of_done {x : Scene σ} {blocks : List Handle} {p : Pass σ}
    (h : p.world.Solo c g top t) (hdone : t.isDone = true)
    (hbeats : x.Beats g c.limits blocks (p.world.stageFor t).timeless)
    (finished : List ThreadId) : (p.collect finished).1.world.Played c g top x blocks := by
  refine .ended _ ?_ h.lone.spawned h.lone.events hbeats hdone rfl rfl
  simp [collect, h.threads, hdone]

/-- When the only thread has left, no other round follows. -/
theorem goesAround_of_threads {p : Pass σ} (h : p.world.threads = []) (exhausted : Bool) :
    p.goesAround exhausted = false := by
  simp [goesAround, h]

/-- **A pass plays on**, by induction on its rounds. -/
theorem played_rounds (huntimed : g.Untimed top) {x : Scene σ} {turnFuel : Nat} (fuel : Nat) :
    ∀ {first : Nat} {p p' : Pass σ} {finished finished' : List ThreadId} {t : Thread}
      {blocks : List Handle}, p.world.Solo c g top t → t.isDone = false →
      p.world.scheduler = none → p.scheduler.timeless = c.limits →
      x.Beats g c.limits blocks (p.world.stageFor t).timeless →
      rounds .empty turnFuel fuel first p finished = some (p', finished') →
      p'.world.Played c g top x (blocks ++ blocksOf
        (roundsJournal (visitAtMoments turnFuel) .empty turnFuel fuel first p finished)) := by
  induction fuel with
  | zero =>
    intro _ _ _ _ _ _ _ _ _ _ _ _ he
    cases he
  | succ fuel ih =>
    intro first p p' finished finished' t blocks h hlive hpass hk hbeats he
    rw [rounds] at he
    rw [roundsJournal]
    simp only [h.threads, List.length_singleton, order_one, blocksOf_append] at he ⊢
    cases hv : visitAll .empty turnFuel [0] ⟨countRound p.scheduler, p.world⟩ with
    | none =>
      rw [hv] at he
      cases he
    | some r =>
      obtain ⟨p₁, exhausted⟩ := r
      obtain ⟨t', hsolo, hpass', hk', hround⟩ :=
        solo_visitAll (p := ⟨countRound p.scheduler, p.world⟩) huntimed h hpass hlive hv
      have hlimits : p₁.scheduler.timeless = c.limits := hk'.trans hk
      rw [show (countRound p.scheduler).timeless = c.limits from hk] at hround
      have hnow := hbeats.trans hround
      simp only [hv] at he ⊢
      cases hdone : t'.isDone with
      | true =>
        have hplayed := played_collect_of_done hsolo hdone hnow finished
        have hempty : (p₁.collect finished).1.world.threads = [] := by
          simp [collect, hsolo.threads, hdone]
        have hstop : goesAround ⟨noteBudget (p₁.collect finished).1.scheduler exhausted,
            (p₁.collect finished).1.world⟩ exhausted = false := goesAround_of_threads hempty _
        simp only [hstop] at he ⊢
        cases he
        simpa [blocksOf] using hplayed
      | false =>
        have hkept : ∀ t ∈ p₁.world.threads, t.isDone = false := by
          rw [hsolo.threads]
          exact List.forall_mem_singleton.2 hdone
        simp only [collect_of_live hkept finished] at he ⊢
        split at he
        · rename_i hagain
          rw [if_pos hagain, ← List.append_assoc]
          exact ih hsolo hdone hpass' hlimits hnow he
        · rename_i hstop
          cases he
          rw [if_neg hstop]
          simpa [blocksOf] using Played.going t' hsolo hdone hnow

/-- Without threads a pass does nothing. -/
theorem rounds_of_threads {turnFuel fuel first : Nat} {p p' : Pass σ}
    {finished finished' : List ThreadId} (h : p.world.threads = [])
    (he : rounds .empty turnFuel fuel first p finished = some (p', finished')) :
    p'.world = p.world ∧
      roundsJournal (visitAtMoments turnFuel) .empty turnFuel fuel first p finished = [] := by
  cases fuel with
  | zero => cases he
  | succ fuel =>
    have hnone : order first 0 = [] := rfl
    rw [rounds] at he
    rw [roundsJournal]
    simp only [h, List.length_nil, hnone, visitAll, visitAllJournal, List.nil_append] at he ⊢
    have hlive : ∀ t ∈ p.world.threads, t.isDone = false := by simp [h]
    have hkept : ∀ s, (collect ⟨s, p.world⟩ finished).1.world = p.world :=
      fun s => collect_of_live (p := ⟨s, p.world⟩) hlive finished
    have hstop : ∀ s exhausted, goesAround ⟨s, p.world⟩ exhausted = false :=
      fun s exhausted => goesAround_of_threads (p := ⟨s, p.world⟩) h exhausted
    simp only [hkept, hstop] at he ⊢
    cases he
    exact ⟨rfl, rfl⟩

end Pass

namespace World

variable {σ : Type}

/-! ### A step -/

/-- The blocks that a step executes. -/
def blocks (fuel : Nat) (w : World σ) : List Handle := Pass.blocksOf (w.moments fuel)

variable {c : Settings} {g : Graph} {top : Handle} {w w' : World σ} {x : Scene σ}
  {sofar : List Handle}

theorem Played.spawned (h : Played c g top x sofar w) : w.spawned = [] := by
  cases h with
  | going t hs => exact hs.lone.spawned
  | ended _ _ hsp => exact hsp

theorem Played.events (h : Played c g top x sofar w) : w.events = .empty := by
  cases h with
  | going t hs => exact hs.lone.events
  | ended _ _ _ hev => exact hev

theorem dispatchEvents_of_empty (h : w.events = .empty) : w.dispatchEvents = w := by
  unfold dispatchEvents EventQueue.drain
  simp only [h]
  show { w with events := .empty } = w
  rw [← h]

/-- What follows the rounds of a pass touches nothing but time when nothing waits for it. -/
theorem Played.finish {p : Pass σ} (h : p.world.Played c g top x sofar) (s : Scheduler) :
    ({ p.finish.world with scheduler := some s } : World σ).dispatchEvents.flushCloud.1.Played
      c g top x sofar := by
  have hevents : ({ p.finish.world with scheduler := some s } : World σ).events = .empty := h.events
  rw [dispatchEvents_of_empty hevents]
  have hspawned := h.spawned
  refine h.retimed ⟨rfl, ?_, rfl, fun t => ?_⟩
  · show p.world.threads ++ p.world.spawned.filter _ = p.world.threads
    rw [hspawned, List.filter_nil, List.append_nil]
  · have hsame : ({ p.world with spawned := [] } : World σ) = p.world := by rw [← hspawned]
    have hstage := congrArg (fun w : World σ => (w.stageFor t).timeless) hsame
    exact hstage

/-- **A step plays on.** -/
theorem Played.step (huntimed : g.Untimed top) (h : Played c g top x sofar w) {fuel : Nat}
    {ended : List ThreadId} (he : w.step .empty fuel = some (w', ended)) :
    Played c g top x (sofar ++ w.blocks fuel) w' := by
  unfold World.step at he
  unfold blocks moments journal
  cases hs : w.scheduler with
  | none =>
    rw [hs] at he
    cases he
    simpa [Pass.blocksOf] using h
  | some s =>
    simp only [hs, Pass.run] at he ⊢
    split at he
    · cases he
    · rename_i p finished hrun
      obtain ⟨⟨q, _⟩, hrounds, hq⟩ := Option.map_eq_some_iff.1 hrun
      cases hq
      cases he
      refine Played.finish ?_ _
      have hbegin : w.threads.map (fun t =>
          if t.status = .yieldedTick then { t with status := .running } else t) = w.threads →
          Retimed w (Pass.begin (s.configure w.settings) { w with scheduler := none }).world :=
        fun ht => ⟨rfl, ht, rfl, fun _ => rfl⟩
      cases h with
      | going t hsolo hlive hbeats =>
        have hawake : t.status ≠ .yieldedTick := hsolo.lone.awake.2
        have hretimed := hbegin (by simp [hsolo.threads, hawake])
        have hk : (s.configure w.settings).timeless = c.limits :=
          congrArg Settings.limits hsolo.lone.settings
        exact Pass.played_rounds huntimed fuel (hsolo.retimed hretimed) hlive rfl hk
          (hretimed.stage t ▸ hbeats) hrounds
      | ended y ht hsp hev hbeats hdone hactors hfaults =>
        have hretimed := hbegin (by simp [ht])
        obtain ⟨hworld, hjournal⟩ := Pass.rounds_of_threads (hretimed.threads.trans ht) hrounds
        rw [hworld, hjournal]
        simpa [Pass.blocksOf] using
          (Played.ended y ht hsp hev hbeats hdone hactors hfaults).retimed hretimed

/-! ### A course -/

/-- The clock shows a reading and goes on from there as told. -/
def setTime (w : World σ) (micros : Nat) (drift : Nat → Nat) : World σ :=
  { w.setClock micros with drift := drift }

/-- Steps of a world until no thread is left, with the blocks that they execute. Before each of them
the host lets the clock show any reading, and during the step it goes on as it likes. -/
inductive Course : World σ → List Handle → World σ → Prop
  | nil {w : World σ} : w.threads = [] → Course w [] w
  | step {w w₁ w' : World σ} {fuel : Nat} {ended : List ThreadId} {blocks : List Handle}
      (micros : Nat) (drift : Nat → Nat) :
      (w.setTime micros drift).step .empty fuel = some (w₁, ended) → Course w₁ blocks w' →
        Course w ((w.setTime micros drift).blocks fuel ++ blocks) w'

theorem retimed_setTime (w : World σ) (micros : Nat) (drift : Nat → Nat) :
    Retimed w (w.setTime micros drift) := ⟨rfl, rfl, rfl, fun _ => rfl⟩

theorem Played.course (huntimed : g.Untimed top) {blocks : List Handle}
    (h : Played c g top x sofar w) (hc : Course w blocks w') :
    Played c g top x (sofar ++ blocks) w' ∧ w'.threads = [] := by
  induction hc generalizing sofar with
  | nil hthreads =>
    rw [List.append_nil]
    exact ⟨h, hthreads⟩
  | step micros drift hstep _ ih =>
    rw [← List.append_assoc]
    exact ih ((h.retimed (retimed_setTime _ micros drift)).step huntimed hstep)

/-- A course plays the script to its end. -/
theorem Course.beats (huntimed : g.Untimed top) {blocks : List Handle} {t : Thread}
    (hs : w.Solo c g top t) (hlive : t.isDone = false) (hc : Course w blocks w') :
    ∃ y : Scene σ, (w.stageFor t).timeless.Beats g c.limits blocks y ∧ y.thread.isDone = true ∧
      w'.actors = y.world.actors ∧ w'.faults = y.world.faults := by
  obtain ⟨hplayed, hnone⟩ := (Played.going t hs hlive (.nil _)).course huntimed hc
  cases hplayed with
  | going t' hs' =>
    rw [hs'.threads] at hnone
    cases hnone
  | ended y _ _ _ hbeats hdone hactors hfaults => exact ⟨y, hbeats, hdone, hactors, hfaults⟩

/-- **Two courses from the same timeless part execute the same blocks and come to the same actors
and faults.** -/
theorem Course.same {c' : Settings} {w₁ w₁' : World σ} {blocks blocks' : List Handle} {t : Thread}
    (huntimed : g.Untimed top) (hc : Course w blocks w') (hc' : Course w₁ blocks' w₁')
    (hs : w.Solo c g top t) (hs' : w₁.Solo c' g top t) (hlive : t.isDone = false)
    (hsettings : c.timeless = c'.timeless)
    (hstage : (w.stageFor t).timeless = (w₁.stageFor t).timeless) :
    blocks = blocks' ∧ w'.actors = w₁'.actors ∧ w'.faults = w₁'.faults := by
  obtain ⟨y, hbeats, hdone, hactors, hfaults⟩ := hc.beats huntimed hs hlive
  obtain ⟨y', hbeats', hdone', hactors', hfaults'⟩ := hc'.beats huntimed hs' hlive
  have hlimits : c.limits = c'.limits := (congrArg Settings.limits hsettings :)
  rw [← hlimits, ← hstage] at hbeats'
  obtain ⟨rfl, rfl⟩ := hbeats.unique hbeats' hdone hdone'
  exact ⟨rfl, hactors.trans hactors'.symm, hfaults.trans hfaults'.symm⟩

end World

end Stagecraft
