import Stagecraft.Proofs.Schedule.Channels
import Stagecraft.Proofs.Schedule.Standing

/-!
# Commands that are waited for

A command that answers later parks its thread. While the result has not come, a turn of the thread
only looks for it. The first turn that finds a value goes on from there as from a command that has
just completed: the thread moves past the block, leaves the frames that are done, or comes back to a
loop. A thread that is stopped or started over meanwhile awaits the result no longer, and neither
does anybody else.

* `Outing` : a turn of a thread, with what it finds;
* `Thread.Fate` : what becomes of a thread that waits, between its turns;
* `Outing.Completes` : a turn goes on as from a command that has just completed;
* `Outing.Stay` : the turns of a thread while it waits, and the one behind them;
* `Execution.Vanishes` : a result that is not awaited any more is refused;
* `Outing.stay_of_plays` : **a command that is waited for, at any block of a run**.
-/

namespace Stagecraft

open World

/-! ### Turns of a thread -/

/-- A turn of a thread, as it begins. -/
structure Outing (σ : Type) where
  /-- The primitives of the host. -/
  ext : Extensions σ
  /-- How many blocks a turn may have. -/
  fuel : Nat
  /-- The scheduler at that moment. -/
  scheduler : Scheduler
  /-- The world, without the thread. -/
  world : World σ
  /-- The thread. -/
  thread : Thread

namespace Outing

open Thread

variable {σ : Type} (u v : Outing σ)

/-- How the turn comes out. -/
def upshot : Option (Scheduler × Scene σ) := Pass.visit u.ext u.fuel u.scheduler u.world u.thread

/-- The blocks that are executed in the turn. -/
def executions : List (Execution σ) :=
  Pass.visitExecutions u.ext u.fuel u.scheduler u.world u.thread

/-- The turn is over, and the thread has waited since. -/
def Leaves (t : Thread) : Prop := ∃ k s, u.upshot = some (k, s) ∧ Waited s.thread t

/-- Every turn is written down. -/
def log (σ : Type) : Log σ (Outing σ) := fun ext fuel k w t => [⟨ext, fuel, k, w, t⟩]

/-- The turns of threads. -/
def diary (σ : Type) : Diary (Outing σ) where
  id u := u.thread.id
  Next u v := u.Leaves v.thread
  Rests := Waited
  Starts t u := Waited t u.thread
  Leaves := Leaves
  waited h := h
  trans := Waited.trans
  starts := Waited.trans
  leaves h h' := by
    obtain ⟨k, s, hupshot, hw⟩ := h
    exact ⟨k, s, hupshot, hw.trans h'⟩
  next h h' := by
    obtain ⟨k, s, hupshot, hw⟩ := h
    exact ⟨k, s, hupshot, hw.trans h'⟩

theorem keeps_log : (log σ).Keeps (diary σ) := by
  intro ext _ fuel k w t
  refine ⟨fun u hu => ?_, .singleton _, fun u hu => ?_, fun k s h => ⟨k, s, h, .refl s.thread⟩⟩
  · rw [List.mem_singleton.1 hu]
    rfl
  · cases hu
    exact .refl t

/-- The turns of a run. Hosts await only what is new. -/
abbrev Plays (P : Extensions σ → Prop) : World σ → List (Outing σ) → World σ → Prop :=
  World.Recounts (log σ) FairDeed P

/-- The turns of a step. -/
abbrev ofStep (ext : Extensions σ) (fuel : Nat) (w : World σ) : List (Outing σ) :=
  (log σ).step ext fuel w

/-- The turns of one thread among others. -/
abbrev own (id : ThreadId) (l : List (Outing σ)) : List (Outing σ) := (diary σ).own id l

/-- What is executed in turns is what is executed. -/
theorem flatMap_log (ext : Extensions σ) (fuel : Nat) (k : Scheduler) (w : World σ) (t : Thread) :
    (log σ ext fuel k w t).flatMap executions = Pass.visitExecutions ext fuel k w t :=
  List.append_nil _

end Outing

/-! ### A thread that waits -/

namespace Thread

variable {T t t' : Thread} {c : Nat}

/-- A thread at rest that waits for the result of a command. -/
def waiting (t : Thread) (c : Nat) : Thread :=
  { t with
    pending := some ⟨c, .command⟩
    status := .parked
    warpSince := none
    restarting := false }

/-- What becomes of a thread that waits, between its turns. -/
inductive Fate (T : Thread) : Thread → Prop
  /-- It still waits. -/
  | waits : Fate T T
  /-- It was stopped. -/
  | stopped : Fate T T.retire
  /-- It was started over. -/
  | startedOver : Fate T T.restart

theorem Fate.handled (h : Fate T t) (h' : Handled t t') : Fate T t' := by
  cases h' with
  | kept => exact h
  | stopped => cases h <;> exact .stopped
  | @startedOver top hd ht =>
    have hrestart : ∀ {u : Thread}, u.top = some top →
        ({ u with
          stack := [.start top false]
          pending := none
          warpSince := none
          restarting := false
          status := .running } : Thread) = u.restart := fun hu => by simp [restart, hu]
    cases h with
    | waits => exact hrestart ht ▸ .startedOver
    | stopped => cases hd
    | startedOver =>
      rw [hrestart ht]
      exact .startedOver

/-- Whatever happens between turns, it comes to one of these. -/
theorem Fate.waited (hT : T.status = .parked) (h : Fate T t) (h' : Waited t t') : Fate T t' := by
  have hdue : t.due = t := by
    cases h with
    | waits => rw [Thread.due, if_neg (by rw [hT]; decide)]
    | stopped | startedOver => rfl
  rcases h' with h' | h'
  · exact h.handled h'
  · exact h.handled (hdue ▸ h')

theorem Fate.id (h : Fate T t) : t.id = T.id := by
  cases h <;> rfl

end Thread

namespace Outing

open Scene Thread

variable {σ : Type} {v : Outing σ} {T : Thread} {c : Nat}

/-- The turn goes on as from a command that has just completed: what the reporters of the block gave
is forgotten, and the thread moves past the block, as it does behind a block that it executes. It
executes its next block in the same turn, or the turn is over. The thread of an actor that is gone
ends. -/
def Completes (v : Outing σ) (w : World σ) : Prop :=
  match w.graph? v.thread.actor with
  | none => v.executions = [] ∧ v.upshot = some (v.scheduler, ⟨w, v.thread.retire⟩)
  | some g => ∀ top, v.thread.topBlock? = some top →
    match (finish (siteAt v.scheduler g ⟨w, v.thread⟩ top) (⟨w, v.thread.awake⟩, .done)).1.proceed
      v.scheduler g top (Scheduler.inWarp v.thread) with
    | (s, .goesOn) =>
      v.executions = Pass.runExecutions v.ext v.fuel v.scheduler s.world s.thread ∧
        v.upshot = Pass.letRun v.ext v.fuel v.scheduler s.world s.thread
    | (s, .ends) => v.executions = [] ∧ v.upshot = some (v.scheduler, ⟨s.world, s.thread.atRest⟩)

/-- A turn in which the result of a command has come. -/
inductive Comes (v : Outing σ) (c : Nat) : Prop
  | resolved {w : World σ} {x : Value} : v.world.poll c = (w, some (.resolved x)) → v.Completes w →
      Comes v c
  /-- The command has failed, which ends the thread. -/
  | rejected {w : World σ} {reason : String} : v.world.poll c = (w, some (.rejected reason)) →
      v.executions = [] →
      v.upshot = some (v.scheduler,
        (⟨w, v.thread⟩ : Scene σ).fault (Pass.standingOn w v.thread) (.rejected reason)) →
      Comes v c

/-- The turns of a thread while it waits for the result of a command, and those behind them. -/
structure Stay (T : Thread) (c : Nat) (stay rest : List (Outing σ)) : Prop where
  /-- The result has not come: the thread is left as it is, and nothing is executed. -/
  idle : ∀ v ∈ stay, v.thread = T ∧ (v.world.poll c).2 = none ∧ v.executions = [] ∧
    v.upshot = some (v.scheduler, ⟨(v.world.poll c).1, T⟩)
  /-- The first turn behind them finds the result, unless the thread was stopped or started over. -/
  next : ∀ v ∈ rest.head?, T.Fate v.thread ∧ (v.thread = T → v.Comes c)

/-- The thread goes on. -/
theorem woken {s : Scene σ} (hst : v.thread.status = .parked)
    (h : Pass.wake v.scheduler v.world v.thread = (s, true)) :
    v.executions = Pass.runExecutions v.ext v.fuel v.scheduler s.world s.thread ∧
      v.upshot = Pass.letRun v.ext v.fuel v.scheduler s.world s.thread := by
  unfold executions upshot Pass.visitExecutions Pass.visit
  rw [hst]
  simp only [h]
  exact ⟨trivial, trivial⟩

/-- It does not go on in this turn. -/
theorem asleep {s : Scene σ} (hst : v.thread.status = .parked)
    (h : Pass.wake v.scheduler v.world v.thread = (s, false)) :
    v.executions = [] ∧
      v.upshot = some (v.scheduler, { s with thread := { s.thread with warpSince := none } }) := by
  unfold executions upshot Pass.visitExecutions Pass.visit
  rw [hst]
  simp only [h]
  exact ⟨trivial, trivial⟩

/-- Behind a command that has just completed the thread moves past the block. -/
theorem proceed_of_done {k : Scheduler} {g : Graph} {w : World σ} {t : Thread} {f : Frame}
    {below : List Frame} (hs : t.stack = f :: below) (warp : Bool) :
    (finish (siteAt k g ⟨w, t⟩ f.block) (⟨w, t.awake⟩, .done)).1.proceed k g f.block warp =
      let r := k.advance w.now g { t.awake with stack := { f with reported := .empty } :: below }
      (⟨w, r.1⟩, r.2) := by
  have hforget : (finish (siteAt k g ⟨w, t⟩ f.block) (⟨w, t.awake⟩, .done)).1 =
      ⟨w, { t.awake with stack := { f with reported := .empty } :: below }⟩ := by
    have hframe : (siteAt k g ⟨w, t⟩ f.block).frame = below.length := by
      rw [siteAt, depth, hs]
      rfl
    rw [finish, forget, hframe, modifyFrame_top (t := t.awake) hs]
  rw [hforget, proceed]
  simp [awake, topBlock?]

/-- **A turn that finds the value of a command.** -/
theorem completes_of_resolved {w : World σ} {x : Value} (hst : v.thread.status = .parked)
    (hp : v.thread.pending = some ⟨c, .command⟩) (hr : v.thread.restarting = false)
    (hpoll : v.world.poll c = (w, some (.resolved x))) : v.Completes w := by
  have hwake : Pass.wake v.scheduler v.world v.thread =
      (⟨w, (Pass.takeIn v.scheduler w v.thread .command x).1⟩,
        (Pass.takeIn v.scheduler w v.thread .command x).2) := by
    rw [Pass.wake, hp]
    simp only [hpoll]
  unfold Completes
  cases hg : w.graph? v.thread.actor with
  | none =>
    rw [Pass.takeIn] at hwake
    simp only [hg] at hwake
    exact asleep hst hwake
  | some g =>
    intro top htop
    cases hs : v.thread.stack with
    | nil =>
      rw [topBlock?_nil hs] at htop
      cases htop
    | cons f below =>
      cases (topBlock?_eq hs).symm.trans htop
      rw [proceed_of_done hs]
      rw [Pass.takeIn_command hs hg] at hwake
      simp only at hwake ⊢
      rcases ha : v.scheduler.advance w.now g
          { v.thread.awake with stack := { f with reported := .empty } :: below } with ⟨t, turn⟩
      rw [ha] at hwake
      have hthread : t.restarting = false := by
        obtain ⟨stack, status, rfl⟩ := (Scheduler.advanced_of_advance ha).exists_stack
        exact hr
      cases turn with
      | goesOn => exact woken hst hwake
      | ends =>
        obtain ⟨hexec, hupshot⟩ := asleep hst hwake
        refine ⟨hexec, hupshot.trans ?_⟩
        have hrest : t.atRest = { t with warpSince := none } := by
          rw [atRest, if_neg (by rw [hthread]; decide)]
        rw [hrest]

/-- A turn of a thread that waits for the result of a command. -/
theorem poll_cases (hst : v.thread.status = .parked) (hp : v.thread.pending = some ⟨c, .command⟩)
    (hr : v.thread.restarting = false) :
    v.Comes c ∨ (v.world.poll c).2 = none ∧ v.executions = [] ∧ v.upshot = some (v.scheduler,
      ⟨(v.world.poll c).1, { v.thread with warpSince := none }⟩) := by
  rcases hpoll : v.world.poll c with ⟨w, d⟩
  cases d with
  | none =>
    have hwake : Pass.wake v.scheduler v.world v.thread = (⟨w, v.thread⟩, false) := by
      rw [Pass.wake, hp]
      simp only [hpoll]
    exact .inr ⟨rfl, asleep hst hwake⟩
  | some d =>
    cases d with
    | resolved x => exact .inl (.resolved hpoll (completes_of_resolved hst hp hr hpoll))
    | rejected reason =>
      have hwake : Pass.wake v.scheduler v.world v.thread =
          ((⟨w, v.thread⟩ : Scene σ).fault (Pass.standingOn w v.thread) (.rejected reason),
            false) := by
        rw [Pass.wake, hp]
        simp only [hpoll]
      obtain ⟨hexec, hupshot⟩ := asleep hst hwake
      exact .inl (.rejected hpoll hexec hupshot)

/-- **A thread that waits**, by induction on its turns. -/
theorem exists_stay (hst : T.status = .parked) (hp : T.pending = some ⟨c, .command⟩)
    (hr : T.restarting = false) (hwarp : T.warpSince = none) : ∀ later : List (Outing σ),
      (∀ v ∈ later.head?, T.Fate v.thread) → later.IsChain (diary σ).Next →
        ∃ stay rest, later = stay ++ rest ∧ Stay T c stay rest := by
  intro later
  induction later with
  | nil => exact fun _ _ => ⟨[], [], rfl, fun _ hv => (by cases hv), fun _ hv => by cases hv⟩
  | cons v later ih =>
    intro hfate hchain
    obtain ⟨hnext, hchain'⟩ := List.isChain_cons.1 hchain
    have hv : T.Fate v.thread := hfate v rfl
    have hstop : (v.thread = T → v.Comes c) →
        ∃ stay rest, v :: later = stay ++ rest ∧ Stay T c stay rest := fun hcomes =>
      ⟨[], v :: later, rfl, fun _ hv => (by cases hv), fun u hu => by cases hu; exact ⟨hv, hcomes⟩⟩
    by_cases hwaits : v.thread = T
    · rcases poll_cases (v := v) (c := c) (hwaits ▸ hst) (hwaits ▸ hp) (hwaits ▸ hr) with
        hcomes | ⟨hnone, hexec, hupshot⟩
      · exact hstop fun _ => hcomes
      · have hrest : ({ v.thread with warpSince := none } : Thread) = T := by
          rw [hwaits, ← hwarp]
        rw [hrest] at hupshot
        have hhead : ∀ u ∈ later.head?, T.Fate u.thread := fun u hu => by
          obtain ⟨k, s, hupshot', hwaited⟩ := hnext u hu
          rw [hupshot] at hupshot'
          cases hupshot'
          exact Fate.waits.waited hst hwaited
        obtain ⟨stay, rest, rfl, hstay⟩ := ih hhead hchain'
        refine ⟨v :: stay, rest, rfl, fun u hu => ?_, hstay.next⟩
        rcases List.mem_cons.1 hu with rfl | hu
        · exact ⟨hwaits, hnone, hexec, hupshot⟩
        · exact hstay.idle u hu
    · exact hstop fun h => absurd h hwaits

end Outing

/-! ### The block -/

namespace Execution

open Scene Thread

variable {σ : Type} {e : Execution σ} {i : Invocation σ} {f : Frame} {below : List Frame} {c : Nat}

theorem stack_of_call (h : e.call? = some i) : ∃ f below, e.thread.stack = f :: below := by
  cases hs : e.thread.stack with
  | nil =>
    rw [call?, topBlock?_nil hs] at h
    cases h
  | cons f below => exact ⟨f, below, rfl⟩

/-- The primitive answers later, which parks the thread. -/
theorem executed_of_deferred (hcall : e.call? = some i) (hc : (i.result e.ext).2 = .deferred c) :
    e.executed = ((i.result e.ext).1.park c .command, none) := by
  obtain ⟨f, below, hs⟩ := stack_of_call hcall
  rw [(ran_of_call hs hcall).executed]
  rcases hi : i.result e.ext with ⟨s, o⟩
  rw [hi] at hc
  cases hc
  rfl

/-- **Its turn is over then**, and the thread waits, unless something was asked of it meanwhile. -/
theorem fate_of_deferred (hcall : e.call? = some i) (hc : (i.result e.ext).2 = .deferred c) :
    e.after.2.2 = .ends ∧
      ((i.result e.ext).1.thread.waiting c).Fate e.after.2.1.thread.atRest := by
  obtain ⟨f, below, hs⟩ := stack_of_call hcall
  have hx := executed_of_deferred hcall hc
  generalize i.result e.ext = r at hx
  rcases ho : (r.1.park c .command).obey with ⟨s', asked⟩
  cases asked with
  | true =>
    rw [after_of_obeyed hs hx ho]
    refine ⟨rfl, ?_⟩
    cases obeyed_of_obey ho with
    | stopped => exact .stopped
    | startsOver => exact .startedOver
  | false =>
    cases obey_fst_of_false ho
    rw [after_of_moved hs hx ho]
    refine ⟨rfl, ?_⟩
    change ((r.1.thread.waiting c).Fate (r.1.park c .command).thread.atRest)
    cases hr : r.1.thread.restarting with
    | true =>
      rw [atRest, if_pos (show (r.1.park c .command).thread.restarting = true from hr)]
      exact .startedOver
    | false =>
      have hrest : (r.1.park c .command).thread.atRest = r.1.thread.waiting c := by
        simp [atRest, park, waiting, hr]
      rw [hrest]
      exact .waits

/-- Where neither inputs nor the primitive change the stack, the thread waits at the block. -/
theorem stack_of_waiting (hs : e.thread.stack = f :: below) (hcall : e.call? = some i)
    (hg : e.graph.PlugsValues e.ext)
    (hstack : (i.result e.ext).1.thread.stack = i.before.thread.stack) :
    ∃ memo, ((i.result e.ext).1.thread.waiting c).stack = { f with reported := memo } :: below := by
  obtain ⟨memo, hbefore⟩ := (ran_of_call hs hcall).before hs hg
  exact ⟨memo, hstack.trans (by rw [hbefore])⟩

/-- What follows the block keeps to the ledger. -/
theorem passes_after {s : Scene σ} (hs : e.thread.stack = f :: below)
    (hx : e.executed = (s, none)) : s.ledger.Passes e.after.2.1.ledger := by
  rcases ho : s.obey with ⟨s', asked⟩
  cases asked with
  | true =>
    rw [after_of_obeyed hs hx ho]
    exact (obeyed_of_obey ho).passes
  | false =>
    cases obey_fst_of_false ho
    exact (proceeded_after hs hx ho).passes

/-- **The result is awaited by nobody else.** -/
theorem sole_of_deferred (hext : e.ext.GivesOnce) (hsound : e.scene.ledger.Sound)
    (hcall : e.call? = some i) (hc : (i.result e.ext).2 = .deferred c) :
    e.after.2.1.ledger.Sole c (i.result e.ext).1.thread.id := by
  obtain ⟨f, below, hs⟩ := stack_of_call hcall
  have hx := executed_of_deferred hcall hc
  have hexec := (passes_entered e.scene).trans
    (passes_execute hext e.scheduler.countBlock e.graph e.entered)
  rw [show e.entered.execute e.ext e.scheduler.countBlock e.graph = _ from hx] at hexec
  exact (passes_after hs hx).sole ((hexec.sound hsound).sole
    (t := ((i.result e.ext).1.park c .command).thread) (List.mem_cons_self ..) rfl)

/-- From a block on, what a thread does not await any more it does not await again, and delivering
the result is refused, whichever block does it. -/
structure Vanishes (c : Nat) (id : ThreadId) (e : Execution σ) (later : List (Execution σ)) :
    Prop where
  refused : ∀ x ∈ later, x.scene.ledger.Forsakes c id → ∀ j ∈ x.calls, j.before.world.Refuses c
  within : ∀ x ∈ later, x.scene.ledger.Forsakes c id → x.after.2.1.ledger.Forsakes c id
  between : (e :: later).Pairwise fun x y =>
    x.after.2.1.ledger.Forsakes c id → y.scene.ledger.Forsakes c id

/-- A block cannot deliver a result that is not awaited any more. -/
theorem refuses_calls {x : Execution σ} {id : ThreadId} (hext : x.ext.GivesOnce)
    (hsole : x.scene.ledger.Sole c id) (h : x.scene.ledger.Forsakes c id) :
    ∀ j ∈ x.calls, j.before.world.Refuses c := by
  intro j hj
  have hpasses := passes_calls hext j hj
  exact refuses_of_forsakes (L := j.before.ledger) rfl (List.subset_cons_self ..)
    (hpasses.sole hsole) (hpasses.forsakes hsole h)

end Execution

namespace World

variable {σ : Type} {w : World σ} {c : Nat} {id : ThreadId}

/-- Nor can a host. -/
theorem refuses_of_sole (hsole : w.ledger.Sole c id) (h : w.ledger.Forsakes c id) : w.Refuses c :=
  refuses_of_forsakes (L := w.ledger) rfl (List.Subset.refl _) hsole h

end World

namespace Outing

open Scene Thread Execution

variable {σ : Type} {ext : Extensions σ} {w w' : World σ} {l : List (Outing σ)}
  {P : Extensions σ → Prop} {c : Nat} {id : ThreadId}

/-- The ledger along the blocks of a run. -/
theorem tells_claims (hw : w.Settled) (h : Plays P w l w')
    (hP : ∀ ext, P ext → ext.Orderly ∧ ext.GivesOnce) (hext : P ext) (fuel : Nat) :
    (claims σ).Telling w (l.flatMap executions) w' ∧ w'.Settled ∧
      (claims σ).Tells w ((l ++ ofStep ext fuel w').flatMap executions) := by
  have hrun : Recounts Pass.visitExecutions FairDeed P w (l.flatMap executions) w' :=
    h.flatMap flatMap_log
  have hD : ∀ {w w' : World σ}, FairDeed w w' → Deed w w' ∧ w.ledger.Passes w'.ledger :=
    fun hd => ⟨hd.1, hd.passes⟩
  have hvisits : ∀ ext, P ext → ext.Orderly ∧ (claims σ).Visits ext := fun ext hp =>
    ⟨(hP ext hp).1, visits_claims (hP ext hp).1 (hP ext hp).2⟩
  obtain ⟨htelling, hend⟩ := Course.telling_of_plays (C := claims σ) hw hrun hD hvisits
  refine ⟨htelling, hend, ?_⟩
  rw [List.flatMap_append, (log σ).flatMap_step ext fuel flatMap_log]
  exact Course.tells_of_plays (C := claims σ) hw hrun hD hvisits hext fuel

/-- **A result that a thread does not await any more is refused**, from a world on. -/
theorem refused_of_tells {l : List (Execution σ)} (hsole : w.ledger.Sole c id)
    (h : w.ledger.Forsakes c id) (htells : (claims σ).Tells w l) :
    ∀ x ∈ l, ∀ j ∈ x.calls, j.before.world.Refuses c := fun x hx =>
  refuses_calls (htells.each x hx).1.2 ((htells.first x hx).sole hsole)
    ((htells.first x hx).forsakes hsole h)

/-- **Commands that are waited for.** When the primitive of a block answers later, the block is
the last one of the turn, and the thread waits there. While the result has not come, the turns of
the thread execute nothing. The first turn that finds a value moves past the block as from a
command that has just completed; only being stopped or started over keeps the thread from that.
Then nobody awaits the result any more, and whenever it is delivered later, by a block or by the
host, that is refused and changes no thread. -/
theorem stay_of_plays {front later : List (Outing σ)} {u : Outing σ} {e : Execution σ}
    {i : Invocation σ} (hw : w.Reachable) (hsound : w.ledger.Sound) (h : Plays P w l w')
    (hP : ∀ ext, P ext → ext.Orderly ∧ ext.GivesOnce) (hext : P ext) (fuel : Nat)
    (hrun : own id (l ++ ofStep ext fuel w') = front ++ u :: later) (he : e ∈ u.executions)
    (hcall : e.call? = some i) (hc : (i.result e.ext).2 = .deferred c) :
    let T := (i.result e.ext).1.thread.waiting c
    (u.executions.getLast? = some e ∧ ∃ k s, u.upshot = some (k, s) ∧ T.Fate s.thread) ∧
      (∀ f below, e.thread.stack = f :: below → e.graph.PlugsValues e.ext →
        (i.result e.ext).1.thread.stack = i.before.thread.stack →
          ∃ memo, T.stack = { f with reported := memo } :: below) ∧
      (∃ stay rest, later = stay ++ rest ∧ Stay T c stay rest) ∧
      (∀ before after, (l ++ ofStep ext fuel w').flatMap executions = before ++ e :: after →
        Vanishes c id e after) ∧
      (u ∈ l → w'.ledger.Forsakes c id → ∀ rest w'' ext' fuel', Plays P w' rest w'' → P ext' →
        w''.Refuses c ∧ ∀ x ∈ (rest ++ ofStep ext' fuel' w'').flatMap executions,
          ∀ j ∈ x.calls, j.before.world.Refuses c) := by
  intro T
  have hset := settled_of_reachable hw
  obtain ⟨htelling, hset', htells⟩ := tells_claims hset h hP hext fuel
  have hown : u ∈ own id (l ++ ofStep ext fuel w') :=
    hrun ▸ List.mem_append_right front (List.mem_cons_self ..)
  obtain ⟨hu, hid⟩ := (diary σ).mem_own.1 hown
  have hmem : e ∈ (l ++ ofStep ext fuel w').flatMap executions := List.mem_flatMap.2 ⟨u, hu, he⟩
  obtain ⟨⟨horderly, hgives⟩, -⟩ := htells.each e hmem
  -- the turn
  obtain ⟨hends, hfate⟩ := fate_of_deferred hcall hc
  obtain ⟨hlast, hupshot⟩ := Pass.visit_of_ends he hends
  -- the turns behind it
  have hchain : (u :: later).IsChain (diary σ).Next := by
    have hall := Diary.chain_of_recounts keeps_log hw (h.mono And.left)
      (fun ext hp => (hP ext hp).1) hext fuel id
    rw [show (diary σ).own id (l ++ (log σ).step ext fuel w') = _ from hrun] at hall
    exact (List.isChain_append.1 hall).2.1
  obtain ⟨hnext, hchain'⟩ := List.isChain_cons.1 hchain
  have hhead : ∀ v ∈ later.head?, T.Fate v.thread := fun v hv => by
    obtain ⟨k, s, hupshot', hwaited⟩ := hnext v hv
    cases hupshot.symm.trans hupshot'
    exact hfate.waited rfl hwaited
  -- the result
  have hsole : e.after.2.1.ledger.Sole c id := by
    have hself : T.id = id := by
      have hconserves := Pass.conserves_visit (Pass.ext_visitExecutions e he ▸ horderly) hupshot
      exact hfate.id.symm.trans (hconserves.id.trans hid)
    exact hself ▸ sole_of_deferred hgives ((htells.first e hmem).sound hsound) hcall hc
  refine ⟨⟨hlast, _, _, hupshot, hfate⟩,
    fun f below hs hg hstack => stack_of_waiting hs hcall hg hstack,
    exists_stay rfl rfl rfl rfl later hhead hchain',
    fun before after hsplit => ?_, fun hdone hforsakes rest w'' ext' fuel' h' hext' => ?_⟩
  · have horder := htells.order
    rw [hsplit] at horder
    have horder' := (List.pairwise_append.1 horder).2.1
    have hafter : ∀ x ∈ after, (x.ext.GivesOnce ∧ x.scene.ledger.Passes x.after.2.1.ledger) ∧
        x.scene.ledger.Sole c id := fun x hx => by
      have hx' := htells.each x (hsplit ▸ List.mem_append_right before (List.mem_cons_of_mem e hx))
      exact ⟨⟨hx'.1.2, hx'.2⟩, ((List.pairwise_cons.1 horder').1 x hx).sole hsole⟩
    have hsole' : ∀ x ∈ e :: after, x.after.2.1.ledger.Sole c id := fun x hx => by
      rcases List.mem_cons.1 hx with rfl | hx
      · exact hsole
      · exact (hafter x hx).1.2.sole (hafter x hx).2
    exact ⟨fun x hx hf => refuses_calls (hafter x hx).1.1 (hafter x hx).2 hf,
      fun x hx hf => (hafter x hx).1.2.forsakes (hafter x hx).2 hf,
      horder'.imp_of_mem fun hx _ hxy hf => hxy.forsakes (hsole' _ hx) hf⟩
  · have hsole' : w'.ledger.Sole c id :=
      (htelling.last e (List.mem_flatMap.2 ⟨u, hdone, he⟩)).sole hsole
    obtain ⟨htelling', -, htells'⟩ := tells_claims hset' h' hP hext' fuel'
    exact ⟨refuses_of_sole (htelling'.whole.sole hsole')
      (htelling'.whole.forsakes hsole' hforsakes),
      refused_of_tells hsole' hforsakes htells'⟩

end Outing

/-- The channel on which a primitive answers later. -/
def Outcome.channel? : Outcome → Option Nat
  | .deferred c => some c
  | _ => none

namespace Outing

/-- What is executed in a turn: where the thread stands, and the channel on which it is answered. -/
def acts (u : Outing Unit) : List (List Nat × Option Nat) :=
  u.executions.map fun e =>
    (e.thread.stackBlocks.map (·.index), e.call?.bind fun i => (i.result e.ext).2.channel?)

/-- The first turn executes a block that is answered later. -/
theorem exists_deferred {l : List (Outing Unit)} {stack : List Nat} {c : Nat}
    {rest : List (List (List Nat × Option Nat))} (h : l.map acts = [(stack, some c)] :: rest) :
    ∃ u later e i, l = u :: later ∧ later.map acts = rest ∧ e ∈ u.executions ∧ e.call? = some i ∧
      (i.result e.ext).2 = .deferred c := by
  obtain ⟨u, later, rfl, hu, hlater⟩ := List.map_eq_cons_iff.1 h
  obtain ⟨e, hexec, he⟩ := List.map_eq_singleton_iff.1 hu
  obtain ⟨i, hcall, hi⟩ := Option.bind_eq_some_iff.1 (Prod.mk.inj he).2
  refine ⟨u, later, e, i, rfl, hlater, hexec ▸ List.mem_singleton_self e, hcall, ?_⟩
  cases ho : (i.result e.ext).2 with
  | deferred c' =>
    rw [ho] at hi
    cases hi
    rfl
  | _ =>
    rw [ho] at hi
    cases hi

end Outing

namespace World

open Outing

/-- A script that asks and waits. -/
def interview : Graph :=
  Graph.empty.run
    [.create { Block.detached "ask" (.sensing .askAndWait) with
        inputs := Table.empty.insert "QUESTION" (.literal (.text "name?"))
        next := some ⟨1, 0⟩
        topLevel := true },
      .create { Block.detached "show" (.looks .show) with parent := some ⟨0, 0⟩ }]

/-- The script has been started. -/
def interviewWorld : World Unit :=
  (((blank .standard ()).addSprite "Cat" interview).1.pushThread 0 ⟨0, 0⟩).1

theorem reachable_interviewWorld : interviewWorld.Reachable ∧ interviewWorld.ledger.Sound := by
  have hactor : FairDeed (blank .standard ()) ((blank .standard ()).addSprite "Cat" interview).1 :=
    ⟨.tend rfl rfl rfl rfl, SameHost.gives ⟨Nat.le_refl _, rfl⟩⟩
  have hthread : FairDeed ((blank .standard ()).addSprite "Cat" interview).1 interviewWorld :=
    ⟨.pushThread _ 0 ⟨0, 0⟩, SameHost.gives ⟨Nat.le_refl _, rfl⟩⟩
  exact ⟨((Reachable.blank Settings.standard ()).deed hactor.1).deed hthread.1,
    (hactor.passes.trans hthread.passes).sound (sound_blank _ _ _)⟩

/-- Answering a question lets nobody await anything. -/
theorem fairDeed_answerQuestion {σ : Type} (w : World σ) (answer : String) :
    FairDeed w (w.answerQuestion answer).1 := by
  have hdeliver : ∀ (w : World σ) c d,
      ∃ channels, (w.deliver c d).1 = { w with channels := channels } := by
    intro w c d
    unfold deliver
    split
    · exact ⟨_, rfl⟩
    · exact ⟨w.channels, rfl⟩
  unfold answerQuestion
  split
  · exact ⟨.tend rfl rfl rfl rfl, (SameHost.refl w).gives⟩
  · rename_i p rest _
    obtain ⟨channels, he⟩ := hdeliver { w with prompts := rest, answer := answer } p.channel
      (.resolved (.text answer))
    simp only [he]
    exact ⟨.tend rfl rfl rfl rfl, SameHost.gives ⟨Nat.le_refl _, rfl⟩⟩

theorem givesOnce_empty : Extensions.GivesOnce (.empty : Extensions Unit) :=
  fun _ _ hget => by cases hget

/-- The question is asked in the first step, and answered behind the second one. If the script is
stopped before that, the question still stands, but its answer is refused. -/
theorem stay_of_plays_interview : interviewWorld.Reachable ∧ interviewWorld.ledger.Sound ∧
    (∃ l w u later e i, Outing.Plays (· = .empty) interviewWorld l w ∧
      own 1 (l ++ Outing.ofStep .empty 9 w) = [] ++ u :: later ∧ e ∈ u.executions ∧
      e.call? = some i ∧ (i.result e.ext).2 = .deferred 0 ∧
      later.map acts = [[], [([1], none)]] ∧
      ∃ stay rest, later = stay ++ rest ∧
        Stay ((i.result e.ext).1.thread.waiting 0) 0 stay rest) ∧
    ∃ l w u e i, Outing.Plays (· = .empty) interviewWorld l w ∧
      own 1 (l ++ Outing.ofStep .empty 9 w) = [] ++ u :: [] ∧ u ∈ l ∧ e ∈ u.executions ∧
      e.call? = some i ∧ (i.result e.ext).2 = .deferred 0 ∧ w.ledger.Forsakes 0 1 ∧
      w.prompts.map (·.channel) = [0] ∧ w.Refuses 0 := by
  have hshape : (interviewWorld.step .empty 9).bind (fun p => (p.1.step .empty 9).map fun q =>
      (own 1 (Outing.ofStep .empty 9 interviewWorld ++ (Outing.ofStep .empty 9 p.1 ++ []) ++
        Outing.ofStep .empty 9 (q.1.answerQuestion "Ada").1)).map acts) =
      some [[([0], some 0)], [], [([1], none)]] := by
    decide +kernel
  have hstopped : (interviewWorld.step .empty 9).map (fun p =>
      let w := p.1.stopActor 0 none
      ((own 1 (Outing.ofStep .empty 9 interviewWorld ++ [] ++ Outing.ofStep .empty 9 w)).map acts,
        (Outing.ofStep .empty 9 w).isEmpty, (w.threads ++ w.spawned).isEmpty,
        w.prompts.map (·.channel))) =
      some ([[([0], some 0)]], true, true, [0]) := by
    decide +kernel
  obtain ⟨⟨w₁, _⟩, h₁, hshape⟩ := Option.bind_eq_some_iff.1 hshape
  obtain ⟨⟨w₂, _⟩, h₂, hshape⟩ := Option.map_eq_some_iff.1 hshape
  rw [h₁] at hstopped
  obtain ⟨hstopped, hnone, hthreads, hprompts⟩ :
      (own 1 (Outing.ofStep .empty 9 interviewWorld ++ [] ++
        Outing.ofStep .empty 9 (w₁.stopActor 0 none))).map acts = [[([0], some 0)]] ∧
      (Outing.ofStep .empty 9 (w₁.stopActor 0 none)).isEmpty = true ∧
      ((w₁.stopActor 0 none).threads ++ (w₁.stopActor 0 none).spawned).isEmpty = true ∧
      (w₁.stopActor 0 none).prompts.map (·.channel) = [0] := by
    simpa using hstopped
  refine ⟨reachable_interviewWorld.1, reachable_interviewWorld.2, ?_, ?_⟩
  · have hplays : Outing.Plays (· = .empty) interviewWorld
        (Outing.ofStep .empty 9 interviewWorld ++ (Outing.ofStep .empty 9 w₁ ++ []))
        (w₂.answerQuestion "Ada").1 :=
      .step rfl h₁ (.step rfl h₂ (.deed (fairDeed_answerQuestion w₂ "Ada") (.nil _)))
    obtain ⟨u, later, e, i, hrun, hlater, he, hcall, hc⟩ := exists_deferred hshape
    have hstay := stay_of_plays reachable_interviewWorld.1 reachable_interviewWorld.2 hplays
      (fun _ hp => hp ▸ ⟨orderly_empty, givesOnce_empty⟩) rfl 9
      (show own 1 _ = [] ++ u :: later from hrun) he hcall hc
    exact ⟨_, _, u, later, e, i, hplays, hrun, he, hcall, hc, hlater, hstay.2.2.1⟩
  · have hdeed : FairDeed w₁ (w₁.stopActor 0 none) :=
      ⟨.stopActor w₁ 0 none, (sameMail_stopActor w₁ 0 none).host.gives⟩
    have hplays : Outing.Plays (· = .empty) interviewWorld
        (Outing.ofStep .empty 9 interviewWorld ++ []) (w₁.stopActor 0 none) :=
      .step rfl h₁ (.deed hdeed (.nil _))
    obtain ⟨u, later, e, i, hrun, hlater, he, hcall, hc⟩ := exists_deferred hstopped
    cases List.map_eq_nil_iff.1 hlater
    have hu : u ∈ Outing.ofStep .empty 9 interviewWorld ++ [] := by
      have hown := (diary Unit).mem_own.1 (hrun ▸ List.mem_singleton_self u)
      simpa [List.isEmpty_iff.1 hnone] using hown.1
    have hforsakes : (w₁.stopActor 0 none).ledger.Forsakes 0 1 := by
      intro t ht
      rw [ledger, List.isEmpty_iff.1 hthreads] at ht
      cases ht
    have hstay := stay_of_plays reachable_interviewWorld.1 reachable_interviewWorld.2 hplays
      (fun _ hp => hp ▸ ⟨orderly_empty, givesOnce_empty⟩) rfl 9
      (show own 1 _ = [] ++ u :: [] from hrun) he hcall hc
    exact ⟨_, _, u, e, i, hplays, hrun, hu, he, hcall, hc, hforsakes, hprompts,
      (hstay.2.2.2.2 hu hforsakes [] _ .empty 9 (.nil _) rfl).1⟩

end World

end Stagecraft
