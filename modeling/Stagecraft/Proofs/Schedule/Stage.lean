import Stagecraft.Proofs.Cast.Same
import Stagecraft.Proofs.Schedule.Apart
import Stagecraft.Proofs.Schedule.Turns

/-!
# The thread on stage

A thread that has its turn is out of the list, and what is asked of it stands in `current`. So what
is asked of all threads in the lists says nothing about it, and it has to be seen that there is room
for it when it comes back: either it has ended, or nothing was done meanwhile that its script does
not go with. A thread that was asked to end makes no claim to room, and does end when its block is
over.

* `World.Seating` : what is asked of the lists, and the room that a script needs to be in them;
* `Scene.OnStage` : what holds of the thread on stage and the others while a block is executed;
* `Scene.OnStage.stepped` : a block keeps this, or the turn is over and there is room;
* `Pass.resting_visit`, `Pass.seated_rounds` : so do a visit and a pass;
* `World.Seating.step` : **so does a step**.
-/

namespace Stagecraft

namespace World

variable {σ : Type} {lists : World σ → Prop} {fits : World σ → ActorId × Option Handle → Prop}
  {w w' : World σ}

/-- The lists are in order, and there is room for the thread on stage unless it was asked to end. -/
structure Staged (lists : World σ → Prop) (fits : World σ → ActorId × Option Handle → Prop)
    (w : World σ) : Prop where
  lists : lists w
  fits : ∀ c, w.current = some c → c.retire = false → fits w c.script

/-- The lists are in order, and nobody is on stage. -/
structure Seated (lists : World σ → Prop) (w : World σ) : Prop where
  lists : lists w
  stage : w.current = none

/-- Something that is asked of the lists, and the room that a script needs to be in them. It
depends on the cast and on the threads that have not ended, every effect of a built-in primitive
keeps to it, and a thread finds room where it leaves the lists and may join them where it finds
room. -/
structure Seating (lists : World σ → Prop) (fits : World σ → ActorId × Option Handle → Prop) :
    Prop where
  thin : ∀ {w w' : World σ}, lists w → SameCast w w' →
    (w'.threads ++ w'.spawned).Sublist (w.threads ++ w.spawned) → lists w'
  subdued : ∀ {w w' : World σ}, lists w → SameCast w w' →
    List.Forall₂ Thread.Subdued (w.threads ++ w.spawned) (w'.threads ++ w'.spawned) → lists w'
  roomy : ∀ {w w' : World σ} {script : ActorId × Option Handle}, fits w script → SameCast w w' →
    w'.threads = w.threads → w'.spawned = w.spawned → fits w' script
  effect : ∀ {w w' : World σ}, Effect w w' → Staged lists fits w → Staged lists fits w'
  leave : ∀ {w : World σ} {i : Nat} {t : Thread}, lists w → w.threads[i]? = some t →
    lists { w with threads := w.threads.set i .absent } ∧
      (t.isDone = false → fits { w with threads := w.threads.set i .absent } t.script)
  join : ∀ {w : World σ} {t : Thread} (i : Nat), lists w → (t.isDone = false → fits w t.script) →
    lists { w with threads := w.threads.set i t }

namespace Seating

/-- Whatever leaves threads and cast alone. -/
theorem tend (hS : Seating lists fits) (hw : lists w) (hc : SameCast w w')
    (ht : w'.threads = w.threads) (hs : w'.spawned = w.spawned) : lists w' :=
  hS.thin hw hc (by rw [ht, hs])

end Seating

theorem Seated.staged (hw : Seated lists w) : Staged lists fits w :=
  ⟨hw.lists, fun c hc => by rw [hw.stage] at hc; cases hc⟩

theorem Seated.tend (hw : Seated lists w) (hS : Seating lists fits) (hcast : SameCast w w')
    (ht : w'.threads = w.threads) (hs : w'.spawned = w.spawned) (hc : w'.current = w.current) :
    Seated lists w' :=
  ⟨hS.tend hw.lists hcast ht hs, hc.trans hw.stage⟩

end World

/-! ### A turn -/

namespace Scene

open World

variable {σ : Type} {lists : World σ → Prop} {fits : World σ → ActorId × Option Handle → Prop}
  {s s' : Scene σ}

/-- The thread is on stage, and while it is not asked to end there is room for it. -/
structure OnStage (lists : World σ → Prop) (fits : World σ → ActorId × Option Handle → Prop)
    (s : Scene σ) : Prop where
  staged : Staged lists fits s.world
  stage : s.world.current.map (·.script) = some s.thread.script

/-- Nothing was asked of the thread that ends it. -/
def Unasked (s : Scene σ) : Prop := ∀ c, s.world.current = some c → c.retire = false

/-- The end of a turn: the thread has ended for good, or there is room for it. -/
structure Over (lists : World σ → Prop) (fits : World σ → ActorId × Option Handle → Prop)
    (s : Scene σ) : Prop where
  lists : lists s.world
  room : s.thread.isDone = false ∨ s.thread.restarting = true → fits s.world s.thread.script

theorem OnStage.room (h : OnStage lists fits s) (hu : Unasked s) :
    fits s.world s.thread.script := by
  obtain ⟨c, hc, he⟩ := Option.map_eq_some_iff.1 h.stage
  exact he ▸ h.staged.fits c hc (hu c hc)

theorem OnStage.over (h : OnStage lists fits s) (hu : Unasked s) : Over lists fits s :=
  ⟨h.staged.lists, fun _ => h.room hu⟩

/-- The thread goes on as the same script. -/
theorem OnStage.of_script (h : OnStage lists fits s) {t : Thread}
    (ht : t.script = s.thread.script) : OnStage lists fits { s with thread := t } :=
  ⟨h.staged, ht ▸ h.stage⟩

/-- Without extensions an act keeps the thread on stage. -/
theorem Acts.onStage (hS : Seating lists fits) (ha : Acts .empty s s')
    (h : OnStage lists fits s) : OnStage lists fits s' := by
  induction ha with
  | refl => exact h
  | tail _ hact ih =>
    cases hact with
    | thread ht => exact ih.of_script ht.script
    | world hw => exact ⟨hS.effect hw ih.staged, hw.keeps.stage.trans ih.stage⟩
    | extended site args hget =>
      rw [Table.get?_empty] at hget
      cases hget

/-- Following what was asked: the thread has ended, or there is room for it. -/
theorem OnStage.obeyed (hS : Seating lists fits) (h : OnStage lists fits s)
    (ho : Obeyed s (s', true)) : Over lists fits s' := by
  have hnote : ∀ c', lists { s.world with current := c' } := fun c' =>
    hS.tend h.staged.lists ⟨rfl, rfl, rfl, rfl, rfl, rfl, rfl⟩ rfl rfl
  cases ho with
  | stopped => exact ⟨hnote _, fun hor => by simp [Thread.retire, Thread.isDone] at hor⟩
  | @startsOver c hc hretire =>
    have hstage := h.stage
    rw [hc] at hstage
    have hscript : c.script = s.thread.script := Option.some.inj hstage
    have hroom : fits s.world s.thread.script := hscript ▸ h.staged.fits c hc hretire
    exact ⟨hnote _, fun _ => hS.roomy hroom ⟨rfl, rfl, rfl, rfl, rfl, rfl, rfl⟩ rfl rfl⟩

theorem unasked_of_obey (he : s.obey = (s', false)) : Unasked s := by
  cases obeyed_of_obey he with
  | unasked hnone => exact fun c hc => (hnone c hc).1

/-- **One block**: there is room for the thread, or its turn is over. -/
theorem OnStage.stepped (hS : Seating lists fits) (h : OnStage lists fits s) (hu : Unasked s)
    {g : Graph} {scheduler scheduler' : Scheduler} {turn : Turn}
    (hs : Stepped .empty g scheduler s scheduler' s' turn) :
    Over lists fits s' ∧ (turn = .goesOn → OnStage lists fits s' ∧ Unasked s') := by
  have helapse : SameCast s.world s.world.elapse := ⟨rfl, rfl, rfl, rfl, rfl, rfl, rfl⟩
  have hentered : OnStage lists fits s.entered := by
    refine OnStage.of_script (s := { s with world := s.world.elapse }) ?_ s.entered_moved.script
    exact ⟨⟨hS.tend h.staged.lists helapse rfl rfl, fun c hc hr =>
      hS.roomy (h.staged.fits c hc hr) helapse rfl rfl⟩, h.stage⟩
  have hexec := (acts_execute scheduler.countBlock g s.entered).onStage hS hentered
  cases hs with
  | empty =>
    exact ⟨⟨h.staged.lists, fun _ => h.room hu⟩, fun hturn => by cases hturn⟩
  | failed opcode _ hx =>
    rw [hx] at hexec
    -- a fault ends the thread whatever was asked of it
    refine ⟨⟨?_, fun hor => by simp [fault, Thread.retire, Thread.isDone] at hor⟩,
      fun hturn => by cases hturn⟩
    exact hS.tend hexec.staged.lists ⟨rfl, rfl, rfl, rfl, rfl, rfl, rfl⟩ rfl rfl
  | obeyed _ hx ho =>
    rw [hx] at hexec
    exact ⟨hexec.obeyed hS (obeyed_of_obey ho), fun hturn => by cases hturn⟩
  | moved _ hx ho hp =>
    rw [hx] at hexec
    obtain ⟨t, ht, rfl⟩ := (proceeded_of_proceed hp).moves
    have hstage := hexec.of_script ht.script
    have hun := unasked_of_obey ho
    exact ⟨hstage.over hun, fun _ => ⟨hstage, hun⟩⟩

/-- **A turn.** -/
theorem OnStage.takeTurn (hS : Seating lists fits) {g : Graph} {fuel : Nat} {k k' : Scheduler}
    (h : OnStage lists fits s) (hu : Unasked s)
    (he : Scene.takeTurn .empty g fuel k s = some (k', s')) : Over lists fits s' :=
  takeTurn_induction (P := fun s s' => OnStage lists fits s → Unasked s → Over lists fits s')
    (fun hs h hu => (h.stepped hS hu hs).1)
    (fun hs ih h hu =>
      have hnext := (h.stepped hS hu hs).2 rfl
      ih hnext.1 hnext.2) fuel he h hu

end Scene

/-! ### A pass -/

namespace Pass

open World Scene

variable {σ : Type} {lists : World σ → Prop} {fits : World σ → ActorId × Option Handle → Prop}
  {fuel : Nat} {k k' : Scheduler} {w : World σ} {t : Thread} {s : Scene σ}

/-- Nobody is on stage, and the thread may go there. -/
structure Clear (lists : World σ → Prop) (fits : World σ → ActorId × Option Handle → Prop)
    (s : Scene σ) : Prop where
  seated : Seated lists s.world
  room : fits s.world s.thread.script

/-- Nobody is on stage, and the thread may go there unless it has ended. -/
structure Resting (lists : World σ → Prop) (fits : World σ → ActorId × Option Handle → Prop)
    (s : Scene σ) : Prop where
  seated : Seated lists s.world
  room : s.thread.isDone = false → fits s.world s.thread.script

theorem Clear.resting {s : Scene σ} (h : Clear lists fits s) : Resting lists fits s :=
  ⟨h.seated, fun _ => h.room⟩

/-- Whatever leaves lists and cast alone, and the script of the thread. -/
theorem Clear.tend {s s' : Scene σ} (h : Clear lists fits s) (hS : Seating lists fits)
    (hcast : SameCast s.world s'.world) (ht : s'.world.threads = s.world.threads)
    (hs : s'.world.spawned = s.world.spawned) (hc : s'.world.current = s.world.current)
    (hscript : s'.thread.script = s.thread.script) : Clear lists fits s' := by
  refine ⟨h.seated.tend hS hcast ht hs hc, ?_⟩
  rw [hscript]
  exact hS.roomy h.room hcast ht hs

theorem Clear.performed (h : Clear lists fits ⟨w, t⟩) (hS : Seating lists fits)
    (hp : Performed .empty fuel k w t k' s) : Resting lists fits s := by
  cases hp with
  | gone => exact ⟨h.seated, fun hd => by cases hd⟩
  | @turn g k' s _ hturn =>
    have hcast : SameCast w (onStage w t) := ⟨rfl, rfl, rfl, rfl, rfl, rfl, rfl⟩
    have hstage : OnStage lists fits ⟨onStage w t, t⟩ :=
      ⟨⟨hS.tend h.seated.lists hcast rfl rfl, fun c hc _ => by
        cases hc
        exact hS.roomy h.room hcast rfl rfl⟩, rfl⟩
    have hover := hstage.takeTurn hS (fun c hc => by cases hc; rfl) hturn
    have hleave : SameCast s.world { s.world with current := none } :=
      ⟨rfl, rfl, rfl, rfl, rfl, rfl, rfl⟩
    refine ⟨⟨hS.tend hover.lists hleave rfl rfl, rfl⟩, fun hd => hS.roomy ?_ hleave rfl rfl⟩
    simp only [Thread.atRest] at hd ⊢
    -- a thread that starts over is alive again, so the turn must have left room for it
    split at hd
    · rename_i hr
      rw [if_pos hr]
      exact hover.room (Or.inr hr)
    · rename_i hr
      rw [if_neg hr]
      exact hover.room (Or.inl hd)

theorem Clear.woken (h : Clear lists fits ⟨w, t⟩) (hS : Seating lists fits) {r : Scene σ × Bool}
    (hw : Woken k w t r) : Clear lists fits r.1 := by
  cases hw with
  | free => exact h.tend hS (.refl w) rfl rfl rfl rfl
  | waits | refused =>
    exact h.tend hS ⟨rfl, rfl, rfl, rfl, rfl, rfl, rfl⟩ rfl rfl rfl rfl
  | takesIn _ _ ht =>
    exact h.tend hS ⟨rfl, rfl, rfl, rfl, rfl, rfl, rfl⟩ rfl rfl rfl
      (takenIn_of_takeIn ht).moved.script

/-- **A visit.** -/
theorem Resting.visit (h : Resting lists fits ⟨w, t⟩) (hS : Seating lists fits)
    (hv : Pass.visit .empty fuel k w t = some (k', s)) : Resting lists fits s := by
  cases visited_of_visit hv with
  | passed => exact h
  | runs hst hr =>
    have hroom := h.room (by rcases hst with hst | hst <;> simp [Thread.isDone, hst])
    exact Clear.performed ⟨h.seated, hroom⟩ hS (performed_of_letRun hr)
  | wakes hst hw hr =>
    have hclear : Clear lists fits ⟨w, t⟩ := ⟨h.seated, h.room (by simp [Thread.isDone, hst])⟩
    exact (hclear.woken hS (woken_of_wake hw)).performed hS (performed_of_letRun hr)
  | waits hst hw =>
    have hclear : Clear lists fits ⟨w, t⟩ := ⟨h.seated, h.room (by simp [Thread.isDone, hst])⟩
    have hwoken := hclear.woken hS (woken_of_wake hw)
    exact ⟨hwoken.seated, fun _ => hwoken.room⟩

/-- **A visit takes a thread out of the list and brings it back.** -/
theorem seated_visitAt (hS : Seating lists fits) {fuel i : Nat} {p p' : Pass σ}
    (hw : Seated lists p.world) (he : visitAt .empty fuel p i = some p') :
    Seated lists p'.world := by
  obtain ⟨-, rfl⟩ | ⟨t, k, s, ht, hv, rfl⟩ := visitAt_cases he
  · exact hw
  · obtain ⟨hout, hroom⟩ := hS.leave hw.lists ht
    have hback := Resting.visit ⟨⟨hout, hw.stage⟩, hroom⟩ hS hv
    exact ⟨hS.join i hback.seated.lists hback.room, hback.seated.stage⟩

/-- **A pass.** -/
theorem seated_rounds (hS : Seating lists fits) {turnFuel fuel first : Nat} {p p' : Pass σ}
    {finished finished' : List ThreadId} (hw : Seated lists p.world)
    (he : rounds .empty turnFuel fuel first p finished = some (p', finished')) :
    Seated lists p'.world :=
  rounds_induction (P := fun _ => Seated lists) (fun hw hv => seated_visitAt hS hw hv)
    (fun hw => hw.tend hS ⟨rfl, rfl, rfl, rfl, rfl, rfl, rfl⟩ rfl rfl rfl)
    (fun hw => ⟨hS.thin hw.lists ⟨rfl, rfl, rfl, rfl, rfl, rfl, rfl⟩
      (List.filter_sublist.append (List.Sublist.refl _)), hw.stage⟩) fuel hw he

end Pass

namespace World

variable {σ : Type} {lists : World σ → Prop} {fits : World σ → ActorId × Option Handle → Prop}
  {w w' : World σ}

/-- Effects keep to it also where nobody is on stage. -/
theorem Seated.effect (hw : Seated lists w) (hS : Seating lists fits) (h : Effect w w') :
    Seated lists w' := by
  refine ⟨(hS.effect h hw.staged).lists, ?_⟩
  have hstage := h.keeps.stage
  rwa [hw.stage, Option.map_none, Option.map_eq_none_iff] at hstage

theorem seated_dispatchEvents (hS : Seating lists fits) (hw : Seated lists w) :
    Seated lists w.dispatchEvents := by
  have hfold : ∀ (raised : List Event) {w : World σ}, Seated lists w →
      Seated lists (raised.foldl (fun w e => (w.raise e).1) w) := by
    intro raised
    induction raised with
    | nil => exact id
    | cons e rest ih => exact fun hw => ih (hw.effect hS (.startHats _ e.hat e.fields e.actor))
  exact hfold w.events.drain.2 (hw.tend hS ⟨rfl, rfl, rfl, rfl, rfl, rfl, rfl⟩ rfl rfl rfl)

/-- **A step.** -/
theorem Seating.step (hS : Seating lists fits) {fuel : Nat} {ended : List ThreadId}
    (hw : Seated lists w) (he : w.step .empty fuel = some (w', ended)) : Seated lists w' := by
  unfold World.step at he
  split at he
  · cases he
    exact hw
  · rename_i s _
    simp only [Pass.run] at he
    split at he
    · cases he
    · rename_i p finished hrun
      obtain ⟨⟨q, _⟩, hrounds, hq⟩ := Option.map_eq_some_iff.1 hrun
      cases hq
      cases he
      have hbegin : Seated lists (Pass.begin (s.configure w.settings)
          { w with scheduler := none }).world := by
        refine ⟨hS.subdued hw.lists ⟨rfl, rfl, rfl, rfl, rfl, rfl, rfl⟩
          (List.rel_append ?_ (subdued_refl _)), hw.stage⟩
        refine List.forall₂_map_right_iff.2 (List.forall₂_same.2 fun t _ => ?_)
        split
        · rename_i hst
          exact ⟨rfl, fun _ => by simp [Thread.isDone, hst]⟩
        · exact .refl t
      have hrest := Pass.seated_rounds hS hbegin hrounds
      have hfinish : Seated lists ({ q.finish.world with scheduler := some q.finish.scheduler } :
          World σ) := by
        refine ⟨hS.thin hrest.lists ⟨rfl, rfl, rfl, rfl, rfl, rfl, rfl⟩ ?_, hrest.stage⟩
        simp only [Pass.finish, List.append_nil]
        exact (List.Sublist.refl _).append List.filter_sublist
      exact (seated_dispatchEvents hS hfinish).tend hS ⟨rfl, rfl, rfl, rfl, rfl, rfl, rfl⟩
        rfl rfl rfl

end World

end Stagecraft
