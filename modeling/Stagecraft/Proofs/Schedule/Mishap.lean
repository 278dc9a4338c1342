import Stagecraft.Proofs.Schedule.Faults
import Stagecraft.Proofs.Schedule.Waiting

/-!
# A turn that ends in a fault

A turn ends in a fault when a block fails, be it the command or a reporter at any depth, or when the
result that a parked thread waits for is refused. The failure leaves a scene behind; handling it
records the fault and ends the thread, whatever else was asked of the thread meanwhile, and touches
nothing else.

* `Mishap` : what a failure leaves behind;
* `Scene.mishap?`, `Pass.visitAtMishap?` : the failure in which a turn ends, if it does;
* `Pass.visitAt_of_mishap` : **how a failure is handled**;
* `Pass.recorded_visitAt` : a turn records its failure, and nothing without one, as far as
  extensions leave the records alone.
-/

namespace Stagecraft

/-- The extensions leave the records of faults alone, and the actor of the running thread. -/
structure Extensions.Discreet {σ : Type} (ext : Extensions σ) : Prop where
  faults : ∀ {name : String} {handler : Extension σ}, ext.get? name = some handler →
    ∀ (site : Site) (args : Args) (s : Scene σ),
      (handler site args s).1.world.faults = s.world.faults
  actor : ∀ {name : String} {handler : Extension σ}, ext.get? name = some handler →
    ∀ (site : Site) (args : Args) (s : Scene σ),
      (handler site args s).1.thread.actor = s.thread.actor

/-- What a failure leaves behind: the scene, the name of the operation, and what went wrong. -/
structure Mishap (σ : Type) where
  /-- The world and the thread when it happened. -/
  scene : Scene σ
  /-- The operation on which the thread stood. -/
  opcode : String
  /-- What went wrong. -/
  fault : Fault

namespace Mishap

variable {σ : Type}

/-- What is recorded of a failure. -/
def record (m : Mishap σ) : FaultRecord :=
  ⟨m.scene.thread.id, m.scene.thread.actor, m.opcode, m.fault⟩

/-- The failure was handled: it is recorded and its thread has ended, and nothing else has changed,
but that the thread may have left the stage. -/
def Handled (m : Mishap σ) (s : Scene σ) : Prop :=
  s.thread = m.scene.thread.retire ∧
    ∃ stage, s.world = { m.scene.world.recordFault m.record with current := stage }

end Mishap

namespace Scene

variable {σ : Type} {ext : Extensions σ} {g : Graph} {k k' : Scheduler} {s s' s'' : Scene σ}

/-! ### Blocks -/

/-- The thread keeps its actor, and a failure is recorded if there is one, and nothing else. -/
structure Recorded (s s' : Scene σ) (m : Option (Mishap σ)) : Prop where
  actor : s'.thread.actor = s.thread.actor
  records : s'.world.faults.records = s.world.faults.records ++ (m.map Mishap.record).toList

namespace Recorded

theorem of_faults (ha : s'.thread.actor = s.thread.actor)
    (hf : s'.world.faults = s.world.faults) : Recorded s s' none :=
  ⟨ha, by rw [hf]; exact (List.append_nil _).symm⟩

theorem trans {m : Option (Mishap σ)} (h : Recorded s s' none) (h' : Recorded s' s'' m) :
    Recorded s s'' m := by
  refine ⟨h'.actor.trans h.actor, ?_⟩
  rw [h'.records, h.records, Option.map_none, Option.toList_none, List.append_nil]

end Recorded

theorem recorded_acts (hext : ext.Discreet) (h : Acts ext s s') : Recorded s s' none := by
  induction h with
  | refl => exact .of_faults rfl rfl
  | tail _ ha ih =>
    refine ih.trans ?_
    cases ha with
    | thread ht => exact .of_faults ht.actor rfl
    | world hw => exact .of_faults rfl hw.faults
    | extended site args hget =>
      exact .of_faults (hext.actor hget site args _) (hext.faults hget site args _)

theorem Obeyed.recorded {r : Scene σ × Bool} (h : Obeyed s r) : Recorded s r.1 none := by
  cases h <;> exact .of_faults rfl rfl

/-- The failure of the top block, if it fails. -/
def blockMishap? (ext : Extensions σ) (g : Graph) (k : Scheduler) (s : Scene σ) :
    Option (Mishap σ) :=
  s.thread.topBlock?.bind fun top =>
    let r := s.entered.execute ext k.countBlock g
    r.2.map fun fault => ⟨r.1, ((g.opcode? top).map Opcode.name).getD "", fault⟩

/-- A block that fails ends the turn. -/
theorem stepBlock_of_mishap {m : Mishap σ} (h : s.blockMishap? ext g k = some m) :
    s.stepBlock ext g k = (k.countBlock, m.scene.fault m.opcode m.fault, .ends) := by
  obtain ⟨top, htop, hr⟩ := Option.bind_eq_some_iff.1 h
  obtain ⟨fault, hfault, rfl⟩ := Option.map_eq_some_iff.1 hr
  have hexec : s.entered.execute ext k.countBlock g =
      ((s.entered.execute ext k.countBlock g).1, some fault) := Prod.ext rfl hfault
  unfold stepBlock
  rw [htop]
  simp only
  rw [show (⟨s.world.elapse, startWarp s.world.elapse.now s.thread⟩ : Scene σ) = s.entered from rfl,
    hexec]
  cases g.opcode? top <;> rfl

/-- A block records its failure, and nothing without one. -/
theorem recorded_stepBlock (hext : ext.Discreet) {turn : Turn}
    (h : s.stepBlock ext g k = (k', s', turn)) : Recorded s s' (s.blockMishap? ext g k) := by
  have hentered : Recorded s s.entered none := .of_faults s.entered_moved.actor rfl
  have hexec := hentered.trans (recorded_acts hext (acts_execute k.countBlock g s.entered))
  cases hm : s.blockMishap? ext g k with
  | some m =>
    rw [stepBlock_of_mishap hm] at h
    cases h
    obtain ⟨top, -, hr⟩ := Option.bind_eq_some_iff.1 hm
    obtain ⟨fault, -, rfl⟩ := Option.map_eq_some_iff.1 hr
    exact hexec.trans ⟨rfl, rfl⟩
  | none =>
    cases stepped_of_stepBlock h with
    | empty => exact .of_faults rfl rfl
    | failed opcode htop hx =>
      rw [blockMishap?, htop, Option.bind_some, hx] at hm
      cases hm
    | obeyed _ hx ho =>
      rw [hx] at hexec
      exact hexec.trans (obeyed_of_obey ho).recorded
    | moved _ hx _ hp =>
      rw [hx] at hexec
      obtain ⟨t, ht, rfl⟩ := (proceeded_of_proceed hp).moves
      exact hexec.trans (.of_faults ht.actor rfl)

/-! ### A turn -/

/-- The failure in which a thread that executes blocks ends its turn, if it does. -/
def mishap? (ext : Extensions σ) (g : Graph) : Nat → Scheduler → Scene σ → Option (Mishap σ)
  | 0, _, _ => none
  | fuel + 1, k, s =>
    match s.blockMishap? ext g k with
    | some m => some m
    | none =>
      match s.stepBlock ext g k with
      | (_, _, .ends) => none
      | (k, s, .goesOn) => mishap? ext g fuel k s

theorem takeTurn_of_mishap (fuel : Nat) : ∀ {k : Scheduler} {s : Scene σ} {m : Mishap σ},
    mishap? ext g fuel k s = some m →
      ∃ k', takeTurn ext g fuel k s = some (k', m.scene.fault m.opcode m.fault) := by
  induction fuel with
  | zero =>
    intro _ _ _ h
    cases h
  | succ fuel ih =>
    intro k s m h
    rw [mishap?] at h
    rw [takeTurn]
    cases hm : s.blockMishap? ext g k with
    | some m' =>
      rw [hm] at h
      cases h
      rw [stepBlock_of_mishap hm]
      exact ⟨_, rfl⟩
    | none =>
      rw [hm] at h
      obtain ⟨⟨k₁, s₁, turn⟩, hstep⟩ : ∃ r, s.stepBlock ext g k = r := ⟨_, rfl⟩
      rw [hstep] at h ⊢
      cases turn with
      | ends => cases h
      | goesOn => exact ih h

theorem recorded_takeTurn (hext : ext.Discreet) (fuel : Nat) :
    ∀ {k k' : Scheduler} {s s' : Scene σ}, takeTurn ext g fuel k s = some (k', s') →
      Recorded s s' (mishap? ext g fuel k s) := by
  induction fuel with
  | zero =>
    intro _ _ _ _ h
    cases h
  | succ fuel ih =>
    intro k k' s s' h
    rw [takeTurn] at h
    rw [mishap?]
    obtain ⟨⟨k₁, s₁, turn⟩, hstep⟩ : ∃ r, s.stepBlock ext g k = r := ⟨_, rfl⟩
    have hblock := recorded_stepBlock hext hstep
    cases hm : s.blockMishap? ext g k with
    | some m =>
      rw [stepBlock_of_mishap hm] at hstep h
      cases h
      cases hstep
      rw [hm] at hblock
      exact hblock
    | none =>
      rw [hm] at hblock
      rw [hstep] at h ⊢
      cases turn with
      | ends =>
        cases h
        exact hblock
      | goesOn => exact hblock.trans (ih h)

end Scene

namespace Pass

open World

variable {σ : Type} {ext : Extensions σ} {fuel : Nat} {k k' : Scheduler} {w : World σ}
  {t : Thread} {s : Scene σ} {m : Mishap σ}

/-! ### A visit -/

/-- The failure in which a thread ends its turn that is let run. -/
def runMishap? (ext : Extensions σ) (fuel : Nat) (k : Scheduler) (w : World σ) (t : Thread) :
    Option (Mishap σ) :=
  (w.graph? t.actor).bind fun g => Scene.mishap? ext g fuel k ⟨onStage w t, t⟩

/-- The failure of a parked thread whose result is refused. -/
def wakeMishap? (w : World σ) (t : Thread) : Option (Mishap σ) :=
  t.pending.bind fun p =>
    match w.poll p.channel with
    | (w, some (.rejected reason)) => some ⟨⟨w, t⟩, standingOn w t, .rejected reason⟩
    | _ => none

/-- The failure in which a visit ends, if it does. -/
def visitMishap? (ext : Extensions σ) (fuel : Nat) (k : Scheduler) (w : World σ) (t : Thread) :
    Option (Mishap σ) :=
  match t.status with
  | .done => none
  | .yieldedTick => none
  | .running => runMishap? ext fuel k w t
  | .yielded => runMishap? ext fuel k w t
  | .parked =>
    match wake k w t with
    | (scene, true) => runMishap? ext fuel k scene.world scene.thread
    | (_, false) => wakeMishap? w t

/-- The failure in which the turn at a place ends, if it does. -/
def visitAtMishap? (ext : Extensions σ) (fuel : Nat) (p : Pass σ) (i : Nat) : Option (Mishap σ) :=
  p.world.threads[i]?.bind fun t =>
    visitMishap? ext fuel p.scheduler { p.world with threads := p.world.threads.set i .absent } t

theorem letRun_of_mishap (h : runMishap? ext fuel k w t = some m) :
    ∃ k' s, letRun ext fuel k w t = some (k', s) ∧ m.Handled s := by
  obtain ⟨g, hg, hm⟩ := Option.bind_eq_some_iff.1 h
  obtain ⟨k', hturn⟩ := Scene.takeTurn_of_mishap fuel hm
  rw [letRun_of_graph hg, hturn]
  -- the thread has ended, so it does not start over
  exact ⟨k', _, rfl, rfl, none, rfl⟩

theorem wake_of_mishap (h : wakeMishap? w t = some m) :
    (wake k w t).2 = false ∧ m.Handled (wake k w t).1 := by
  obtain ⟨p, hp, hm⟩ := Option.bind_eq_some_iff.1 h
  unfold wake
  rw [hp]
  simp only
  split at hm
  · rename_i hpoll
    cases hm
    rw [hpoll]
    exact ⟨rfl, rfl, _, rfl⟩
  · cases hm

/-- **A visit that ends in a failure comes to its end, and the failure is handled.** -/
theorem visit_of_mishap (h : visitMishap? ext fuel k w t = some m) :
    ∃ k' s, visit ext fuel k w t = some (k', s) ∧ m.Handled s := by
  unfold visitMishap? at h
  unfold visit
  cases hst : t.status with
  | done | yieldedTick =>
    rw [hst] at h
    cases h
  | running | yielded =>
    rw [hst] at h
    exact letRun_of_mishap h
  | parked =>
    rw [hst] at h
    simp only at h ⊢
    obtain ⟨⟨scene, on⟩, hwake⟩ : ∃ r, wake k w t = r := ⟨_, rfl⟩
    rw [hwake] at h ⊢
    cases on with
    | true => exact letRun_of_mishap h
    | false =>
      obtain ⟨-, hthread, hworld⟩ := wake_of_mishap (k := k) h
      rw [hwake] at hthread hworld
      refine ⟨k, _, rfl, ?_, hworld⟩
      simp only at hthread ⊢
      rw [hthread]
      rfl

theorem Performed.recorded (hext : ext.Discreet) (h : Performed ext fuel k w t k' s) :
    Scene.Recorded ⟨w, t⟩ s (runMishap? ext fuel k w t) := by
  unfold runMishap?
  cases h with
  | gone hg =>
    rw [hg]
    exact .of_faults rfl rfl
  | turn hg hturn =>
    rw [hg]
    obtain ⟨hactor, hrecords⟩ := Scene.recorded_takeTurn hext fuel hturn
    exact ⟨(Thread.moved_atRest _).actor.trans hactor, hrecords⟩

theorem Woken.recorded {r : Scene σ × Bool} (h : Woken k w t r) :
    Scene.Recorded ⟨w, t⟩ r.1 (wakeMishap? w t) := by
  unfold wakeMishap?
  cases h with
  | free hp =>
    rw [hp]
    exact .of_faults rfl rfl
  | waits hp hpoll =>
    simp only [hp, Option.bind_some, hpoll]
    exact .of_faults rfl rfl
  | takesIn hp hpoll ht =>
    simp only [hp, Option.bind_some, hpoll]
    exact .of_faults (takenIn_of_takeIn ht).moved.actor rfl
  | refused hp hpoll =>
    simp only [hp, Option.bind_some, hpoll]
    exact ⟨rfl, rfl⟩

/-- A parked thread whose result is refused does not go on. -/
theorem wakeMishap?_of_on {scene : Scene σ} (h : wake k w t = (scene, true)) :
    wakeMishap? w t = none := by
  cases hm : wakeMishap? w t with
  | none => rfl
  | some m =>
    have hoff := (wake_of_mishap (k := k) hm).1
    rw [h] at hoff
    cases hoff

theorem recorded_visit (hext : ext.Discreet) (h : visit ext fuel k w t = some (k', s)) :
    Scene.Recorded ⟨w, t⟩ s (visitMishap? ext fuel k w t) := by
  unfold visitMishap?
  cases visited_of_visit h with
  | passed hst =>
    rcases hst with hst | hst
    all_goals
      rw [hst]
      exact .of_faults rfl rfl
  | runs hst hr =>
    rcases hst with hst | hst
    all_goals
      rw [hst]
      exact (performed_of_letRun hr).recorded hext
  | wakes hst hw hr =>
    have hrec := (woken_of_wake hw).recorded
    rw [wakeMishap?_of_on hw] at hrec
    simp only [hst, hw]
    exact hrec.trans ((performed_of_letRun hr).recorded hext)
  | waits hst hw =>
    have hrec := (woken_of_wake hw).recorded
    simp only [hst, hw]
    exact ⟨hrec.actor, hrec.records⟩

/-! ### A turn in the list -/

/-- **How a failure is handled.** The turn comes to its end. The failure is recorded with the id of
the thread and the actor that it has, and the thread has ended when it is back in its place.
Handling the failure does nothing else to the world that the failure left behind. -/
theorem visitAt_of_mishap (hext : ext.Orderly) {p : Pass σ} {i : Nat}
    (h : visitAtMishap? ext fuel p i = some m) :
    ∃ t p' stage, p.world.threads[i]? = some t ∧ visitAt ext fuel p i = some p' ∧
      m.record.thread = t.id ∧ (ext.Discreet → m.record.actor = t.actor) ∧
      p'.world = { m.scene.world.recordFault m.record with
        current := stage
        threads := m.scene.world.threads.set i m.scene.thread.retire } := by
  obtain ⟨t, ht, hm⟩ := Option.bind_eq_some_iff.1 h
  obtain ⟨k', s, hv, hthread, stage, hworld⟩ := visit_of_mishap hm
  have hid := (conserves_visit hext hv).id
  rw [hthread] at hid
  refine ⟨t, ⟨k', { s.world with threads := s.world.threads.set i s.thread }⟩, stage, ht, ?_, hid,
    fun hd => ?_, ?_⟩
  · unfold visitAt
    rw [ht]
    simp only [hv]
    rfl
  · have hactor := (recorded_visit hd hv).actor
    rwa [hthread] at hactor
  · rw [hthread, hworld]
    rfl

/-- **A turn records its failure, and nothing without one.** -/
theorem recorded_visitAt (hext : ext.Discreet) {p p' : Pass σ} {i : Nat}
    (h : visitAt ext fuel p i = some p') : p'.world.faults.records =
      p.world.faults.records ++ ((visitAtMishap? ext fuel p i).map Mishap.record).toList := by
  unfold visitAtMishap?
  obtain ⟨ht, rfl⟩ | ⟨t, k, s, ht, hv, rfl⟩ := visitAt_cases h
  · rw [ht]
    exact (List.append_nil _).symm
  · rw [ht]
    exact (recorded_visit hext hv).records

end Pass

end Stagecraft
