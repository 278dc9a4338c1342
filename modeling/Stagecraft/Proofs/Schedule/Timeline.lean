import Stagecraft.Proofs.Schedule.Diary

/-!
# What a thread executes, block by block

A run executes blocks of many threads. Those of one thread follow each other: a thread either goes
on in the same turn with what the block before left behind, or its turn was over. Then it rests,
until it executes its next block in a later turn. All that can happen to it in between is listed
here: it waits, a result comes for which it was parked, it starts over, or it ends.

* `Execution`, `Pass.visitExecutions` : the blocks that a turn executes, each with the scene before
  it;
* `Scene.executions_induction`, `Pass.visitExecutions_cases` : **induction on the blocks of a
  turn**, together with what the turn leads to;
* `Thread.Rests` : what happens to a thread between blocks of different turns;
* `Execution.Next` : one block after the other, of one thread;
* `Execution.chain_of_plays` : **in a run the blocks of a thread follow each other**.
-/

namespace Stagecraft

/-! ### Blocks of one thread -/

/-- A block that is about to be executed: by the thread of a scene, on its top frame. -/
structure Execution (σ : Type) where
  /-- The primitives of the host. -/
  ext : Extensions σ
  /-- The scheduler at that moment. -/
  scheduler : Scheduler
  /-- The program. -/
  graph : Graph
  /-- The scene at that moment. -/
  scene : Scene σ

namespace Thread

/-- One thing that happens to a thread between blocks of different turns. -/
inductive Rest (t : Thread) : Thread → Prop
  /-- Others have their turns, a pass begins, or the host does something. -/
  | waited {t' : Thread} : Waited t t' → Rest t t'
  /-- No warp time is running. -/
  | settled : Rest t { t with warpSince := none }
  /-- It is parked, and the scheduler looks whether its result has come. -/
  | woken {σ : Type} (k : Scheduler) (w : World σ) : t.status = .parked →
      Rest t (Pass.wake k w t).1.thread
  /-- Its actor is gone. -/
  | retired : Rest t t.retire
  /-- It has a turn and no block to execute. -/
  | ended : t.topBlock? = none → Rest t ({ t with status := .done } : Thread).atRest

/-- What happens to a thread between blocks of different turns. -/
def Rests : Thread → Thread → Prop := Relation.ReflTransGen Rest

variable {t t' t'' : Thread}

theorem Rests.refl (t : Thread) : Rests t t := Relation.ReflTransGen.refl

theorem Rests.trans (h : Rests t t') (h' : Rests t' t'') : Rests t t'' :=
  Relation.ReflTransGen.trans h h'

theorem Rest.rests (h : Rest t t') : Rests t t' := .single h

end Thread

namespace Execution

open Thread

variable {σ : Type} (e e' : Execution σ)

/-- The thread that is about to execute the block. -/
def thread : Thread := e.scene.thread

/-- What the block leads to. -/
def after : Scheduler × Scene σ × Turn := e.scene.stepBlock e.ext e.graph e.scheduler

/-- It is the first block of a turn. -/
structure Begun : Prop where
  block : e.thread.topBlock?.isSome = true
  status : e.thread.status = .running ∨ e.thread.status = .yielded

/-- The turn is over after the block, and the thread has rested since. -/
inductive Leaves (t : Thread) : Prop
  | ends : e.after.2.2 = .ends → Rests e.after.2.1.thread.atRest t → Leaves t
  /-- Nothing was left to execute, which ends the thread. -/
  | empties : e.after.2.1.thread.topBlock? = none →
      Rests ({ e.after.2.1.thread with status := .done } : Thread).atRest t → Leaves t

/-- One block after the other, of one thread: in the same turn, or in a later one. -/
inductive Next : Prop
  | goesOn : e.after = (e'.scheduler, e'.scene, .goesOn) → e'.ext = e.ext → e'.graph = e.graph →
      e'.thread.topBlock?.isSome = true → Next
  | later : e.Leaves e'.thread → e'.Begun → Next

variable {e e'}

theorem Leaves.trans {t t' : Thread} (h : e.Leaves t) (h' : Rests t t') : e.Leaves t' := by
  cases h with
  | ends he hr => exact .ends he (hr.trans h')
  | empties he hr => exact .empties he (hr.trans h')

/-- The blocks that threads execute. -/
def diary (σ : Type) : Diary (Execution σ) where
  id e := e.thread.id
  Next := Next
  Rests := Rests
  Starts t e := Rests t e.thread ∧ e.Begun
  Leaves := Leaves
  waited h := (Rest.waited h).rests
  trans := Rests.trans
  starts h h' := h'.imp_left h.trans
  leaves := Leaves.trans
  next h h' := .later (h.trans h'.1) h'.2

end Execution

/-! ### The blocks of a turn -/

namespace Scene

open Execution Thread

variable {σ : Type} {ext : Extensions σ}

/-- The blocks that a turn executes. -/
def executions (ext : Extensions σ) (g : Graph) :
    Nat → Scheduler → Scene σ → List (Execution σ)
  | 0, _, _ => []
  | fuel + 1, k, s =>
    (s.thread.topBlock?.map fun _ => ⟨ext, k, g, s⟩).toList ++
      match s.stepBlock ext g k with
      | (_, _, .ends) => []
      | (k, s, .goesOn) => executions ext g fuel k s

/-- **Induction on the blocks of a turn**, with how the turn is over if its fuel suffices. -/
theorem executions_induction {g : Graph}
    {P : Scheduler → Scene σ → List (Execution σ) → Option (Scheduler × Scene σ) → Prop}
    (stuck : ∀ k s, P k s [] none)
    (empty : ∀ k s, s.thread.topBlock? = none →
      P k s [] (some (k, { s with thread := { s.thread with status := .done } })))
    (ends : ∀ {k k' s s'}, s.thread.topBlock?.isSome = true →
      s.stepBlock ext g k = (k', s', .ends) → P k s [⟨ext, k, g, s⟩] (some (k', s')))
    (goesOn : ∀ {k k' s s' l o}, s.thread.topBlock?.isSome = true →
      s.stepBlock ext g k = (k', s', .goesOn) → P k' s' l o → P k s (⟨ext, k, g, s⟩ :: l) o)
    (fuel : Nat) : ∀ k s, P k s (executions ext g fuel k s) (takeTurn ext g fuel k s) := by
  induction fuel with
  | zero => exact stuck
  | succ fuel ih =>
    intro k s
    rw [executions, takeTurn]
    cases ht : s.thread.topBlock? with
    | none =>
      have hstep : s.stepBlock ext g k =
          (k, { s with thread := { s.thread with status := .done } }, .ends) := by
        rw [stepBlock, ht]
      rw [hstep]
      exact empty k s ht
    | some top =>
      have hsome : s.thread.topBlock?.isSome = true := by rw [ht]; rfl
      rcases hstep : s.stepBlock ext g k with ⟨k₁, s₁, turn⟩
      cases turn with
      | ends => exact ends hsome hstep
      | goesOn => exact goesOn hsome hstep (ih k₁ s₁)

/-- The executions of a turn are those of its trace. -/
theorem map_executions (ext : Extensions σ) (g : Graph) (fuel : Nat) :
    ∀ (k : Scheduler) (s : Scene σ),
      (executions ext g fuel k s).map (·.thread.id) = trace ext g fuel k s := by
  induction fuel with
  | zero => exact fun _ _ => rfl
  | succ fuel ih =>
    intro k s
    rw [executions, trace, List.map_append]
    congr 1
    · cases s.thread.topBlock? <;> rfl
    · rcases s.stepBlock ext g k with ⟨k', s', turn⟩
      cases turn with
      | goesOn => exact ih k' s'
      | ends => rfl

/-- What is left of a thread that executes nothing. -/
def Spends (t t' : Thread) : Prop := t.topBlock? = none ∧ t' = { t with status := .done }

/-- How a turn leaves a thread behind its last block, if it executes one. -/
def Closes (t : Thread) : Option (Execution σ) → Thread → Prop
  | none, t' => Spends t t'
  | some e, t' =>
    e.after.2.2 = .ends ∧ t' = e.after.2.1.thread ∨ Spends e.after.2.1.thread t'

/-- What is executed in a turn. -/
structure Turns (ext : Extensions σ) (g : Graph) (k : Scheduler) (s : Scene σ)
    (l : List (Execution σ)) (o : Option (Scheduler × Scene σ)) : Prop where
  setting : ∀ e ∈ l, e.ext = ext ∧ e.graph = g
  first : ∀ e ∈ l.head?, e = ⟨ext, k, g, s⟩ ∧ e.thread.topBlock?.isSome = true
  chain : l.IsChain Next
  last : ∀ k' s', o = some (k', s') → Closes s.thread l.getLast? s'.thread

/-- **The blocks of a turn follow each other**, by induction on them. -/
theorem turns_executions (ext : Extensions σ) (g : Graph) (fuel : Nat) :
    ∀ (k : Scheduler) (s : Scene σ),
      Turns ext g k s (executions ext g fuel k s) (takeTurn ext g fuel k s) := by
  refine executions_induction (P := Turns ext g) (fun k s => ?stuck) (fun k s ht => ?empty)
    (fun hsome hstep => ?ends) (fun {k k₁ s s₁ l o} hsome hstep hrest => ?goesOn) fuel
  case stuck =>
    exact ⟨fun _ h => (by cases h), fun _ h => (by cases h), .nil, fun _ _ h => by cases h⟩
  case empty =>
    refine ⟨fun _ h => (by cases h), fun _ h => (by cases h), .nil, fun k' s' h => ?_⟩
    cases h
    exact ⟨ht, rfl⟩
  case ends =>
    refine ⟨fun e he => ?_, fun e he => ?_, .singleton _, fun k' s' h => ?_⟩
    · rw [List.mem_singleton.1 he]
      exact ⟨rfl, rfl⟩
    · cases he
      exact ⟨rfl, hsome⟩
    · cases h
      exact .inl ⟨congrArg (·.2.2) hstep, (congrArg (·.2.1.thread) hstep).symm⟩
  case goesOn =>
    refine ⟨fun e he => ?_, fun e he => ?_, ?_, fun k' s' h => ?_⟩
    · rcases List.mem_cons.1 he with rfl | he
      · exact ⟨rfl, rfl⟩
      · exact hrest.setting e he
    · cases he
      exact ⟨rfl, hsome⟩
    · refine List.isChain_cons.2 ⟨fun e he => ?_, hrest.chain⟩
      obtain ⟨rfl, hblock⟩ := hrest.first e he
      exact .goesOn hstep rfl rfl hblock
    · -- the last block is one of the rest, unless there is nothing left to execute
      have hlast := hrest.last k' s' h
      cases l with
      | nil =>
        have hthread : (Execution.after ⟨ext, k, g, s⟩).2.1.thread = s₁.thread :=
          congrArg (·.2.1.thread) hstep
        exact .inr (hthread ▸ hlast)
      | cons e rest => exact hlast

/-- A turn is over behind a block that ends it. -/
theorem takeTurn_of_ends (g : Graph) (fuel : Nat) : ∀ (k : Scheduler) (s : Scene σ),
    ∀ e ∈ executions ext g fuel k s, e.after.2.2 = .ends →
      (executions ext g fuel k s).getLast? = some e ∧
        takeTurn ext g fuel k s = some (e.after.1, e.after.2.1) := by
  refine executions_induction (P := fun _ _ l o => ∀ e ∈ l, e.after.2.2 = .ends →
    l.getLast? = some e ∧ o = some (e.after.1, e.after.2.1)) (fun _ _ _ he => by cases he)
    (fun _ _ _ _ he => by cases he) (fun _ hstep e he _ => ?_) (fun _ hstep ih e he hends => ?_)
    fuel
  · obtain rfl := List.mem_singleton.1 he
    exact ⟨rfl, congrArg (fun r => some (r.1, r.2.1)) hstep.symm⟩
  · rcases List.mem_cons.1 he with rfl | he
    · cases (congrArg (·.2.2) hstep).symm.trans hends
    · obtain ⟨hlast, hturn⟩ := ih e he hends
      exact ⟨by simp [List.getLast?_cons, hlast], hturn⟩

theorem Closes.since {t t' : Thread} {last : Option (Execution σ)} (h : Closes t last t') :
    (diary σ).Since t last t'.atRest := by
  cases last with
  | none =>
    obtain ⟨ht, rfl⟩ := h
    exact (Rest.ended ht).rests
  | some e =>
    rcases h with ⟨hends, rfl⟩ | ⟨hnone, rfl⟩
    · exact .ends hends (.refl _)
    · exact .empties hnone (.refl _)

/-- What is told of the scenes of a turn, from one to the next. -/
structure Unfolds (R : Scene σ → Scene σ → Prop) (s : Scene σ) (l : List (Execution σ))
    (o : Option (Scheduler × Scene σ)) : Prop where
  self : ∀ e ∈ l, R e.scene e.after.2.1
  first : ∀ e ∈ l, R s e.scene
  order : l.Pairwise fun a b => R a.after.2.1 b.scene
  whole : ∀ k s', o = some (k, s') → R s s'
  last : ∀ k s', o = some (k, s') → ∀ e ∈ l, R e.after.2.1 s'

/-- Nothing is executed. -/
theorem Unfolds.nil {R : Scene σ → Scene σ → Prop} {s : Scene σ} {o : Option (Scheduler × Scene σ)}
    (h : ∀ k s', o = some (k, s') → R s s') : Unfolds R s [] o :=
  ⟨fun _ he => (by cases he), fun _ he => (by cases he), .nil, h, fun _ _ _ _ he => by cases he⟩

/-- Something happens before the first block, and something when the turn is over. -/
theorem Unfolds.framed {R : Scene σ → Scene σ → Prop}
    (htrans : ∀ {s s' s''}, R s s' → R s' s'' → R s s'') {s₀ s : Scene σ} {l : List (Execution σ)}
    {o : Option (Scheduler × Scene σ)} {F : Scene σ → Scene σ} (h : Unfolds R s l o) (hR : R s₀ s)
    (hF : ∀ s, R s (F s)) : Unfolds R s₀ l (o.map fun r => (r.1, F r.2)) := by
  refine ⟨h.self, fun e he => htrans hR (h.first e he), h.order, fun k s' ho => ?_,
    fun k s' ho e he => ?_⟩
  all_goals
    obtain ⟨r, rfl, heq⟩ := Option.map_eq_some_iff.1 ho
    cases heq
  · exact htrans hR (htrans (h.whole r.1 r.2 rfl) (hF _))
  · exact htrans (h.last r.1 r.2 rfl e he) (hF _)

/-- What is told of every block is told of a turn, by induction on its blocks. -/
theorem unfolds_executions {g : Graph} {R : Scene σ → Scene σ → Prop} (hrefl : ∀ s, R s s)
    (htrans : ∀ {s s' s''}, R s s' → R s' s'' → R s s'')
    (hblock : ∀ k s, R s (s.stepBlock ext g k).2.1) (fuel : Nat) :
    ∀ (k : Scheduler) (s : Scene σ),
      Unfolds R s (executions ext g fuel k s) (takeTurn ext g fuel k s) := by
  have hstepped : ∀ {k k' s s' turn}, s.stepBlock ext g k = (k', s', turn) → R s s' := by
    intro k k' s s' turn hstep
    have hs := hblock k s
    rwa [hstep] at hs
  refine executions_induction (P := fun _ => Unfolds R) (fun k s => ?stuck) (fun k s ht => ?empty)
    (fun {k k₁ s s₁} _ hstep => ?ends) (fun {k k₁ s s₁ l o} _ hstep hrest => ?goesOn) fuel
  case stuck => exact .nil fun _ _ h => by cases h
  case empty =>
    refine .nil fun k' s' h => ?_
    cases h
    exact hstepped (k := k) (by rw [stepBlock, ht])
  case ends =>
    have hafter : (Execution.after ⟨ext, k, g, s⟩).2.1 = s₁ := congrArg (·.2.1) hstep
    refine ⟨fun e he => ?_, fun e he => ?_, List.pairwise_singleton _ _, fun k' s' h => ?_,
      fun k' s' h e he => ?_⟩
    · rw [List.mem_singleton.1 he]
      exact hblock k s
    · rw [List.mem_singleton.1 he]
      exact hrefl s
    · cases h
      exact hstepped hstep
    · cases h
      rw [List.mem_singleton.1 he, hafter]
      exact hrefl s₁
  case goesOn =>
    have hafter : (Execution.after ⟨ext, k, g, s⟩).2.1 = s₁ := congrArg (·.2.1) hstep
    refine ⟨List.forall_mem_cons.2 ⟨hblock k s, hrest.self⟩,
      List.forall_mem_cons.2 ⟨hrefl s, fun e he => htrans (hstepped hstep) (hrest.first e he)⟩,
      List.pairwise_cons.2 ⟨fun e he => ?_, hrest.order⟩,
      fun k' s' h => htrans (hstepped hstep) (hrest.whole k' s' h),
      fun k' s' h => List.forall_mem_cons.2 ⟨?_, hrest.last k' s' h⟩⟩
    · rw [hafter]
      exact hrest.first e he
    · rw [hafter]
      exact hrest.whole k' s' h

end Scene

namespace Pass

open Execution Thread World

variable {σ : Type} {ext : Extensions σ}

/-! ### The blocks of a visit -/

/-- The blocks that a thread executes when it may run. -/
def runExecutions (ext : Extensions σ) (fuel : Nat) (k : Scheduler) (w : World σ) (t : Thread) :
    List (Execution σ) :=
  match w.graph? t.actor with
  | none => []
  | some g => Scene.executions ext g fuel k ⟨onStage w t, t⟩

/-- The blocks that are executed in a visit. -/
def visitExecutions : Log σ (Execution σ) := fun ext fuel k w t =>
  match t.status with
  | .done => []
  | .yieldedTick => []
  | .running => runExecutions ext fuel k w t
  | .yielded => runExecutions ext fuel k w t
  | .parked =>
    match wake k w t with
    | (scene, true) => runExecutions ext fuel k scene.world scene.thread
    | (_, false) => []

/-- The blocks of a thread that may run, with what they lead to. -/
theorem runExecutions_cases {fuel : Nat} {k : Scheduler} {w : World σ} {t : Thread}
    {P : List (Execution σ) → Option (Scheduler × Scene σ) → Prop}
    (gone : P [] (some (k, ⟨w, t.retire⟩)))
    (turn : ∀ g, w.graph? t.actor = some g → P (Scene.executions ext g fuel k ⟨onStage w t, t⟩)
      ((Scene.takeTurn ext g fuel k ⟨onStage w t, t⟩).map fun r =>
        (r.1, ⟨{ r.2.world with current := none }, r.2.thread.atRest⟩))) :
    P (runExecutions ext fuel k w t) (letRun ext fuel k w t) := by
  unfold runExecutions
  cases hg : w.graph? t.actor with
  | none =>
    rw [letRun, hg]
    exact gone
  | some g =>
    rw [letRun_of_graph hg]
    exact turn g hg

/-- The blocks of a visit, with what it leads to. -/
theorem visitExecutions_cases {fuel : Nat} {k : Scheduler} {w : World σ} {t : Thread}
    {P : List (Execution σ) → Option (Scheduler × Scene σ) → Prop}
    (passed : P [] (some (k, ⟨w, t⟩)))
    (runs : t.status = .running ∨ t.status = .yielded →
      P (runExecutions ext fuel k w t) (letRun ext fuel k w t))
    (wakes : ∀ s, t.status = .parked → wake k w t = (s, true) →
      P (runExecutions ext fuel k s.world s.thread) (letRun ext fuel k s.world s.thread))
    (waits : ∀ s, t.status = .parked → wake k w t = (s, false) →
      P [] (some (k, { s with thread := { s.thread with warpSince := none } }))) :
    P (visitExecutions ext fuel k w t) (visit ext fuel k w t) := by
  unfold visitExecutions visit
  cases hst : t.status with
  | done | yieldedTick => exact passed
  | running => exact runs (.inl hst)
  | yielded => exact runs (.inr hst)
  | parked =>
    rcases hw : wake k w t with ⟨s, on⟩
    cases on with
    | true => exact wakes s hst hw
    | false => exact waits s hst hw

theorem visits_letRun (hext : ext.Orderly) (fuel : Nat) (k : Scheduler) (w : World σ) {t : Thread}
    (ht : t.status = .running ∨ t.status = .yielded) :
    (diary σ).Visits t (runExecutions ext fuel k w t) (letRun ext fuel k w t) := by
  refine runExecutions_cases (P := (diary σ).Visits t) ?gone fun g _ => ?turn
  case gone =>
    refine ⟨fun _ h => (by cases h), .nil, fun _ h => (by cases h), fun k' s h => ?_⟩
    cases h
    exact Rest.retired.rests
  case turn =>
    have hturns := Scene.turns_executions ext g fuel k ⟨onStage w t, t⟩
    refine ⟨fun e he => ?_, hturns.chain, fun e he => ?_, fun k' s h => ?_⟩
    · have hid : e.thread.id ∈ Scene.trace ext g fuel k ⟨onStage w t, t⟩ :=
        Scene.map_executions ext g fuel k _ ▸ List.mem_map.2 ⟨e, he, rfl⟩
      exact Scene.mem_trace hext g fuel _ _ _ hid
    · obtain ⟨rfl, hblock⟩ := hturns.first e he
      exact ⟨.refl t, hblock, ht⟩
    · obtain ⟨r, hr, he⟩ := Option.map_eq_some_iff.1 h
      cases he
      exact (hturns.last r.1 r.2 hr).since

/-- A visit is over behind a block that ends the turn, and the thread is at rest. -/
theorem visit_of_ends {fuel : Nat} {k : Scheduler} {w : World σ} {t : Thread} {e : Execution σ}
    (he : e ∈ visitExecutions ext fuel k w t) (hends : e.after.2.2 = .ends) :
    (visitExecutions ext fuel k w t).getLast? = some e ∧ visit ext fuel k w t =
      some (e.after.1,
        ⟨{ e.after.2.1.world with current := none }, e.after.2.1.thread.atRest⟩) := by
  have hrun : ∀ (w : World σ) (t : Thread), e ∈ runExecutions ext fuel k w t →
      (runExecutions ext fuel k w t).getLast? = some e ∧ letRun ext fuel k w t =
        some (e.after.1,
          ⟨{ e.after.2.1.world with current := none }, e.after.2.1.thread.atRest⟩) := by
    intro w t
    refine runExecutions_cases (P := fun l o => e ∈ l → l.getLast? = some e ∧ o = some (e.after.1,
      ⟨{ e.after.2.1.world with current := none }, e.after.2.1.thread.atRest⟩))
      (fun he => by cases he) fun g _ he => ?_
    obtain ⟨hlast, hturn⟩ := Scene.takeTurn_of_ends g fuel k _ e he hends
    rw [hturn]
    exact ⟨hlast, rfl⟩
  revert he
  exact visitExecutions_cases (P := fun l o => e ∈ l → l.getLast? = some e ∧ o = some (e.after.1,
    ⟨{ e.after.2.1.world with current := none }, e.after.2.1.thread.atRest⟩))
    (fun he => by cases he) (fun _ => hrun w t) (fun s _ _ => hrun s.world s.thread)
    (fun _ _ _ he => by cases he)

/-- The blocks of a visit have the primitives of the host that the visit has. -/
theorem ext_visitExecutions {fuel : Nat} {k : Scheduler} {w : World σ} {t : Thread} :
    ∀ e ∈ visitExecutions ext fuel k w t, e.ext = ext := by
  have hrun : ∀ (w : World σ) (t : Thread), ∀ e ∈ runExecutions ext fuel k w t, e.ext = ext :=
    fun w t => runExecutions_cases (P := fun l _ => ∀ e ∈ l, e.ext = ext) (fun _ he => by cases he)
      fun g _ e he => ((Scene.turns_executions ext g fuel k _).setting e he).1
  exact visitExecutions_cases (P := fun l _ => ∀ e ∈ l, e.ext = ext) (fun _ he => by cases he)
    (fun _ => hrun w t) (fun s _ _ => hrun s.world s.thread) (fun _ _ _ _ he => by cases he)

/-- A result that comes leaves a thread that is running or has ended. -/
theorem TakenIn.status {k : Scheduler} {w : World σ} {t : Thread}
    {slot : Slotting} {v : Value} {r : Thread × Bool} (h : TakenIn k w t v slot r) :
    (r.2 = true → r.1.status = .running) ∧ r.1.status ≠ .yielded := by
  have hawake : ∀ f : Frame → Frame, (t.awake.modifyTop f).status = .running :=
    t.awake.status_modifyTop
  cases h with
  | reporter => exact ⟨fun _ => hawake _, by simp [hawake]⟩
  | retired => exact ⟨fun hon => (by cases hon), by simp [Thread.retire]⟩
  | advanced _ ha hon =>
    have hadvanced := Scheduler.advanced_of_advance ha
    refine ⟨fun htrue => ?_, hadvanced.unyielding (by simp [hawake])⟩
    obtain rfl := eq_of_beq (hon.trans htrue)
    exact hadvanced.status.trans (hawake _)

theorem Woken.running {k : Scheduler} {w : World σ} {t : Thread} {s : Scene σ}
    (h : Woken k w t (s, true)) : s.thread.status = .running := by
  cases h with
  | free => rfl
  | takesIn _ _ htake => exact (takenIn_of_takeIn htake).status.1 rfl

/-- **What a thread lives through in a visit.** -/
theorem keeps_visitExecutions : (visitExecutions (σ := σ)).Keeps (diary σ) := by
  intro ext hext fuel k w t
  refine visitExecutions_cases (P := (diary σ).Visits t) ?passed (visits_letRun hext fuel k w)
    (fun s hst he => ?wakes) (fun s hst he => ?waits)
  case passed =>
    refine ⟨fun _ h => (by cases h), .nil, fun _ h => (by cases h), fun k' s h => ?_⟩
    cases h
    exact Rests.refl t
  case wakes =>
    have hwoken := (Rest.woken k w hst).rests
    rw [he] at hwoken
    have hrun := visits_letRun hext fuel k s.world (.inl (woken_of_wake he).running)
    refine ⟨fun e h => (hrun.ids e h).trans (woken_of_wake he).conserves.id, hrun.chain,
      fun e h => (diary σ).starts hwoken (hrun.first e h), fun k' s' h => ?_⟩
    have hlast := hrun.last k' s' h
    revert hlast
    cases (runExecutions ext fuel k s.world s.thread).getLast? with
    | none => exact hwoken.trans
    | some e => exact id
  case waits =>
    have hwoken := (Rest.woken k w hst).rests
    rw [he] at hwoken
    refine ⟨fun _ h => (by cases h), .nil, fun _ h => (by cases h), fun k' s' h => ?_⟩
    cases h
    exact hwoken.trans Rest.settled.rests

end Pass

/-! ### The blocks of a run -/

namespace Execution

open World

variable {σ : Type} {ext : Extensions σ} {w w' : World σ} {l : List (Execution σ)}
  {P : Extensions σ → Prop}

/-- The blocks that a run executes. -/
abbrev Plays (P : Extensions σ → Prop) : World σ → List (Execution σ) → World σ → Prop :=
  World.Recounts Pass.visitExecutions World.Deed P

/-- The blocks that a step executes. -/
abbrev ofStep (ext : Extensions σ) (fuel : Nat) (w : World σ) : List (Execution σ) :=
  Pass.visitExecutions.step ext fuel w

/-- The blocks of one thread among others. -/
abbrev own (id : ThreadId) (l : List (Execution σ)) : List (Execution σ) := (diary σ).own id l

/-- **In a run the blocks of a thread follow each other**, also in a step that has not come to its
end. -/
theorem chain_of_plays (hw : w.Reachable) (h : Plays P w l w') (hP : ∀ ext, P ext → ext.Orderly)
    (hext : P ext) (fuel : Nat) (id : ThreadId) :
    (own id (l ++ ofStep ext fuel w')).IsChain Next :=
  Diary.chain_of_recounts Pass.keeps_visitExecutions hw h hP hext fuel id

end Execution

end Stagecraft
