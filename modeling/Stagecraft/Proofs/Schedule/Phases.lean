import Stagecraft.Schedule.Pass

/-!
# The phases of a pass

What the scheduler does with a thread depends on what it finds: whether something was asked of the
thread, whether its block has a successor, whether its result has come. Here each of these choices
is taken apart once. A relation has one constructor for every way in which a phase comes out, and
loops have a principle of induction, so that what is proved about a pass splits its cases along what
happens.

* `Scheduler.Advanced` : a thread moves past its block;
* `Scene.gather_induction`, `Scene.report_induction` : inputs and reporters are evaluated;
* `Scene.Obeyed`, `Scene.Proceeded`, `Scene.Stepped` : a thread gets past a block that was executed;
* `Scene.takeTurn_induction` : **induction on the blocks of a turn**;
* `Pass.Woken`, `Pass.Performed`, `Pass.Visited` : a thread has its turn;
* `Pass.visitAll_induction`, `Pass.rounds_induction` : **induction on the turns of a pass**.
-/

namespace Stagecraft

namespace Thread

/-- A thread whose result has come. -/
def awake (t : Thread) : Thread := { t with pending := none, status := .running }

/-- A thread whose turn is over: it starts over if it was asked to. -/
def atRest (t : Thread) : Thread :=
  { (if t.restarting then t.restart else t) with warpSince := none }

/-- Who is in the lists after a thread has taken a place was in them, or is that thread. -/
theorem mem_set {l m : List Thread} {i : Nat} {t u : Thread} (h : u ∈ l.set i t ++ m) :
    u ∈ l ++ m ∨ u = t := by
  rcases List.mem_append.1 h with h | h
  · exact (List.mem_or_eq_of_mem_set h).imp_left (List.mem_append_left _)
  · exact .inl (List.mem_append_right _ h)

end Thread

/-! ### Leaving a block -/

theorem Frame.suffix_tail {f : Frame} {rest stack : List Frame} (h : f :: rest <:+ stack) :
    rest <:+ stack.tail := by
  obtain ⟨above, rfl⟩ := h
  cases above with
  | nil => exact List.suffix_refl rest
  | cons _ above => exact ⟨above ++ [f], by simp⟩

namespace Scheduler

/-- How a thread moves past its top block. -/
inductive Advanced (k : Scheduler) (now : Span) (g : Graph) (t : Thread) : Thread × Turn → Prop
  /-- It stands on no block. -/
  | empty : t.stack = [] → Advanced k now g t (t, .goesOn)
  /-- Its block has a successor, or the block of a frame below does. -/
  | next {f : Frame} {rest : List Frame} {n : Handle} : f :: rest <:+ t.stack →
      g.next? f.block = some n →
      Advanced k now g t ({ t with stack := f.reuse n :: rest }, .goesOn)
  /-- It is back at a loop below. -/
  | loop {f : Frame} {rest : List Frame} {turn : Turn} : f :: rest <:+ t.stack.tail →
      f.isLoop = true → k.atLoop now { t with stack := f :: rest } f = turn →
      Advanced k now g t ({ t with stack := f :: rest }, turn)
  /-- Nothing is left to execute. -/
  | emptied : Advanced k now g t ({ t with stack := [], status := .done }, .ends)

theorem advanced_of_advance {k : Scheduler} {now : Span} {g : Graph} {t : Thread}
    {r : Thread × Turn} (h : k.advance now g t = r) : Advanced k now g t r := by
  subst h
  have hunwind : ∀ stack, stack <:+ t.stack.tail →
      Advanced k now g t (k.unwind now g t stack) := by
    intro stack
    induction stack with
    | nil => exact fun _ => .emptied
    | cons f rest ih =>
      intro h
      rw [unwind]
      split
      · rename_i hloop
        exact .loop h hloop rfl
      · split
        · rename_i hn
          exact .next (h.trans (List.tail_suffix _)) hn
        · exact ih ((List.suffix_cons f rest).trans h)
  unfold advance
  split
  · rename_i hs
    exact .empty hs
  · rename_i f rest hs
    split
    · rename_i hn
      exact .next (hs ▸ List.suffix_refl _) hn
    · exact hunwind rest (by rw [hs]; exact List.suffix_refl _)

end Scheduler

/-! ### Executing a block -/

namespace Scene

variable {σ : Type} {ext : Extensions σ}

/-- **Induction on inputs**: something holds of evaluating them if it holds once they all have
values or a reporter among them stops the evaluation, and comes to hold when a reporter is evaluated
before the others. -/
theorem gather_induction {P : Scene σ → Scene σ × Evaluation Args → Prop}
    {report : Handle → Scene σ → Scene σ × Evaluation Value}
    (value : ∀ s args, P s (s, .value args))
    (parked : ∀ h s, (report h s).2 = .parked → P s ((report h s).1, .parked))
    (failed : ∀ h s fault, (report h s).2 = .failed fault → P s ((report h s).1, .failed fault))
    (goesOn : ∀ h s v r, (report h s).2 = .value v → P (report h s).1 r → P s r)
    (inputs : List (String × Input)) :
    ∀ (done : List (String × Value)) (s : Scene σ), P s (gather report inputs done s) := by
  induction inputs with
  | nil => exact fun _ s => value s _
  | cons e rest ih =>
    intro done s
    obtain ⟨name, input⟩ := e
    cases input with
    | literal v => exact ih _ s
    | branch h => exact ih _ s
    | reporter h =>
      rw [gather]
      rcases he : report h s with ⟨s', r⟩
      have hs : (report h s).1 = s' := congrArg Prod.fst he
      have hr : (report h s).2 = r := congrArg Prod.snd he
      subst hs
      cases r with
      | value v => exact goesOn h s v _ hr (ih _ _)
      | parked => exact parked h s hr
      | failed fault => exact failed h s fault hr

/-- **Induction on reporters**: something holds of each if it holds of those whose values need not
be evaluated, of those that are nested too deep, and of those that are run on their inputs if it
holds of the reporters in these. -/
theorem report_induction {P : Scene σ → Scene σ × Evaluation Value → Prop} {site : Site}
    (value : ∀ s v, P s (s, .value v)) (failed : ∀ s fault, P s (s, .failed fault))
    (nested : ∀ {eval : Handle → Scene σ → Scene σ × Evaluation Value}, (∀ h s, P s (eval h s)) →
      ∀ (h : Handle) (b : Block) (s : Scene σ),
        P s (settle ext site h b.opcode (gather eval b.inputs.entries [] s))) (room : Nat) :
    ∀ (h : Handle) (s : Scene σ), P s (report ext site room h s) := by
  induction room with
  | zero =>
    intro h s
    unfold report
    split
    · exact value s _
    · split
      · exact value s _
      · split
        · exact value s _
        · exact failed s _
  | succ room ih =>
    intro h s
    unfold report
    split
    · exact value s _
    · split
      · exact value s _
      · split
        · exact value s _
        · exact nested ih h _ s

/-- What the outcome of a command does: the thread is parked, or its frame forgets its reporters and
a value that counts is noted. -/
theorem finish_cases {P : Scene σ → Prop} {site : Site} {r : Scene σ × Outcome}
    (deferred : ∀ channel, r.2 = .deferred channel → P (r.1.park channel .command))
    (forgets : P (r.1.forget site.frame))
    (reports : ∀ v, P (r.1.forget site.frame) →
      P { r.1.forget site.frame with
          thread := { (r.1.forget site.frame).thread with reported := some v } }) :
    P (finish site r).1 := by
  obtain ⟨s, o⟩ := r
  cases o with
  | deferred channel => exact deferred channel rfl
  | done => exact forgets
  | failed fault => exact forgets
  | value v =>
    rw [finish]
    simp only
    split
    · exact reports v forgets
    · exact forgets

/-! ### Getting past a block -/

/-- The scene in which a block is executed: time has passed, and the warp time of the thread is
running if it is in a warp frame. -/
def entered (s : Scene σ) : Scene σ := ⟨s.world.elapse, startWarp s.world.elapse.now s.thread⟩

/-- How a thread follows what was asked of it. -/
inductive Obeyed (s : Scene σ) : Scene σ × Bool → Prop
  /-- Nothing was asked. -/
  | unasked : (∀ c, s.world.current = some c → c.retire = false ∧ c.restart = false) →
      Obeyed s (s, false)
  /-- It was asked to end. -/
  | stopped {c : Current} : s.world.current = some c → c.retire = true →
      Obeyed s
        (⟨{ s.world with current := some { c with retire := false } }, s.thread.retire⟩, true)
  /-- It was asked to start over. -/
  | startsOver {c : Current} : s.world.current = some c → c.retire = false → c.restart = true →
      Obeyed s
        (⟨{ s.world with current := some { c with restart := false } },
          { s.thread with restarting := true }⟩, true)

theorem obeyed_of_obey {s : Scene σ} {r : Scene σ × Bool} (h : s.obey = r) : Obeyed s r := by
  subst h
  unfold obey
  split
  · rename_i hc
    exact .unasked fun c hc' => by cases hc.symm.trans hc'
  · rename_i c hc
    split
    · rename_i hretire
      exact .stopped hc hretire
    · rename_i hretire
      split
      · rename_i hrestart
        exact .startsOver hc (Bool.eq_false_iff.2 hretire) hrestart
      · rename_i hrestart
        refine .unasked fun c' hc' => ?_
        cases hc.symm.trans hc'
        exact ⟨Bool.eq_false_iff.2 hretire, Bool.eq_false_iff.2 hrestart⟩

theorem obey_fst_of_false {s s' : Scene σ} (h : s.obey = (s', false)) : s' = s := by
  cases obeyed_of_obey h
  rfl

/-- How a thread goes on after the block that was on top. -/
inductive Proceeded (k : Scheduler) (g : Graph) (top : Handle) (warp : Bool) (s : Scene σ) :
    Scene σ × Turn → Prop
  /-- It has yielded, which ends its turn except in warp. -/
  | yielded {turn : Turn} : s.thread.status = .yielded →
      (if warp && k.warpOk s.world.now { s.thread with status := .running } then Turn.goesOn
        else .ends) = turn →
      Proceeded k g top warp s ({ s with thread := { s.thread with status := .running } }, turn)
  /-- It sits out the pass, waits, or has ended. -/
  | held : s.thread.status = .yieldedTick ∨ s.thread.status = .parked ∨ s.thread.status = .done →
      Proceeded k g top warp s (s, .ends)
  /-- It has left its script. -/
  | empty : s.thread.status = .running → s.thread.stack = [] →
      Proceeded k g top warp s ({ s with thread := { s.thread with status := .done } }, .ends)
  /-- It still stands on the block, and moves past it. -/
  | moved {t : Thread} {turn : Turn} : s.thread.status = .running →
      s.thread.topBlock? = some top → k.advance s.world.now g s.thread = (t, turn) →
      Proceeded k g top warp s ({ s with thread := t }, turn)
  /-- It has come to another block. -/
  | elsewhere : s.thread.status = .running → s.thread.stack ≠ [] → s.thread.topBlock? ≠ some top →
      Proceeded k g top warp s (s, .goesOn)

theorem proceeded_of_proceed {k : Scheduler} {g : Graph} {top : Handle} {warp : Bool}
    {s : Scene σ} {r : Scene σ × Turn} (h : s.proceed k g top warp = r) :
    Proceeded k g top warp s r := by
  subst h
  unfold proceed
  cases hst : s.thread.status with
  | yielded => exact .yielded hst rfl
  | yieldedTick => exact .held (.inl hst)
  | parked => exact .held (.inr (.inl hst))
  | done => exact .held (.inr (.inr hst))
  | running =>
    simp only
    split
    · rename_i hempty
      exact .empty hst (List.isEmpty_iff.1 hempty)
    · rename_i hne
      split
      · rename_i htop
        exact .moved hst htop rfl
      · rename_i htop
        exact .elsewhere hst (fun hs => hne (List.isEmpty_iff.2 hs)) htop

/-- What becomes of a thread that executes its top block. -/
inductive Stepped (ext : Extensions σ) (g : Graph) (scheduler : Scheduler) (s : Scene σ) :
    Scheduler → Scene σ → Turn → Prop
  /-- There is no block, so the thread ends. -/
  | empty : s.thread.topBlock? = none →
      Stepped ext g scheduler s scheduler { s with thread := { s.thread with status := .done } }
        .ends
  /-- The block failed, so the thread ends. -/
  | failed {top : Handle} {s₁ : Scene σ} {f : Fault} (opcode : String) :
      s.thread.topBlock? = some top → s.entered.execute ext scheduler.countBlock g = (s₁, some f) →
      Stepped ext g scheduler s scheduler.countBlock (s₁.fault opcode f) .ends
  /-- Something was asked of the thread meanwhile. -/
  | obeyed {top : Handle} {s₁ s' : Scene σ} :
      s.thread.topBlock? = some top → s.entered.execute ext scheduler.countBlock g = (s₁, none) →
      s₁.obey = (s', true) → Stepped ext g scheduler s scheduler.countBlock s' .ends
  /-- The thread moves on from the block. -/
  | moved {top : Handle} {s₁ s' : Scene σ} {turn : Turn} :
      s.thread.topBlock? = some top → s.entered.execute ext scheduler.countBlock g = (s₁, none) →
      s₁.obey = (s₁, false) →
      s₁.proceed scheduler.countBlock g top (Scheduler.inWarp s.thread) = (s', turn) →
      Stepped ext g scheduler s scheduler.countBlock s' turn

/-- **These are all ways.** -/
theorem stepped_of_stepBlock {g : Graph} {scheduler scheduler' : Scheduler} {s s' : Scene σ}
    {turn : Turn} (h : s.stepBlock ext g scheduler = (scheduler', s', turn)) :
    Stepped ext g scheduler s scheduler' s' turn := by
  unfold stepBlock at h
  split at h
  · rename_i ht
    cases h
    exact .empty ht
  · rename_i top ht
    simp only at h
    split at h
    · rename_i hx
      cases h
      exact .failed _ ht hx
    · rename_i s₁ hx
      split at h
      · rename_i ho
        cases h
        exact .obeyed ht hx ho
      · rename_i ho
        cases obey_fst_of_false ho
        obtain ⟨rfl, hp⟩ := Prod.mk.inj h
        exact .moved ht hx ho hp

/-- **Induction on the blocks of a turn**: the last one ends it, and the ones before lead on. -/
theorem takeTurn_induction {g : Graph} {P : Scene σ → Scene σ → Prop}
    (ends : ∀ {k k' : Scheduler} {s s' : Scene σ}, Stepped ext g k s k' s' .ends → P s s')
    (goesOn : ∀ {k k' : Scheduler} {s s₁ s' : Scene σ}, Stepped ext g k s k' s₁ .goesOn → P s₁ s' →
      P s s') (fuel : Nat) :
    ∀ {k k' : Scheduler} {s s' : Scene σ}, takeTurn ext g fuel k s = some (k', s') → P s s' := by
  induction fuel with
  | zero =>
    intro _ _ _ _ h
    cases h
  | succ fuel ih =>
    intro k k' s s' h
    rw [takeTurn] at h
    split at h
    · rename_i he
      cases h
      exact ends (stepped_of_stepBlock he)
    · rename_i he
      exact goesOn (stepped_of_stepBlock he) (ih h)

end Scene

/-! ### A turn -/

namespace Pass

variable {σ : Type} {ext : Extensions σ} {fuel : Nat} {k k' : Scheduler} {w : World σ} {t : Thread}
  {s : Scene σ}

/-- What a result does that has come. -/
inductive TakenIn (k : Scheduler) (w : World σ) (t : Thread) (v : Value) :
    Slotting → Thread × Bool → Prop
  /-- It is the value of a reporter. -/
  | reporter (h : Handle) : TakenIn k w t v (.reporter h)
      (t.awake.modifyTop fun f => { f with reported := f.reported.insert h v }, true)
  /-- The program is gone. -/
  | retired : w.graph? t.actor = none → TakenIn k w t v .command (t.retire, false)
  /-- It ends the top block. -/
  | advanced {g : Graph} {t' : Thread} {turn : Turn} {on : Bool} : w.graph? t.actor = some g →
      k.advance w.now g (t.awake.modifyTop fun f => { f with reported := .empty }) = (t', turn) →
      (turn == .goesOn) = on → TakenIn k w t v .command (t', on)

theorem takenIn_of_takeIn {slot : Slotting} {v : Value} {r : Thread × Bool}
    (h : takeIn k w t slot v = r) : TakenIn k w t v slot r := by
  subst h
  unfold takeIn
  cases slot with
  | reporter h => exact .reporter h
  | command =>
    simp only
    split
    · rename_i hg
      exact .retired hg
    · rename_i g hg
      exact .advanced hg rfl rfl

theorem exists_poll (w : World σ) (channel : Nat) :
    ∃ channels, (w.poll channel).1 = { w with channels := channels } := by
  unfold World.poll
  split
  · exact ⟨_, rfl⟩
  · exact ⟨w.channels, rfl⟩

/-- What comes of looking whether a parked thread can go on. -/
inductive Woken (k : Scheduler) (w : World σ) (t : Thread) : Scene σ × Bool → Prop
  /-- It waits for nothing. -/
  | free : t.pending = none → Woken k w t (⟨w, { t with status := .running }⟩, true)
  /-- Its result has not come. -/
  | waits {p : Pending} {channels : Table Nat Channel} : t.pending = some p →
      w.poll p.channel = ({ w with channels := channels }, none) →
      Woken k w t (⟨{ w with channels := channels }, t⟩, false)
  /-- Its result has come. -/
  | takesIn {p : Pending} {channels : Table Nat Channel} {v : Value} {t' : Thread} {on : Bool} :
      t.pending = some p →
      w.poll p.channel = ({ w with channels := channels }, some (.resolved v)) →
      takeIn k { w with channels := channels } t p.slot v = (t', on) →
      Woken k w t (⟨{ w with channels := channels }, t'⟩, on)
  /-- Its result was refused. -/
  | refused {p : Pending} {channels : Table Nat Channel} {reason : String} :
      t.pending = some p →
      w.poll p.channel = ({ w with channels := channels }, some (.rejected reason)) →
      Woken k w t (Scene.fault ⟨{ w with channels := channels }, t⟩
        (standingOn { w with channels := channels } t) (.rejected reason), false)

theorem woken_of_wake {r : Scene σ × Bool} (h : wake k w t = r) : Woken k w t r := by
  subst h
  unfold wake
  split
  · rename_i hp
    exact .free hp
  · rename_i p hp
    obtain ⟨channels, hw⟩ := exists_poll w p.channel
    split
    all_goals
      rename_i hpoll
      rw [hpoll] at hw
      cases hw
    · exact .waits hp hpoll
    · exact .takesIn hp hpoll rfl
    · exact .refused hp hpoll

/-- The world as a thread finds it whose turn begins. -/
def onStage (w : World σ) (t : Thread) : World σ :=
  { w with current := some ⟨t.id, t.actor, t.top, false, false⟩ }

/-- A turn of a thread whose actor is there: it is on stage, and then it rests. -/
theorem letRun_of_graph {g : Graph} (hg : w.graph? t.actor = some g) : letRun ext fuel k w t =
      (Scene.takeTurn ext g fuel k ⟨onStage w t, t⟩).map fun r =>
        (r.1, ⟨{ r.2.world with current := none }, r.2.thread.atRest⟩) := by
  unfold letRun onStage
  simp only [hg]
  cases Scene.takeTurn ext g fuel k
    ⟨{ w with current := some ⟨t.id, t.actor, t.top, false, false⟩ }, t⟩ <;> rfl

/-- How a thread executes blocks. -/
inductive Performed (ext : Extensions σ) (fuel : Nat) (k : Scheduler) (w : World σ) (t : Thread) :
    Scheduler → Scene σ → Prop
  /-- Its actor is gone. -/
  | gone : w.graph? t.actor = none → Performed ext fuel k w t k ⟨w, t.retire⟩
  /-- It has been on stage. -/
  | turn {g : Graph} {k' : Scheduler} {s : Scene σ} : w.graph? t.actor = some g →
      Scene.takeTurn ext g fuel k ⟨onStage w t, t⟩ = some (k', s) →
      Performed ext fuel k w t k' ⟨{ s.world with current := none }, s.thread.atRest⟩

theorem performed_of_letRun (h : letRun ext fuel k w t = some (k', s)) :
    Performed ext fuel k w t k' s := by
  cases hg : w.graph? t.actor with
  | none =>
    rw [letRun, hg] at h
    cases h
    exact .gone hg
  | some g =>
    rw [letRun_of_graph hg] at h
    obtain ⟨r, hturn, he⟩ := Option.map_eq_some_iff.1 h
    cases he
    exact .turn hg hturn

/-- How a visit goes. -/
inductive Visited (ext : Extensions σ) (fuel : Nat) (k : Scheduler) (w : World σ) (t : Thread) :
    Scheduler → Scene σ → Prop
  /-- The thread has ended, or it sits out the pass. -/
  | passed : t.status = .done ∨ t.status = .yieldedTick → Visited ext fuel k w t k ⟨w, t⟩
  /-- It executes blocks. -/
  | runs {k' : Scheduler} {s : Scene σ} : t.status = .running ∨ t.status = .yielded →
      letRun ext fuel k w t = some (k', s) → Visited ext fuel k w t k' s
  /-- It is parked, and goes on. -/
  | wakes {k' : Scheduler} {s s' : Scene σ} : t.status = .parked → wake k w t = (s, true) →
      letRun ext fuel k s.world s.thread = some (k', s') → Visited ext fuel k w t k' s'
  /-- It is parked, and does not go on. -/
  | waits {s : Scene σ} : t.status = .parked → wake k w t = (s, false) →
      Visited ext fuel k w t k { s with thread := { s.thread with warpSince := none } }

theorem visited_of_visit (h : visit ext fuel k w t = some (k', s)) :
    Visited ext fuel k w t k' s := by
  unfold visit at h
  cases hst : t.status with
  | done =>
    rw [hst] at h
    cases h
    exact .passed (.inl hst)
  | yieldedTick =>
    rw [hst] at h
    cases h
    exact .passed (.inr hst)
  | running =>
    rw [hst] at h
    exact .runs (.inl hst) h
  | yielded =>
    rw [hst] at h
    exact .runs (.inr hst) h
  | parked =>
    rw [hst] at h
    simp only at h
    split at h
    · rename_i he
      exact .wakes hst he h
    · rename_i he
      cases h
      exact .waits hst he

/-- The turn at a place: nobody has it, or the thread leaves the list for a visit and is back in its
place afterwards. -/
theorem visitAt_cases {p p' : Pass σ} {i : Nat} (h : visitAt ext fuel p i = some p') :
    p.world.threads[i]? = none ∧ p' = p ∨
      ∃ t k s, p.world.threads[i]? = some t ∧
        visit ext fuel p.scheduler { p.world with threads := p.world.threads.set i .absent } t =
          some (k, s) ∧
        p' = ⟨k, { s.world with threads := s.world.threads.set i s.thread }⟩ := by
  unfold visitAt at h
  cases ht : p.world.threads[i]? with
  | none =>
    rw [ht] at h
    cases h
    exact .inl ⟨rfl, rfl⟩
  | some t =>
    rw [ht] at h
    obtain ⟨⟨k, s⟩, hv, rfl⟩ := Option.map_eq_some_iff.1 h
    exact .inr ⟨t, k, s, rfl, hv, rfl⟩

/-! ### A pass -/

/-- **What turns and the passing of time keep, the turns of a round keep**, by induction on them. -/
theorem visitAll_induction {P : World σ → Prop}
    (visit : ∀ {p p' : Pass σ} {i : Nat}, P p.world → visitAt ext fuel p i = some p' → P p'.world)
    (elapse : ∀ {w : World σ}, P w → P w.elapse) (places : List Nat) :
    ∀ {p p' : Pass σ} {exhausted : Bool}, P p.world →
      visitAll ext fuel places p = some (p', exhausted) → P p'.world := by
  induction places with
  | nil =>
    intro p p' exhausted hp h
    cases h
    exact hp
  | cons i rest ih =>
    intro p p' exhausted hp h
    rw [visitAll] at h
    split at h
    · cases h
    · rename_i hv
      have hp₁ := elapse (visit hp hv)
      simp only at h
      split at h
      · cases h
        exact hp₁
      · exact ih hp₁ h

/-- **What is kept as well when ended threads leave the list, a pass keeps**, by induction on its
rounds. -/
theorem rounds_induction {P : List ThreadId → World σ → Prop}
    (visit : ∀ {finished : List ThreadId} {p p' : Pass σ} {i : Nat}, P finished p.world →
      visitAt ext fuel p i = some p' → P finished p'.world)
    (elapse : ∀ {finished : List ThreadId} {w : World σ}, P finished w → P finished w.elapse)
    (collect : ∀ {finished : List ThreadId} {p : Pass σ}, P finished p.world →
      P (p.collect finished).2 (p.collect finished).1.world) (rest : Nat) :
    ∀ {first : Nat} {p p' : Pass σ} {finished finished' : List ThreadId}, P finished p.world →
      rounds ext fuel rest first p finished = some (p', finished') → P finished' p'.world := by
  induction rest with
  | zero =>
    intro _ _ _ _ _ _ h
    cases h
  | succ rest ih =>
    intro first p p' finished finished' hp h
    rw [rounds] at h
    simp only at h
    split at h
    · cases h
    · rename_i p₁ exhausted hv
      have hround : P finished p₁.world := visitAll_induction visit elapse _
        (p := ⟨countRound p.scheduler, p.world⟩) hp hv
      have hc := collect hround
      split at h
      · exact ih (p := ⟨noteBudget _ exhausted, _⟩) hc h
      · cases h
        exact hc

end Pass

end Stagecraft
