import Stagecraft.Proofs.Pace.Evaluate
import Stagecraft.Proofs.Schedule.Warp

/-!
# The beats of a script

When a thread on its own executes a block and moves on from it, the timeless part of the scene that
it leaves is given by the one that it found: the yield of a call is taken back, and time only
decides whether the turn goes on. So there is a function from timeless scene to timeless scene, the
beat, and a turn consists of beats, whatever the clock shows.

* `Scene.alike_stepBlock` : **alike scenes are alike again after one block**;
* `Scene.Beats` : beats one after the other, until the thread ends;
* `Scene.Beats.unique` : **they lead to one end only**;
* `Scene.beats_takeTurn` : a turn consists of beats.
-/

namespace Stagecraft

/-! ### Moving on -/

namespace Scheduler

variable {g : Graph} {t t' : Thread} (s s' : Scheduler) (now now' : Span)

theorem timeless_unwind (h : t.timeless = t'.timeless) (stack : List Frame) :
    (s.unwind now g t stack).1.timeless = (s'.unwind now' g t' stack).1.timeless := by
  have hset : ∀ (stack : List Frame) (status : Status),
      ({ t.timeless with stack := stack, status := status } : Thread) =
        { t'.timeless with stack := stack, status := status } := fun _ _ => by rw [h]
  have hstack : ∀ stack : List Frame, ({ t.timeless with stack := stack } : Thread) =
      { t'.timeless with stack := stack } := fun _ => by rw [h]
  induction stack with
  | nil => exact hset _ _
  | cons f rest ih =>
    rw [unwind, unwind]
    split
    · exact hstack _
    · split
      · exact hstack _
      · exact ih

/-- Where a thread goes from a block does not depend on time. -/
theorem timeless_advance (h : t.timeless = t'.timeless) :
    (s.advance now g t).1.timeless = (s'.advance now' g t').1.timeless := by
  have hframes : t.stack = t'.stack := (congrArg Thread.stack h :)
  unfold advance
  rw [hframes]
  split
  · exact h
  · rename_i f rest _
    cases g.next? f.block with
    | some n => exact (congrArg (fun t : Thread => { t with stack := f.reuse n :: rest }) h :)
    | none => exact timeless_unwind s s' now now' h rest

end Scheduler

namespace Scene

variable {σ : Type} {c c' : Settings} {g : Graph} {top block : Handle} {s s' : Scene σ}
  {k k' : Scheduler}

theorem topBlock?_roused (s : Scene σ) : s.roused.thread.topBlock? = s.thread.topBlock? := by
  unfold roused Thread.roused
  split <;> rfl

/-- A yield that is taken back neither parks a thread nor wakes it. -/
theorem awake_roused (s : Scene σ) :
    (s.roused.thread.status ≠ .parked ∧ s.roused.thread.status ≠ .yieldedTick) ↔
      s.thread.status ≠ .parked ∧ s.thread.status ≠ .yieldedTick := by
  unfold roused Thread.roused
  split
  · rename_i hyielded
    simp [hyielded]
  · rfl

/-- After a call that has entered its procedure the thread takes back its yield. -/
theorem proceed_of_called {h : Handle} (ht : s.thread.topBlock? = some h) (hne : h ≠ block)
    (hawake : s.thread.status ≠ .parked ∧ s.thread.status ≠ .yieldedTick) (warp : Bool) :
    (s.proceed k g block warp).1 = s.roused := by
  unfold proceed roused Thread.roused
  cases hst : s.thread.status with
  | parked => exact absurd hst hawake.1
  | yieldedTick => exact absurd hst hawake.2
  | yielded => rfl
  | done => rfl
  | running =>
    have hstack : s.thread.stack.isEmpty = false := by
      cases hstack : s.thread.stack with
      | nil => simp [Thread.topBlock?, hstack] at ht
      | cons f rest => rfl
    have htop : s.thread.topBlock? ≠ some block := by
      rw [ht]
      exact fun he => hne (Option.some.inj he)
    simp [hstack, htop]

theorem alike_proceed_of_alike (h : Alike s s') (warp : Bool) :
    Alike (s.proceed k g block warp).1 (s'.proceed k' g block warp).1 := by
  have hstatus : ∀ status : Status,
      Alike { s with thread := { s.thread with status := status } }
        { s' with thread := { s'.thread with status := status } } := fun status =>
    h.map (F := fun s => { s with thread := { s.thread with status := status } }) fun _ => rfl
  unfold proceed
  rw [h.status, h.stack, h.topBlock?]
  split
  · exact hstatus .running
  · exact h
  · exact h
  · exact h
  · split
    · exact hstatus .done
    · split
      · exact .mk h.world (k.timeless_advance k' s.world.now s'.world.now h.thread)
      · exact h

/-- **Moving on from a block makes the scenes alike again.** -/
theorem alike_proceed (h : Nearly block s s')
    (hawake : s.thread.status ≠ .parked ∧ s.thread.status ≠ .yieldedTick) (warp : Bool) :
    Alike (s.proceed k g block warp).1 (s'.proceed k' g block warp).1 := by
  cases h with
  | alike h => exact alike_proceed_of_alike h warp
  | called ht hne h =>
    rename_i entered
    have ht' : s'.thread.topBlock? = some entered := by
      rw [← ht, ← topBlock?_roused s, ← topBlock?_roused s', h.topBlock?]
    have hawake' : s'.thread.status ≠ .parked ∧ s'.thread.status ≠ .yieldedTick := by
      rw [← awake_roused s', ← h.status]
      exact (awake_roused s).2 hawake
    rw [proceed_of_called ht hne hawake, proceed_of_called ht' hne hawake']
    exact h

theorem Lone.proceeded (h : Lone c g top s) {warp : Bool} {r : Scene σ × Turn}
    (hp : Proceeded k g block warp s r) : Lone c g top r.1 := by
  cases hp with
  | yielded | empty => exact h.goes (s.thread.goes_status (by decide) (by decide))
  | held | elsewhere => exact h
  | moved _ _ ha =>
    exact h.goes ((Scheduler.advanced_of_advance ha).goes (fun _ _ hw hn => hw.next hn) h.within)

/-- A thread whose turn goes on has not ended. -/
theorem live_of_proceed {warp : Bool} (h : s.proceed k g block warp = (s', .goesOn)) :
    s'.thread.isDone = false := by
  cases proceeded_of_proceed h with
  | yielded => rfl
  | moved hst _ ha => simp [Thread.isDone, (Scheduler.advanced_of_advance ha).status, hst]
  | elsewhere hst => simp [Thread.isDone, hst]

/-! ### One block -/

theorem timeless_entered (s : Scene σ) : s.entered.timeless = s.timeless := by
  refine Alike.mk rfl ?_
  unfold entered startWarp
  simp only
  split <;> rfl

theorem Poised.entered (h : Poised c g top s) : Poised c g top s.entered := by
  have helapsed : Poised c g top { s with world := s.world.elapse } :=
    h.calm ⟨rfl, rfl, rfl, rfl, rfl, rfl, fun _ => rfl⟩
  unfold Scene.entered startWarp
  split
  · exact helapsed.goes (Thread.goes_warpSince _ _) h.spent
  · exact helapsed

theorem Lone.fault (h : Lone c g top s) (opcode : String) (f : Fault) :
    Lone c g top (s.fault opcode f) := by
  have hrecorded : Lone c g top
      { s with world := s.world.recordFault ⟨s.thread.id, s.thread.actor, opcode, f⟩ } :=
    h.calm ⟨rfl, rfl, rfl, rfl, rfl, rfl, fun _ => rfl⟩
  exact hrecorded.goes s.thread.goes_retire

theorem alike_fault {block : Handle} (h : Nearly block s s') (opcode : String) (f : Fault) :
    Alike (s.fault opcode f) (s'.fault opcode f) := by
  have hfault : ∀ {s s' : Scene σ}, Alike s s' → Alike (s.fault opcode f) (s'.fault opcode f) :=
    fun h => h.map (F := fun s => s.fault opcode f) fun _ => rfl
  have hroused : ∀ s : Scene σ, s.roused.fault opcode f = s.fault opcode f := by
    intro s
    unfold roused Thread.roused
    split <;> rfl
  cases h with
  | alike h => exact hfault h
  | called _ _ h =>
    rw [← hroused s, ← hroused s']
    exact hfault h

/-- Nothing is asked of a thread on its own. -/
theorem Lone.obey (h : Lone c g top s) : s.obey = (s, false) := by
  unfold Scene.obey
  rw [h.current]
  rfl

/-- What becomes of a scene in which a block is executed and nothing is asked of the thread. -/
theorem stepBlock_of_top (htop : s.thread.topBlock? = some block) {s₁ : Scene σ}
    {fault : Option Fault} (hexec : s.entered.execute .empty k.countBlock g = (s₁, fault))
    (hobey : s₁.obey = (s₁, false)) :
    (s.stepBlock .empty g k).2.1 = match fault with
      | some f => s₁.fault (match g.opcode? block with
        | some op => op.name
        | none => "") f
      | none => (s₁.proceed k.countBlock g block (Scheduler.inWarp s.thread)).1 := by
  unfold entered at hexec
  unfold stepBlock
  rw [htop]
  simp only [hexec]
  cases fault with
  | some f => rfl
  | none => simp only [hobey]

/-- **Alike scenes are alike again after one block**, however time goes on meanwhile. -/
theorem alike_stepBlock (huntimed : g.Untimed top) (h : Alike s s') (hs : Poised c g top s)
    (hs' : Poised c' g top s') (hk : k.timeless = k'.timeless) :
    Alike (s.stepBlock .empty g k).2.1 (s'.stepBlock .empty g k').2.1 := by
  cases htop : s.thread.topBlock? with
  | none =>
    have htop' : s'.thread.topBlock? = none := h.topBlock?.symm.trans htop
    simp only [stepBlock, htop, htop']
    exact h.map (F := fun s => { s with thread := { s.thread with status := .done } }) fun _ => rfl
  | some block =>
    have htop' : s'.thread.topBlock? = some block := h.topBlock?.symm.trans htop
    have hentered : Alike s.entered s'.entered :=
      (timeless_entered s).trans (h.trans (timeless_entered s').symm)
    have hstack : s.entered.thread.topBlock? = some block :=
      (Alike.topBlock? (timeless_entered s)).trans htop
    have hstack' : s'.entered.thread.topBlock? = some block := hentered.topBlock?.symm.trans hstack
    have hwarp : Scheduler.inWarp s.thread = Scheduler.inWarp s'.thread :=
      h.read (F := fun s => Scheduler.inWarp s.thread) fun _ => rfl
    have hcount : k.countBlock.timeless = k'.countBlock.timeless := hk
    obtain ⟨hnearly, hanswer, hlone⟩ := nearly_execute huntimed hentered hs.entered hcount hstack
    obtain ⟨-, -, hlone'⟩ := nearly_execute huntimed hentered.symm hs'.entered hcount.symm hstack'
    rcases hexec : s.entered.execute .empty k.countBlock g with ⟨s₁, fault⟩
    rcases hexec' : s'.entered.execute .empty k'.countBlock g with ⟨s₁', fault'⟩
    rw [hexec] at hnearly hanswer hlone
    rw [hexec'] at hnearly hanswer hlone'
    obtain rfl : fault = fault' := hanswer
    rw [stepBlock_of_top htop hexec hlone.obey, stepBlock_of_top htop' hexec' hlone'.obey, hwarp]
    cases fault with
    | some f => exact alike_fault hnearly _ f
    | none => exact alike_proceed hnearly hlone.awake _

/-- **After a block the thread is still on its own.** -/
theorem Poised.stepBlock (h : Poised c g top s) (huntimed : g.Untimed top) (k : Scheduler) :
    Lone c g top (s.stepBlock .empty g k).2.1 := by
  cases htop : s.thread.topBlock? with
  | none =>
    simp only [Scene.stepBlock, htop]
    exact h.toLone.goes (s.thread.goes_status (by decide) (by decide))
  | some block =>
    have hstack : s.entered.thread.topBlock? = some block :=
      (Alike.topBlock? (timeless_entered s)).trans htop
    obtain ⟨-, -, hlone⟩ := nearly_execute huntimed (s := s.entered) rfl h.entered
      (k := k.countBlock) rfl hstack
    rcases hexec : s.entered.execute .empty k.countBlock g with ⟨s₁, fault⟩
    rw [hexec] at hlone
    rw [stepBlock_of_top htop hexec hlone.obey]
    cases fault with
    | some f => exact hlone.fault _ f
    | none => exact hlone.proceeded (proceeded_of_proceed rfl)

/-- A thread that has not ended is poised for its next block. -/
theorem Lone.poised (h : Lone c g top s) (hlive : s.thread.isDone = false) : Poised c g top s :=
  ⟨h, fun hd => by simp [Thread.isDone, hd] at hlive⟩

theorem Poised.timeless (h : Poised c g top s) : Poised c.timeless g top s.timeless where
  settings := congrArg Settings.timeless h.settings
  scheduler := by
    show s.world.scheduler.map _ = none
    rw [h.scheduler, Option.map_none]
  threads := h.threads
  spawned := h.spawned
  events := h.events
  current := h.current
  graph := h.graph
  within := h.within
  awake := h.awake
  steady := h.steady
  spent := h.spent

/-! ### Beats -/

@[simp] theorem timeless_timeless (s : Scene σ) : s.timeless.timeless = s.timeless := by
  refine Alike.mk ?_ rfl
  unfold timeless World.timeless
  cases s.world.scheduler <;> rfl

/-- The timeless part of a scene after one block. -/
def beat (g : Graph) (k : Scheduler) (s : Scene σ) : Scene σ :=
  (s.stepBlock .empty g k).2.1.timeless

/-- A block is a beat of the timeless part. -/
theorem beat_timeless (huntimed : g.Untimed top) (hs : Poised c g top s) :
    s.timeless.beat g k.timeless = (s.stepBlock .empty g k).2.1.timeless :=
  alike_stepBlock huntimed (timeless_timeless s) hs.timeless hs rfl

/-- Beats of a thread one after the other, with the blocks that they execute. -/
inductive Beats (g : Graph) (k : Scheduler) : Scene σ → List Handle → Scene σ → Prop
  | nil (x : Scene σ) : Beats g k x [] x
  | cons {x y : Scene σ} {blocks : List Handle} : x.thread.isDone = false →
      Beats g k (x.beat g k) blocks y → Beats g k x (x.thread.topBlock?.toList ++ blocks) y

namespace Beats

variable {x y z : Scene σ} {blocks blocks' : List Handle}

theorem trans (h : Beats g k x blocks y) (h' : Beats g k y blocks' z) :
    Beats g k x (blocks ++ blocks') z := by
  induction h with
  | nil x => exact h'
  | cons hlive _ ih =>
    rw [List.append_assoc]
    exact .cons hlive (ih h')

/-- **There is one way to the end**: two runs of beats that end the thread execute the same blocks
and leave the same scene. -/
theorem unique (h : Beats g k x blocks y) (h' : Beats g k x blocks' z)
    (hy : y.thread.isDone = true) (hz : z.thread.isDone = true) : blocks = blocks' ∧ y = z := by
  induction h generalizing blocks' with
  | nil x =>
    cases h' with
    | nil => exact ⟨rfl, rfl⟩
    | cons hlive _ => exact absurd (hy.symm.trans hlive) (by decide)
  | cons hlive _ ih =>
    cases h' with
    | nil => exact absurd (hz.symm.trans hlive) (by decide)
    | cons _ h' =>
      obtain ⟨rfl, rfl⟩ := ih h' hy
      exact ⟨rfl, rfl⟩

end Beats

/-! ### A turn -/

/-- **A turn consists of beats**, by induction on its blocks. -/
theorem beats_takeTurn (huntimed : g.Untimed top) (fuel : Nat) :
    ∀ {k k' : Scheduler} {s s' : Scene σ}, Poised c g top s → s.thread.isDone = false →
      takeTurn .empty g fuel k s = some (k', s') →
        k'.timeless = k.timeless ∧ Lone c g top s' ∧
          Beats g k.timeless s.timeless
            ((moments g fuel k s).filterMap fun m => m.scene.thread.topBlock?) s'.timeless := by
  induction fuel with
  | zero =>
    intro _ _ _ _ _ _ he
    cases he
  | succ fuel ih =>
    intro k k' s s' hs hlive he
    have hbeat := beat_timeless (k := k) huntimed hs
    have hlone := hs.stepBlock huntimed k
    have hfirst : (s.thread.topBlock?.map fun _ => Moment.mk k g s).toList.filterMap
        (fun m => m.scene.thread.topBlock?) = s.timeless.thread.topBlock?.toList := by
      show _ = s.thread.topBlock?.toList
      cases htop : s.thread.topBlock? <;> simp [htop]
    rw [takeTurn] at he
    rw [moments, List.filterMap_append, hfirst]
    rcases hstep : s.stepBlock .empty g k with ⟨k₁, s₁, turn⟩
    rw [hstep] at he hbeat hlone
    have hstepped := stepped_of_stepBlock hstep
    have hlimits : k₁.timeless = k.timeless := by cases hstepped <;> rfl
    have hone : Beats g k.timeless s.timeless (s.timeless.thread.topBlock?.toList ++ [])
        s₁.timeless := .cons hlive (hbeat ▸ .nil _)
    cases turn with
    | ends =>
      cases he
      exact ⟨hlimits, hlone, hone⟩
    | goesOn =>
      have hlive₁ : s₁.thread.isDone = false := by
        cases hstepped with
        | moved _ _ _ hp => exact live_of_proceed hp
      obtain ⟨hk, hlone', hrest⟩ := ih (hlone.poised hlive₁) hlive₁ he
      rw [hlimits] at hk hrest
      refine ⟨hk, hlone', ?_⟩
      rw [List.append_nil] at hone
      exact hone.trans hrest

end Scene

end Stagecraft
