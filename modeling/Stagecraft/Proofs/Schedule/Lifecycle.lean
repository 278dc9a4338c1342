import Stagecraft.Proofs.Report.Memos
import Stagecraft.Proofs.Schedule.Alive
import Stagecraft.Proofs.Schedule.Depth

/-!
# How threads stand between turns

The status of a thread, what it waits for, its stack and what was asked of it are written in many
places: by primitives, by the scheduler that moves it on, by a result that comes in, and by other
threads. In the middle of a turn they go together in several ways. At the end of each turn they go
together in two: the thread runs and waits for nothing, or it is parked and waits for a result.
Otherwise it has ended, and then it leaves the list before the step is over.

A reporter that is no reporter may leave its script, and the thread may still be parked by the next
one. So a thread may have lost its stack where programs plug other blocks than reporters into
inputs, and only there.

* `Graph.PlugsReporters` : only reporters stand in inputs;
* `Thread.Ready` : how a thread stands between turns;
* `Scene.Executed.settles`, `Scene.Stepped.halts` : how a block leaves the thread;
* `World.ready_of_show` : **between calls every thread is ready**, and nothing is left of the pass.
-/

namespace Stagecraft

/-! ### Reporters -/

/-- Whether a block may stand in an input: it reports a value, or it is the prototype of a
definition. -/
def Opcode.fitsInput (op : Opcode) : Bool :=
  op.reports || op.isMenu || op == .procedure .prototype

namespace Graph

variable {g : Graph}

/-- Only reporters stand in inputs, and prototypes in those of definitions. -/
def PlugsReporters (g : Graph) : Prop :=
  ∀ h b, g.Plugs h → g.get? h = some b → b.opcode.fitsInput = true

/-- A check for that. -/
def plugsReporters (g : Graph) : Bool :=
  g.handles.all fun h => (g.get? h).all fun b =>
    (plugged b.inputs.entries).all fun c => (g.get? c).all fun x => x.opcode.fitsInput

theorem plugsReporters_of_check (h : g.plugsReporters = true) : g.PlugsReporters := by
  rintro c x ⟨b, y, hy, hc⟩ hx
  have hblock := List.all_eq_true.1 h b (mem_handles hy)
  rw [hy, Option.all_some] at hblock
  have hplugged := List.all_eq_true.1 hblock c hc
  rwa [hx, Option.all_some] at hplugged

end Graph

namespace Primitive

variable {σ : Type} (site : Site) (args : Args) (s : Scene σ)

/-- **A reporter leaves the thread alone.** -/
theorem thread_run_of_fitsInput {op : Opcode} (h : op.fitsInput = true) :
    (run .empty op site args s).1.thread = s.thread := by
  cases op with
  | data op => exact thread_data site args s op
  | operator op => exact thread_operator site args s op
  | motion op => exact thread_motion args s op
  | looks op => exact thread_looks args s op
  | sensing op => exact thread_sensing site args s op
  | control op | event op | procedure op => cases op <;> first | exact absurd h (by decide) | rfl
  | custom name => rfl

/-- So does a primitive whose result comes later. -/
theorem thread_run_of_deferred (op : Opcode) {channel : Nat}
    (h : (run .empty op site args s).2 = .deferred channel) :
    (run .empty op site args s).1.thread = s.thread := by
  cases op with
  | sensing op => exact thread_sensing site args s op
  | custom name => rfl
  | control op | event op | data op | operator op | procedure op | motion op | looks op =>
    cases op <;> cases h

end Primitive

/-! ### Threads in the middle of a turn -/

namespace Thread

/-- Only the stack is changed, or the thread yields. -/
structure Reworked (t t' : Thread) : Prop where
  top : t'.top = t.top
  pending : t'.pending = t.pending
  restarting : t'.restarting = t.restarting
  status : t'.status = t.status ∨ t'.status = .yielded
  stack : t.stack ≠ [] → t'.stack ≠ []

namespace Reworked

variable {t t' t'' : Thread}

theorem refl (t : Thread) : Reworked t t := ⟨rfl, rfl, rfl, .inl rfl, fun h => h⟩

theorem trans (h : Reworked t t') (h' : Reworked t' t'') : Reworked t t'' := by
  refine ⟨h'.top.trans h.top, h'.pending.trans h.pending, h'.restarting.trans h.restarting, ?_,
    fun hs => h'.stack (h.stack hs)⟩
  rcases h'.status with he | he
  · exact he ▸ h.status
  · exact .inr he

theorem yields (t : Thread) : Reworked t { t with status := .yielded } :=
  ⟨rfl, rfl, rfl, .inr rfl, fun h => h⟩

theorem push (t : Thread) (h : Handle) : Reworked t (t.push h) :=
  ⟨rfl, rfl, rfl, .inl rfl, fun _ => List.cons_ne_nil _ _⟩

theorem modifyTop (t : Thread) (f : Frame → Frame) : Reworked t (t.modifyTop f) := by
  unfold Thread.modifyTop
  split
  · exact ⟨rfl, rfl, rfl, .inl rfl, fun _ => List.cons_ne_nil _ _⟩
  · exact .refl t

theorem modifyFrame (t : Thread) (i : Nat) (f : Frame → Frame) :
    Reworked t (t.modifyFrame i f) := by
  unfold Thread.modifyFrame
  split
  · refine ⟨rfl, rfl, rfl, .inl rfl, fun hs he => hs ?_⟩
    exact List.length_eq_zero_iff.1 (List.length_modify f .. ▸ List.length_eq_zero_iff.2 he)
  · exact .refl t

end Reworked

/-- **A primitive that stays in its script reworks the stack.** -/
theorem Shift.reworked {site : Site} {t t' : Thread} (h : t.Shift site t') : Reworked t t' := by
  refine h.told (P := Reworked t) ⟨fun ht => ?_, fun ht b => ?_, fun ht _ => ?_, fun ht p => ?_⟩
    (.refl t)
  · exact ht.trans (.yields _)
  · exact ht.trans (.push _ b)
  · exact ht.trans (.modifyTop _ _)
  · exact ht.trans (.modifyFrame _ _ _)

/-- A thread that is executing a block: it waits for nothing, and nothing was asked of it. -/
structure Loose (t : Thread) : Prop where
  top : t.top.isSome = true
  pending : t.pending = none
  restarting : t.restarting = false
  status : t.status = .running ∨ t.status = .yielded ∨ t.status = .done

/-- The thread is about to execute a block. It has a stack where programs are clean. -/
structure Active (clean : Prop) (t : Thread) : Prop where
  loose : t.Loose
  status : t.status = .running
  stack : clean → t.stack ≠ []

/-- The thread has been parked. -/
structure Parked (clean : Prop) (t : Thread) : Prop where
  top : t.top.isSome = true
  pending : t.pending.isSome = true
  restarting : t.restarting = false
  status : t.status = .parked
  stack : clean → t.stack ≠ []

/-- How a thread stands between turns. -/
structure Ready (t : Thread) : Prop where
  /-- It runs or is parked. -/
  status : t.status = .running ∨ t.status = .parked
  /-- It is parked when it waits for a result. -/
  parked : t.status = .parked ↔ t.pending.isSome = true
  /-- No warp time is running. -/
  warpSince : t.warpSince = none
  /-- It has not been asked to start over. -/
  restarting : t.restarting = false
  /-- It knows where it started from. -/
  top : t.top.isSome = true

/-- The thread has ended, or it is ready. -/
def Calm (clean : Prop) (t : Thread) : Prop :=
  t.isDone = true ∨ (t.Ready ∧ (clean → t.stack ≠ []))

/-- How a turn leaves a thread, before it is seen whether it starts over. -/
inductive Halted (clean : Prop) (t : Thread) : Prop
  | active : t.Active clean → Halted clean t
  | parked : t.Parked clean → Halted clean t
  | ended : t.isDone = true → t.restarting = false → Halted clean t
  | again : t.restarting = true → t.top.isSome = true → Halted clean t

variable {clean : Prop} {t t' : Thread}

theorem Loose.rework (h : t.Loose) (hr : Reworked t t') : t'.Loose := by
  refine ⟨hr.top ▸ h.top, hr.pending ▸ h.pending, hr.restarting ▸ h.restarting, ?_⟩
  rcases hr.status with he | he
  · exact he ▸ h.status
  · exact .inr (.inl he)

theorem Loose.retire (h : t.Loose) : t.retire.Loose := ⟨h.top, rfl, rfl, .inr (.inr rfl)⟩

theorem Loose.stopScript (h : t.Loose) (g : Graph) : (t.stopScript g).Loose := by
  refine ⟨h.top, h.pending, h.restarting, ?_⟩
  simp only [Thread.stopScript]
  split
  · exact .inr (.inr rfl)
  · exact h.status

/-- Leaving a script leaves a stack behind or ends the thread. -/
theorem stack_stopScript (t : Thread) (g : Graph) :
    (t.stopScript g).isDone = true ∨ (t.stopScript g).stack ≠ [] := by
  simp only [Thread.stopScript, isDone]
  cases toCall g t.stack with
  | nil => exact .inl rfl
  | cons f rest => exact .inr (List.cons_ne_nil _ _)

/-- A thread that is parked keeps its stack. -/
theorem Loose.park (h : t.Loose) (hs : clean → t.stack ≠ []) (p : Pending) :
    Parked clean { t with pending := some p, status := .parked } :=
  ⟨h.top, rfl, h.restarting, rfl, hs⟩

theorem calm_start (clean : Prop) (id : ThreadId) (actor : ActorId) (top : Handle) :
    Calm clean (.start id actor top) :=
  .inr ⟨⟨.inl rfl, ⟨nofun, nofun⟩, rfl, rfl, rfl⟩, fun _ => List.cons_ne_nil _ _⟩

theorem calm_restart (clean : Prop) (h : t.top.isSome = true) : Calm clean t.restart := by
  refine .inr ⟨⟨.inl rfl, ⟨nofun, nofun⟩, rfl, rfl, h⟩, fun _ => ?_⟩
  obtain ⟨top, htop⟩ := Option.isSome_iff_exists.1 h
  simp only [restart, htop]
  exact List.cons_ne_nil _ _

/-- Other threads keep a thread calm. -/
theorem Calm.handled (h : Handled t t') (ht : Calm clean t) : Calm clean t' := by
  cases h with
  | kept => exact ht
  | stopped => exact .inl rfl
  | @startedOver top _ htop =>
    exact .inr ⟨⟨.inl rfl, ⟨nofun, nofun⟩, rfl, rfl, htop ▸ rfl⟩, fun _ => List.cons_ne_nil _ _⟩

/-- A thread that runs may take its turn. -/
theorem Ready.active (h : t.Ready) (hst : t.status = .running) (hs : clean → t.stack ≠ []) :
    Active clean t := by
  have hp : t.pending = none := by
    cases he : t.pending with
    | none => rfl
    | some p =>
      have hparked := h.parked.2 (he ▸ rfl)
      rw [hst] at hparked
      cases hparked
  exact ⟨⟨h.top, hp, h.restarting, .inl hst⟩, hst, hs⟩

/-- A thread whose turn is over starts over if it was asked to, and no warp time is running. -/
theorem Halted.calm (h : Halted clean t) : t.atRest.Calm clean := by
  unfold atRest
  cases h with
  | active h =>
    rw [h.loose.restarting]
    have hp := h.loose.pending
    have hst := h.status
    refine .inr ⟨⟨.inl hst, ⟨fun he => ?_, fun he => ?_⟩, rfl, h.loose.restarting, h.loose.top⟩,
      h.stack⟩
    · cases hst.symm.trans he
    · cases hp ▸ he
  | parked h =>
    rw [h.restarting]
    exact .inr ⟨⟨.inr h.status, ⟨fun _ => h.pending, fun _ => h.status⟩, rfl, h.restarting, h.top⟩,
      h.stack⟩
  | ended hd hr =>
    rw [hr]
    exact .inl hd
  | again hr htop =>
    rw [hr]
    exact calm_restart clean htop

end Thread

namespace Scheduler

variable {clean : Prop} {k : Scheduler} {now : Span} {g : Graph} {t : Thread}

/-- A thread that moves on is active still, or it ends. -/
theorem Advanced.active {r : Thread × Turn} (hr : Advanced k now g t r) (h : t.Active clean) :
    r.1.Active clean ∨ (r.1.isDone = true ∧ r.1.restarting = false ∧ r.2 = .ends) := by
  have hstack : ∀ f rest, Thread.Active clean { t with stack := f :: rest } := fun f rest =>
    ⟨⟨h.loose.top, h.loose.pending, h.loose.restarting, h.loose.status⟩, h.status,
      fun _ => List.cons_ne_nil _ _⟩
  cases hr with
  | empty => exact .inl h
  | next | loop => exact .inl (hstack _ _)
  | emptied => exact .inr ⟨rfl, h.loose.restarting, rfl⟩

end Scheduler

/-! ### A block -/

namespace Scene

open Thread

variable {σ : Type} {clean : Prop} {site : Site} {op : Opcode} {k k' : Scheduler} {g : Graph}
  {s s' : Scene σ} {l : List (Invocation σ)} {turn : Turn}

theorem Performs.reworked (h : Performs site op s s') : s.thread.Reworked s'.thread := by
  induction h with
  | refl => exact .refl _
  | tail _ hd ih =>
    refine ih.trans ?_
    cases hd with
    | shift ht => exact ht.reworked
    | _ => exact .refl _

/-- A primitive leaves the thread loose, and takes its stack only where it ends the thread. -/
theorem Works.settles (h : Works site op s s') (hs : s.thread.Loose) :
    s'.thread.Loose ∧
      (s.thread.stack ≠ [] → s'.thread.isDone = true ∨ s'.thread.stack ≠ []) := by
  obtain ⟨s₁, hperforms, hquits⟩ := h
  have hr := hperforms.reworked
  have hloose := hs.rework hr
  cases hquits with
  | stays => exact ⟨hloose, fun hne => .inr (hr.stack hne)⟩
  | stopScript => exact ⟨hloose.stopScript _, fun _ => s₁.thread.stack_stopScript _⟩
  | retire => exact ⟨hloose.retire, fun _ => .inl rfl⟩

theorem Evaluates.loose (h : Evaluates .empty site s l s') (hs : s.thread.Loose) :
    s'.thread.Loose := by
  induction h with
  | nil => exact hs
  | remember h v _ ih => exact ih.rework (.modifyFrame _ _ _)
  | @report _ i _ _ _ ih =>
    exact ((Primitive.works_run i.site i.opcode i.args i.before).settles ih).1

/-- **Reporters leave the thread on its stack.** -/
theorem Evaluates.stack (h : Evaluates .empty site s l s') (hg : site.graph.PlugsReporters)
    (hs : s.thread.stack ≠ []) : s'.thread.stack ≠ [] := by
  induction h with
  | nil => exact hs
  | remember h v _ ih => exact (Reworked.modifyFrame _ _ _).stack ih
  | @report _ i _ hi hp ih =>
    obtain ⟨b, hb, hop⟩ := hi.opcode
    have hsame := Primitive.thread_run_of_fitsInput i.site i.args i.before
      (hop ▸ hg _ b hp hb)
    exact hsame.symm ▸ ih

/-- **Executing a block** leaves the thread loose, or it parks the thread. -/
theorem Executed.settles {r : Scene σ × Option Fault} (h : Executed .empty k g s l r)
    (hs : s.thread.Active clean) (hg : clean → g.PlugsReporters) :
    (r.1.thread.Loose ∧ (clean → r.1.thread.isDone = true ∨ r.1.thread.stack ≠ [])) ∨
      r.1.thread.Parked clean := by
  cases h with
  | skipped => exact .inl ⟨hs.loose, fun hc => .inr (hs.stack hc)⟩
  | failed f _ he =>
    exact .inl ⟨he.loose hs.loose, fun hc => .inr (he.stack (hg hc) (hs.stack hc))⟩
  | parked channel c _ he =>
    exact .inr ((he.loose hs.loose).park (fun hc => he.stack (hg hc) (hs.stack hc)) _)
  | @ran h l i _ he _ _ =>
    have hstack : clean → i.before.thread.stack ≠ [] := fun hc =>
      he.stack (hg hc) (hs.stack hc)
    obtain ⟨hloose, hleft⟩ := (Primitive.works_run i.site i.opcode i.args i.before).settles
      (he.loose hs.loose)
    have hforget := Reworked.modifyFrame (i.result .empty).1.thread (s.thread.depth - 1)
      fun f => { f with reported := .empty }
    have hdone : ((i.result .empty).1.forget (s.thread.depth - 1)).thread.isDone =
        (i.result .empty).1.thread.isDone := by
      simp only [forget, Thread.modifyFrame]
      split <;> rfl
    have hkept : ((i.result .empty).1.forget (s.thread.depth - 1)).thread.Loose ∧
        (clean → ((i.result .empty).1.forget (s.thread.depth - 1)).thread.isDone = true ∨
          ((i.result .empty).1.forget (s.thread.depth - 1)).thread.stack ≠ []) :=
      ⟨hloose.rework hforget, fun hc => (hleft (hstack hc)).imp (fun hd => hdone.trans hd)
        hforget.stack⟩
    refine finish_cases (P := fun r : Scene σ =>
      (r.thread.Loose ∧ (clean → r.thread.isDone = true ∨ r.thread.stack ≠ [])) ∨
        r.thread.Parked clean) (fun channel hr => ?_) (.inl hkept) fun v _ => ?_
    · -- the thread is as it was before, so it still has its stack
      have hsame : (i.result .empty).1.thread = i.before.thread :=
        Primitive.thread_run_of_deferred i.site i.args i.before i.opcode hr
      refine .inr (Loose.park (t := (i.result .empty).1.thread) ?_ (fun hc => ?_) _)
      · exact hsame ▸ he.loose hs.loose
      · exact hsame ▸ hstack hc
    · obtain ⟨hl, hst⟩ := hkept
      exact .inl ⟨⟨hl.top, hl.pending, hl.restarting, hl.status⟩, hst⟩

/-- **Moving on** leaves the thread active, or the turn is over. -/
theorem Proceeded.halts {top : Handle} {warp : Bool} (hp : Proceeded k g top warp s (s', turn))
    (hs : (s.thread.Loose ∧ (clean → s.thread.isDone = true ∨ s.thread.stack ≠ [])) ∨
      s.thread.Parked clean) :
    s'.thread.Active clean ∨ (s'.thread.Halted clean ∧ turn = .ends) := by
  rcases hs with ⟨hloose, hstack⟩ | hparked
  · have hleft : s.thread.isDone = false → clean → s.thread.stack ≠ [] := fun hd hc =>
      (hstack hc).resolve_left (by simp [hd])
    have hactive : s.thread.status = .running → s.thread.Active clean := fun hst =>
      ⟨hloose, hst, hleft (by simp [isDone, hst])⟩
    cases hp with
    | yielded hst =>
      exact .inl ⟨⟨hloose.top, hloose.pending, hloose.restarting, .inl rfl⟩, rfl,
        hleft (by simp [isDone, hst])⟩
    | held hst =>
      rcases hloose.status with he | he | he <;> rw [he] at hst
      · rcases hst with hst | hst | hst <;> cases hst
      · rcases hst with hst | hst | hst <;> cases hst
      · exact .inr ⟨.ended (by simp [isDone, he]) hloose.restarting, rfl⟩
    | empty => exact .inr ⟨.ended rfl hloose.restarting, rfl⟩
    | moved hst _ ha =>
      exact ((Scheduler.advanced_of_advance ha).active (hactive hst)).imp_right fun h =>
        ⟨.ended h.1 h.2.1, h.2.2⟩
    | elsewhere hst => exact .inl (hactive hst)
  · have hst := hparked.status
    cases hp with
    | held => exact .inr ⟨.parked hparked, rfl⟩
    | yielded hr | empty hr | moved hr | elsewhere hr => cases hst.symm.trans hr

/-- **One block**: the thread is active and goes on, or its turn is over. -/
theorem Stepped.halts (h : Stepped .empty g k s k' s' turn) (hs : s.thread.Active clean)
    (hg : clean → g.PlugsReporters) :
    s'.thread.Active clean ∨ (s'.thread.Halted clean ∧ turn = .ends) := by
  have hentered : s.entered.thread.Active clean := by
    unfold entered startWarp
    simp only
    split
    · exact ⟨⟨hs.loose.top, hs.loose.pending, hs.loose.restarting, hs.loose.status⟩, hs.status,
        hs.stack⟩
    · exact hs
  have hexec := (executed .empty k.countBlock g s.entered).settles hentered hg
  cases h with
  | empty => exact .inr ⟨.ended rfl hs.loose.restarting, rfl⟩
  | failed opcode _ hx => exact .inr ⟨.ended rfl rfl, rfl⟩
  | @obeyed top s₁ s' _ hx ho =>
    rw [hx] at hexec
    have htop : s₁.thread.top.isSome = true := hexec.elim (·.1.top) (·.top)
    refine .inr ⟨?_, rfl⟩
    cases obeyed_of_obey ho with
    | stopped => exact .ended rfl rfl
    | startsOver => exact .again rfl htop
  | moved _ hx _ hp =>
    rw [hx] at hexec
    exact (proceeded_of_proceed hp).halts hexec

/-- **A turn**, by induction on its blocks. -/
theorem halted_takeTurn (hg : clean → g.PlugsReporters) {fuel : Nat} (hs : s.thread.Active clean)
    (h : takeTurn .empty g fuel k s = some (k', s')) : s'.thread.Halted clean := by
  refine takeTurn_induction
    (P := fun s s' : Scene σ => s.thread.Active clean → s'.thread.Halted clean)
    (fun hstep hs => ?_) (fun hstep ih hs => ?_) fuel h hs
  · exact (hstep.halts hs hg).elim .active (·.1)
  · rcases hstep.halts hs hg with hactive | ⟨-, hturn⟩
    · exact ih hactive
    · cases hturn

end Scene

/-! ### A visit -/

namespace Pass

open World Thread

variable {σ : Type} {clean : Prop} {fuel : Nat} {k k' : Scheduler} {w : World σ} {t : Thread}
  {scene : Scene σ}

theorem Performed.calm (h : Performed .empty fuel k w t k' scene) (ht : t.Active clean)
    (hg : clean → ∀ g, w.graph? t.actor = some g → g.PlugsReporters)
    : scene.thread.Calm clean := by
  cases h with
  | gone => exact .inl rfl
  | turn hgraph hturn => exact (Scene.halted_takeTurn (fun hc => hg hc _ hgraph) ht hturn).calm

/-- A result that has come in leaves the thread active, or the thread has ended. -/
theorem TakenIn.active {slot : Slotting} {v : Value} {r : Thread × Bool}
    (h : TakenIn k w t v slot r) (ht : t.Ready) (hs : clean → t.stack ≠ []) :
    r.1.Active clean ∨ (r.1.isDone = true ∧ r.2 = false) := by
  have hawake : t.awake.Active clean := ⟨⟨ht.top, rfl, ht.restarting, .inl rfl⟩, rfl, hs⟩
  have hmemo : ∀ f : Frame → Frame, (t.awake.modifyTop f).Active clean := by
    intro f
    have hr := Reworked.modifyTop t.awake f
    exact ⟨hawake.loose.rework hr, t.awake.status_modifyTop f,
      fun hc => hr.stack (hawake.stack hc)⟩
  cases h with
  | reporter => exact .inl (hmemo _)
  | retired => exact .inr ⟨rfl, rfl⟩
  | advanced _ ha hon =>
    rcases (Scheduler.advanced_of_advance ha).active (hmemo _) with hactive | ⟨hd, -, hturn⟩
    · exact .inl hactive
    · cases hturn
      exact .inr ⟨hd, hon.symm⟩

/-- Looking for a result leaves the thread active; or it goes on waiting, or it has ended. -/
theorem Woken.active {r : Scene σ × Bool} (h : Woken k w t r) (ht : t.Ready)
    (hs : clean → t.stack ≠ []) :
    r.1.thread.Active clean ∨ (r.2 = false ∧ (r.1.thread.isDone = true ∨ r.1.thread = t)) := by
  cases h with
  | free hp => exact .inl ⟨⟨ht.top, hp, ht.restarting, .inl rfl⟩, rfl, hs⟩
  | waits => exact .inr ⟨rfl, .inr rfl⟩
  | takesIn _ _ htake =>
    exact ((takenIn_of_takeIn htake).active ht hs).imp_right fun h => ⟨h.2, .inl h.1⟩
  | refused => exact .inr ⟨rfl, .inl rfl⟩

/-- **A visit leaves the thread calm.** -/
theorem Visited.calm (h : Visited .empty fuel k w t k' scene) (ht : t.Calm clean)
    (hg : clean → ∀ g, w.graph? t.actor = some g → g.PlugsReporters) :
    scene.thread.Calm clean := by
  -- a thread that has ended is passed by
  have hready : t.status ≠ .done → t.Ready ∧ (clean → t.stack ≠ []) := fun hst =>
    ht.resolve_left fun hd => hst (by simpa [isDone] using hd)
  cases h with
  | passed => exact ht
  | runs hst hr =>
    obtain ⟨hrt, hs⟩ := hready (by rcases hst with hst | hst <;> simp [hst])
    have hrunning : t.status = .running := hst.resolve_right fun hst => by
      rcases hrt.status with he | he <;> cases hst.symm.trans he
    exact (performed_of_letRun hr).calm (hrt.active hrunning hs) hg
  | wakes hst hw hr =>
    obtain ⟨hrt, hs⟩ := hready (by simp [hst])
    have hwoken := woken_of_wake hw
    rcases hwoken.active hrt hs with hactive | ⟨hon, -⟩
    · refine (performed_of_letRun hr).calm hactive fun hc g hgraph => hg hc g ?_
      rwa [hwoken.moved.actor, hwoken.sameCast.graph?] at hgraph
    · cases hon
  | waits hst hw =>
    obtain ⟨hrt, hs⟩ := hready (by simp [hst])
    rcases (woken_of_wake hw).active hrt hs with hactive | ⟨-, hd | hsame⟩
    · have hcalm := Halted.calm (.active hactive)
      rwa [atRest, hactive.loose.restarting] at hcalm
    · exact .inl hd
    · simp only at hsame ⊢
      rw [hsame]
      exact .inr ⟨⟨hrt.status, hrt.parked, rfl, hrt.restarting, hrt.top⟩, hs⟩

end Pass

/-! ### A step -/

namespace World

open Thread

variable {σ : Type} {clean : Prop} {k : Scheduler} {w w' : World σ}

/-- The programs of all sprites plug reporters only. -/
def PlugsReporters (w : World σ) : Prop := ∀ e ∈ w.programs.entries, e.2.PlugsReporters

theorem PlugsReporters.graph? (hw : w.PlugsReporters) {id : ActorId} {g : Graph}
    (hg : w.graph? id = some g) : g.PlugsReporters := by
  rw [graph?_eq_programs] at hg
  obtain ⟨a, -, hsprite⟩ := Option.bind_eq_some_iff.1 hg
  exact hw _ ((Table.get?_eq_some_iff _ _ _).1 hsprite)

/-- The threads are calm, and programs are clean where that is claimed. -/
structure Poised (clean : Prop) (w : World σ) : Prop where
  calm : ∀ t ∈ w.threads ++ w.spawned, t.Calm clean
  programs : clean → w.PlugsReporters

namespace Poised

/-- Threads leave the lists, and programs are left alone. -/
theorem thin (hw : w.Poised clean) (hprog : w'.programs = w.programs)
    (h : ∀ t ∈ w'.threads ++ w'.spawned, t ∈ w.threads ++ w.spawned) : w'.Poised clean := by
  refine ⟨fun t ht => hw.calm t (h t ht), fun hc => ?_⟩
  rw [PlugsReporters, hprog]
  exact hw.programs hc

theorem descends (hw : w.Poised clean) (hprog : w'.programs = w.programs) (h : Descends w w') :
    w'.Poised clean := by
  refine ⟨h.keeps_threads (calm_start clean) (fun hh ht => ht.handled hh) hw.calm, fun hc => ?_⟩
  rw [PlugsReporters, hprog]
  exact hw.programs hc

theorem set (hw : w.Poised clean) (i : Nat) {t : Thread} (ht : t.Calm clean) :
    Poised clean { w with threads := w.threads.set i t } := by
  refine ⟨fun u hu => ?_, hw.programs⟩
  rcases Thread.mem_set hu with hu | rfl
  · exact hw.calm u hu
  · exact ht

/-- **A turn** leaves all threads calm. -/
theorem visitAt {fuel i : Nat} {p p' : Pass σ} (hw : p.world.Poised clean)
    (h : Pass.visitAt .empty fuel p i = some p') : p'.world.Poised clean := by
  have hprog := (samePlay_of_changed (Pass.changed_visitAt h)).programs
  obtain ⟨-, rfl⟩ | ⟨t, k, scene, ht, hv, rfl⟩ := Pass.visitAt_cases h
  · exact hw
  · have hout : Poised clean { p.world with threads := p.world.threads.set i .absent } :=
      hw.set i (.inl rfl)
    have hcalm := (Pass.visited_of_visit hv).calm
      (hw.calm t (List.mem_append_left _ (List.mem_of_getElem? ht)))
      fun hc g hg => (hout.programs hc).graph? hg
    have hothers : scene.world.Poised clean :=
      hout.descends hprog (upheld_tends.visit hv).descends
    exact hothers.set i hcalm

/-- Between turns threads are left calm. -/
theorem interlude (hw : w.Poised clean) (h : Interlude w w') : w'.Poised clean := by
  cases h with
  | elapse => exact hw.thin rfl fun t ht => ht
  | begin k =>
    refine hw.thin rfl fun t ht => ?_
    rcases List.mem_append.1 ht with ht | ht
    · obtain ⟨u, hu, rfl⟩ := List.mem_map.1 ht
      have hmem := List.mem_append_left w.spawned hu
      split
      · rename_i hst
        -- no calm thread sits out a pass
        rcases hw.calm u hmem with hd | ⟨hready, -⟩
        · simp [isDone, hst] at hd
        · rcases hready.status with he | he <;> cases hst.symm.trans he
      · exact hmem
    · exact List.mem_append_right _ ht
  | collect p finished =>
    exact hw.thin rfl (List.filter_sublist.append (List.Sublist.refl _)).subset
  | finish p =>
    refine hw.thin rfl fun t ht => ?_
    simp only [afterPass, Pass.finish, List.append_nil] at ht
    exact ((List.Sublist.refl _).append List.filter_sublist).subset ht
  | dispatch =>
    have hsame := (SamePlay.of_cast w.sameCast_dispatchEvents).programs
    exact hw.descends hsame (tends_dispatchEvents w).descends
  | flush => exact hw.thin rfl fun t ht => ht

end Poised

/-- **All the way through a step.** -/
theorem Route.poised {β : Type} {log : Pass σ → Nat → List β} {fuel : Nat} {l : List β}
    (h : Route k log fuel w l w') (hw : w.Poised clean) : w'.Poised clean := by
  induction h with
  | nil => exact hw
  | aside _ h ih => exact ih.interlude h
  | turn _ _ h ih => exact ih.visitAt h

/-! ### Shows -/

variable {P : World σ → Prop}

theorem calm_of_show (hP : clean → ∀ w : World σ, P w → w.PlugsReporters) (h : Show P w) :
    ∀ t ∈ w.threads ++ w.spawned, t.Calm clean := by
  induction h with
  | blank settings host dice =>
    intro t ht
    cases ht
  | gesture _ hg ih =>
    refine hg.keeps_threads (calm_start clean) (fun hh ht => ht.handled hh) (fun ht => ?_) ih
    -- a click is all that is noted about the thread
    refine ht.imp_right fun ⟨hr, hs⟩ => ?_
    exact ⟨⟨hr.status, hr.parked, hr.warpSince, hr.restarting, hr.top⟩, hs⟩
  | @step fuel w w' ended hw hstart hs ih =>
    obtain ⟨s, hsome⟩ := hw.exists_scheduler
    have hroute := route_of_step hsome (Pass.visitAtInvocations fuel) hs
    exact (hroute.poised ⟨ih, fun hc => hP hc _ hstart⟩).calm

theorem alive_of_show (h : Show P w) : w.Alive := by
  induction h with
  | blank settings host dice =>
    intro t ht
    cases ht
  | gesture hw hg ih => exact hg.alive ih (settled_of_reachable hw.reachable).idle
  | step hw _ hs _ => exact alive_of_step (settled_of_reachable hw.reachable).idle hs

/-- **Between calls every thread is ready**: it runs and waits for nothing, or it is parked and
waits for a result. No thread waits to join the list, nobody is on stage and no pass is running.
Where programs plug only reporters into inputs, every thread has a stack. -/
theorem ready_of_show (h : Show P w) :
    (∀ t ∈ w.threads, t.Ready) ∧ w.spawned = [] ∧ w.current = none ∧ w.inPass = false ∧
      ((∀ w : World σ, P w → w.PlugsReporters) → ∀ t ∈ w.threads, t.stack ≠ []) := by
  have hsettled := settled_of_reachable h.reachable
  have hready : ∀ (clean : Prop), (clean → ∀ w : World σ, P w → w.PlugsReporters) →
      ∀ t ∈ w.threads, t.Ready ∧ (clean → t.stack ≠ []) := by
    intro clean hP t ht
    have hmem := List.mem_append_left w.spawned ht
    refine (calm_of_show hP h t hmem).resolve_left ?_
    simp [alive_of_show h t hmem]
  exact ⟨fun t ht => (hready False nofun t ht).1, hsettled.spawned, h.stage, hsettled.idle,
    fun hP t ht => (hready True (fun _ => hP) t ht).2 trivial⟩

/-- One script says what the user answers, and another one loops for ever. -/
def survey : Graph :=
  Graph.empty.run
    [.create { Block.detached "flag" (.event .whenFlagClicked) with
        next := some ⟨1, 0⟩
        topLevel := true },
      .create { Block.detached "say" (.looks .say) with
        inputs := Table.empty.insert "MESSAGE" (.reporter ⟨2, 0⟩)
        parent := some ⟨0, 0⟩ },
      .create { Block.detached "ask" (.sensing .askAndWait) with
        inputs := Table.empty.insert "QUESTION" (.literal (.text "Well?"))
        parent := some ⟨1, 0⟩ },
      .create { Block.detached "again" (.event .whenFlagClicked) with
        next := some ⟨4, 0⟩
        topLevel := true },
      .create { Block.detached "loop" (.control .forever) with parent := some ⟨3, 0⟩ }]

/-- After a step the first script is parked on its question, and the second one runs. -/
theorem ready_of_show_survey : ∃ w : World Unit, Show PlugsReporters w ∧
    w.threads.map (fun t => (t.status, t.pending.isSome)) =
      [(.parked, true), (.running, false)] ∧
    (∀ t ∈ w.threads, t.Ready) ∧ w.spawned = [] ∧ w.current = none ∧ w.inPass = false ∧
      ∀ t ∈ w.threads, t.stack ≠ [] := by
  let ready := ((blank Settings.standard ()).addSprite "Cat" survey).1.greenFlag.1
  have hrun : (ready.step .empty 9).map (fun r => r.1.threads.map fun t =>
      (t.status, t.pending.isSome)) = some [(.parked, true), (.running, false)] := by
    decide +kernel
  obtain ⟨⟨w, ended⟩, hstep, hstatus⟩ := Option.map_eq_some_iff.1 hrun
  have hready : Show PlugsReporters ready :=
    ((Show.blank _ ()).apply (c := .addSprite "Cat" survey) nofun rfl).apply (c := .greenFlag)
      nofun rfl
  have hplugs : PlugsReporters ready := by
    intro e he
    rw [(samePlay_greenFlag _).programs] at he
    rw [List.mem_singleton.1 he]
    exact Graph.plugsReporters_of_check (by decide +kernel)
  obtain ⟨hall, hspawned, hstage, hidle, hstack⟩ := ready_of_show (hready.step hplugs hstep)
  exact ⟨w, hready.step hplugs hstep, hstatus, hall, hspawned, hstage, hidle,
    hstack fun _ => id⟩

/-- A block that leaves its script stands in an input, and the next input asks the user. -/
def misplaced : Graph :=
  Graph.empty.run
    [.create { Block.detached "flag" (.event .whenFlagClicked) with
        next := some ⟨1, 0⟩
        topLevel := true },
      .create { Block.detached "join" (.operator .join) with
        inputs := (Table.empty.insert "STRING1" (.reporter ⟨2, 0⟩)).insert "STRING2"
          (.reporter ⟨3, 0⟩)
        parent := some ⟨0, 0⟩ },
      .create { Block.detached "stop" (.control .stop) with
        fields := Table.empty.insert "STOP_OPTION" ⟨"this script", none⟩
        parent := some ⟨1, 0⟩ },
      .create { Block.detached "ask" (.sensing .askAndWait) with parent := some ⟨1, 0⟩ }]

/-- Its thread is parked without a stack. -/
example : misplaced.plugsReporters = false ∧
    ((((blank Settings.standard ()).addSprite "Cat" misplaced).1.greenFlag.1.step .empty 9).map
      fun r => r.1.threads.map fun t => (t.status, t.stack.length)) = some [(.parked, 0)] := by
  decide +kernel

end World

end Stagecraft
