import Stagecraft.Proofs.Schedule.Blocks
import Stagecraft.Proofs.Schedule.Course
import Stagecraft.Proofs.Schedule.Ledger

/-!
# Results along a run

A primitive that answers later leaves its result to the thread that runs it, which is parked.
Nothing else that happens in a run lets anybody await a result, but for what the host does with
those that it awaits itself. So what is cancelled stays cancelled.

* `Scene.ledger` : who awaits what in a turn;
* `Extensions.GivesOnce` : what the host's primitives do with results;
* `Scene.passes_execute`, `Scene.passes_stepBlock` : **a block keeps to the ledger**;
* `Execution.claims` : the ledger along a run.
-/

namespace Stagecraft

/-! ### What is done in a turn -/

/-- The ledger of a turn: the thread that has it is in none of the lists. -/
def Scene.ledger {σ : Type} (s : Scene σ) : Ledger :=
  ⟨s.world.nextChannel, s.world.held, s.thread :: (s.world.threads ++ s.world.spawned)⟩

/-- The extensions give out channels that are new, or hand on what the host awaits. A result that
comes later is awaited by nobody then: it is left to the running thread. -/
def Extensions.GivesOnce {σ : Type} (ext : Extensions σ) : Prop :=
  ∀ (name : String) (handler : Extension σ), ext.get? name = some handler →
    ∀ (site : Site) (args : Args) (s : Scene σ),
      s.ledger.Passes (handler site args s).1.ledger ∧
        ∀ c, (handler site args s).2 = .outcome (.deferred c) →
          s.ledger.Offers (handler site args s).1.ledger c ∧
            (s.ledger.Sound → (handler site args s).1.ledger.Unclaimed c)

namespace Scene

open World

variable {σ : Type} {ext : Extensions σ} {site : Site} {op : Opcode} {s s' : Scene σ}

/-- What is done to the world is done in the turn. -/
theorem passes_of_world {t : Thread} {w w' : World σ} (h : Gives w w') (ht : Quiets w w') :
    (Scene.ledger ⟨w, t⟩).Passes (Scene.ledger ⟨w', t⟩) := by
  refine .of_kept h.next_le h.held fun t' ht' c hc => ?_
  rcases List.mem_cons.1 ht' with rfl | ht'
  · exact ⟨_, List.mem_cons_self .., rfl, hc⟩
  · obtain ⟨u, hu, hid, he⟩ := ht t' ht' c hc
    exact ⟨u, List.mem_cons_of_mem _ hu, hid, he⟩

/-- The thread awaits what it awaited before, or nothing. -/
theorem passes_of_thread (hw : s'.world.ledger = s.world.ledger) (hid : s'.thread.id = s.thread.id)
    (h : s'.thread.channel? = none ∨ s'.thread.channel? = s.thread.channel?) :
    s.ledger.Passes s'.ledger := by
  obtain ⟨hn, hh, hlists⟩ := Ledger.mk.inj hw
  refine .of_threads hn hh fun u hu => ?_
  rcases List.mem_cons.1 hu with rfl | hu
  · exact h.imp_right fun he => ⟨s.thread, List.mem_cons_self .., hid.symm, he.symm⟩
  · exact .inr ⟨u, List.mem_cons_of_mem _ (hlists ▸ hu), rfl, rfl⟩

/-- A result is handed on to the running thread, which is parked. -/
theorem passes_park {c : Nat} (h : s.ledger.Passes s'.ledger) (ho : s.ledger.Offers s'.ledger c)
    (hc : s.ledger.Sound → s'.ledger.Unclaimed c) (slot : Slotting) :
    s.ledger.Passes (s'.park c slot).ledger := by
  refine ⟨h.next_le, h.held, fun t ht c' hc' => ?_, fun hs => ?_⟩
  · rcases List.mem_cons.1 ht with rfl | ht
    · cases hc'
      exact .inr ho
    · exact h.threads t (List.mem_cons_of_mem _ ht) c' hc'
  · have hsound := h.sound hs
    have hfree := hc hs
    have hother : ∀ t ∈ s'.world.threads ++ s'.world.spawned, t.channel? ≠ some c := fun t ht =>
      hfree.threads t (List.mem_cons_of_mem _ ht)
    refine ⟨hsound.held, fun t ht c' hc' => ?_, fun t ht u hu c' htc huc => ?_⟩
    · rcases List.mem_cons.1 ht with rfl | ht
      · cases hc'
        exact ⟨hfree.lt, hfree.held⟩
      · exact hsound.threads t (List.mem_cons_of_mem _ ht) c' hc'
    · rcases List.mem_cons.1 ht with rfl | ht <;> rcases List.mem_cons.1 hu with rfl | hu
      · rfl
      · cases htc
        exact absurd huc (hother u hu)
      · cases huc
        exact absurd htc (hother t ht)
      · exact hsound.once t (List.mem_cons_of_mem _ ht) u (List.mem_cons_of_mem _ hu) c' htc huc

/-- Starting and stopping threads does not let any of them await something. -/
theorem passes_of_tends {t : Thread} {w w' : World σ} (h : Tends w w') (hh : SameHost w w') :
    (Scene.ledger ⟨w, t⟩).Passes (Scene.ledger ⟨w', t⟩) :=
  passes_of_world hh.gives h.descends.quiets

theorem Does.passes (h : Does site op s s') : s.ledger.Passes s'.ledger := by
  have hlookup : ∀ id name kind, (Scene.ledger ⟨s.world, s.thread⟩).Passes
      (Scene.ledger ⟨(s.world.lookupVariable s.thread.actor id name kind).1, s.thread⟩) :=
    fun id name kind => passes_of_tends (effect_lookupVariable ..).tends
      (sameMail_lookupVariable ..).host
  cases h with
  | shift hs =>
    refine passes_of_thread rfl hs.moved.id (.inr ?_)
    rw [Thread.channel?, Thread.channel?, hs.reworked.pending]
  | aside hw =>
    exact passes_of_tends (.of_eq hw.scheduler hw.nextThread hw.threads hw.spawned) hw.mail.host
  | ask text _ => exact passes_of_tends (.of_eq rfl rfl rfl rfl) ⟨Nat.le_succ _, rfl⟩
  | restyle f _ => exact .refl _
  | lookup id name kind => exact hlookup id name kind
  | write id name kind f _ _ =>
    -- writing a variable changes no more than looking it up
    have h : s.ledger.Passes (Scene.ledger ⟨_, s.thread⟩) := hlookup id name kind
    exact h
  | request r hop => exact .refl _
  | startHats hat fields only =>
    exact passes_of_tends (tends_startHats ..) (sameMail_startHats ..).host
  | stopActor => exact passes_of_tends (tends_stopActor ..) (sameMail_stopActor ..).host
  | createClone source _ =>
    exact passes_of_tends (tends_createClone ..) (sameMail_createClone ..).host
  | deleteClone _ _ _ =>
    exact passes_of_tends (tends_deleteClone ..) (sameMail_deleteClone ..).host
  | stopAll _ => exact passes_of_tends (tends_stopAll ..) (sameHost_stopAll ..)

theorem Quits.passes (h : Quits site s s') : s.ledger.Passes s'.ledger := by
  cases h with
  | stays => exact .refl _
  | stopScript => exact passes_of_thread rfl rfl (.inr rfl)
  | retire => exact passes_of_thread rfl rfl (.inl rfl)

theorem Works.passes (h : Works site op s s') : s.ledger.Passes s'.ledger :=
  h.along (R := fun s s' => s.ledger.Passes s'.ledger) (fun _ => .refl _) Ledger.Passes.trans
    Does.passes Quits.passes

end Scene

namespace Primitive

open Scene

variable {σ : Type} {ext : Extensions σ}

/-- What becomes of a response is the outcome of a primitive. -/
theorem outcome_extended {name : String} {handler : Extension σ} {c : Nat}
    (hget : ext.get? name = some handler) (site : Site) (args : Args) (s : Scene σ) :
    (extended ext name site args s).1 = (handler site args s).1 ∧
      ((extended ext name site args s).2 = .deferred c →
        (handler site args s).2 = .outcome (.deferred c)) := by
  rw [extended, hget]
  simp only
  rcases handler site args s with ⟨s', r⟩
  cases r with
  | outcome o => exact ⟨rfl, fun h => congrArg Response.outcome h⟩
  | crashed message => exact ⟨rfl, fun h => by cases h⟩

theorem passes_run (hext : ext.GivesOnce) (op : Opcode) (site : Site) (args : Args) (s : Scene σ) :
    s.ledger.Passes (run ext op site args s).1.ledger := by
  cases op with
  | custom name =>
    cases hget : ext.get? name with
    | none =>
      rw [run, extended, hget]
      exact .refl _
    | some handler =>
      rw [run, (outcome_extended hget site args s (c := 0)).1]
      exact (hext name handler hget site args s).1
  | _ =>
    rw [run_of_builtIn site _ args s ext rfl]
    exact (works_run site _ args s).passes

/-- **A result that comes later is left to the running thread.** -/
theorem unclaimed_of_deferred (hext : ext.GivesOnce) {op : Opcode} {site : Site} {args : Args}
    {s : Scene σ} {c : Nat} (h : (run ext op site args s).2 = .deferred c) :
    s.ledger.Offers (run ext op site args s).1.ledger c ∧
      (s.ledger.Sound → (run ext op site args s).1.ledger.Unclaimed c) := by
  cases op with
  | custom name =>
    cases hget : ext.get? name with
    | none =>
      rw [run, extended, hget] at h
      cases h
    | some handler =>
      obtain ⟨hscene, houtcome⟩ := outcome_extended (c := c) hget site args s
      rw [run, hscene]
      exact (hext name handler hget site args s).2 c (houtcome h)
  | sensing op =>
    cases op with
    | askAndWait =>
      cases h
      refine ⟨.inr ⟨Nat.le_refl _, Nat.lt_succ_self _⟩, fun hs => ⟨Nat.lt_succ_self _, fun hc => ?_,
        fun t ht hc => ?_⟩⟩
      · exact Nat.lt_irrefl _ (hs.held _ hc)
      · exact Nat.lt_irrefl _ (hs.threads t ht _ hc).1
    | _ => cases h
  | control op | event op | data op | operator op | procedure op | motion op | looks op =>
    cases op <;> cases h

end Primitive

namespace Scene

open World

variable {σ : Type} {ext : Extensions σ} {site : Site} {op : Opcode} {s s' : Scene σ}

/-! ### A block -/

theorem passes_modifyFrame (s : Scene σ) (i : Nat) (F : Frame → Frame) :
    s.ledger.Passes (Scene.ledger ⟨s.world, s.thread.modifyFrame i F⟩) := by
  refine passes_of_thread rfl (Thread.moved_modifyFrame _ _ _).id (.inr ?_)
  rw [Thread.channel?, Thread.channel?, (Thread.Reworked.modifyFrame s.thread i F).pending]

theorem passes_gather {report : Handle → Scene σ → Scene σ × Evaluation Value}
    (hreport : ∀ h (s : Scene σ), s.ledger.Passes (report h s).1.ledger)
    (inputs : List (String × Input)) (done : List (String × Value)) (s : Scene σ) :
    s.ledger.Passes (gather report inputs done s).1.ledger :=
  gather_induction (P := fun s r => s.ledger.Passes r.1.ledger) (fun _ _ => .refl _)
    (fun h s _ => hreport h s) (fun h s _ _ => hreport h s)
    (fun h s _ _ _ hrest => (hreport h s).trans hrest) inputs done s

theorem passes_settle (hext : ext.GivesOnce) (site : Site) (h : Handle) (op : Opcode)
    (e : Scene σ × Evaluation Args) : e.1.ledger.Passes (settle ext site h op e).1.ledger := by
  obtain ⟨s, e⟩ := e
  cases e with
  | parked => exact .refl _
  | failed fault => exact .refl _
  | value args =>
    have hr := Primitive.passes_run hext op { site with block := h } args s
    have hd : ∀ c, (Primitive.run ext op { site with block := h } args s).2 = .deferred c →
        s.ledger.Offers (Primitive.run ext op { site with block := h } args s).1.ledger c ∧
          (s.ledger.Sound →
            (Primitive.run ext op { site with block := h } args s).1.ledger.Unclaimed c) :=
      fun _ => Primitive.unclaimed_of_deferred hext
    rw [settle]
    split
    all_goals
      rename_i he
      rw [he] at hr hd
    · exact hr.trans (passes_modifyFrame _ _ _)
    · exact hr
    · exact passes_park hr (hd _ rfl).1 (hd _ rfl).2 _
    · exact hr

/-- Reporters keep to the ledger. -/
theorem passes_report (hext : ext.GivesOnce) (site : Site) (room : Nat) :
    ∀ (h : Handle) (s : Scene σ), s.ledger.Passes (report ext site room h s).1.ledger :=
  report_induction (P := fun s r => s.ledger.Passes r.1.ledger) (fun _ _ => .refl _)
    (fun _ _ => .refl _)
    (fun heval h _ s => (passes_gather heval _ _ s).trans (passes_settle hext site h _ _)) room

theorem passes_finish {o : Scene σ × Outcome} (h : s.ledger.Passes o.1.ledger)
    (hd : ∀ c, o.2 = .deferred c →
      s.ledger.Offers o.1.ledger c ∧ (s.ledger.Sound → o.1.ledger.Unclaimed c)) :
    s.ledger.Passes (finish site o).1.ledger :=
  finish_cases (P := fun r => s.ledger.Passes r.ledger)
    (fun c hc => passes_park h (hd c hc).1 (hd c hc).2 _)
    (h.trans (passes_modifyFrame o.1 site.frame fun f => { f with reported := .empty }))
    fun _ hforget => hforget.trans (passes_of_thread rfl rfl (.inr rfl))

/-- **Executing a block keeps to the ledger**, with all that its inputs run. -/
theorem passes_execute (hext : ext.GivesOnce) (k : Scheduler) (g : Graph) (s : Scene σ) :
    s.ledger.Passes (s.execute ext k g).1.ledger := by
  unfold execute
  split
  · exact .refl _
  · rename_i h _
    split
    · exact .refl _
    · rename_i b _
      have hg := passes_gather (passes_report hext ⟨k, g, h, s.thread.depth - 1⟩
        k.maxReporterDepth) b.inputs.entries [] s
      simp only
      split
      all_goals
        rename_i he
        rw [he] at hg
      · have hr := Primitive.passes_run hext b.opcode ⟨k, g, h, s.thread.depth - 1⟩
        refine passes_finish (hg.trans (hr _ _)) fun c hc => ?_
        obtain ⟨ho, hfree⟩ := Primitive.unclaimed_of_deferred hext hc
        exact ⟨hg.offers (hr _ _).next_le ho, fun hs => hfree (hg.sound hs)⟩
      · exact hg
      · exact hg

end Scene

namespace Scheduler

/-- Moving past a block changes the stack of a thread, and may end it. -/
theorem Advanced.exists_stack {k : Scheduler} {now : Span} {g : Graph} {t : Thread}
    {r : Thread × Turn} (h : Advanced k now g t r) :
    ∃ stack status, r.1 = { t with stack := stack, status := status } := by
  cases h <;> exact ⟨_, _, rfl⟩

end Scheduler

namespace Scene

open World

variable {σ : Type} {ext : Extensions σ} {s s' : Scene σ}

theorem passes_entered (s : Scene σ) : s.ledger.Passes s.entered.ledger := by
  have hwarp : (startWarp s.world.elapse.now s.thread).id = s.thread.id ∧
      (startWarp s.world.elapse.now s.thread).channel? = s.thread.channel? := by
    unfold startWarp
    split <;> exact ⟨rfl, rfl⟩
  exact passes_of_thread rfl hwarp.1 (.inr hwarp.2)

theorem Obeyed.passes {r : Scene σ × Bool} (h : Obeyed s r) : s.ledger.Passes r.1.ledger := by
  cases h with
  | unasked => exact .refl _
  | stopped => exact passes_of_thread rfl rfl (.inl rfl)
  | startsOver => exact passes_of_thread rfl rfl (.inr rfl)

theorem Proceeded.passes {k : Scheduler} {g : Graph} {top : Handle} {warp : Bool}
    {r : Scene σ × Turn} (h : Proceeded k g top warp s r) : s.ledger.Passes r.1.ledger := by
  cases h with
  | yielded | empty => exact passes_of_thread rfl rfl (.inr rfl)
  | held | elsewhere => exact .refl _
  | moved _ _ ha =>
    obtain ⟨stack, status, rfl⟩ := (Scheduler.advanced_of_advance ha).exists_stack
    exact passes_of_thread rfl rfl (.inr rfl)

/-- **A block keeps to the ledger.** -/
theorem passes_stepBlock (hext : ext.GivesOnce) (k : Scheduler) (g : Graph) (s : Scene σ) :
    s.ledger.Passes (s.stepBlock ext g k).2.1.ledger := by
  have hexec := (passes_entered s).trans (passes_execute hext k.countBlock g s.entered)
  rcases hstep : s.stepBlock ext g k with ⟨k', s', turn⟩
  cases stepped_of_stepBlock hstep with
  | empty => exact passes_of_thread rfl rfl (.inr rfl)
  | failed opcode _ hx =>
    rw [hx] at hexec
    exact hexec.trans (passes_of_thread rfl rfl (.inl rfl))
  | obeyed _ hx ho =>
    rw [hx] at hexec
    exact hexec.trans (obeyed_of_obey ho).passes
  | moved _ hx _ hp =>
    rw [hx] at hexec
    exact hexec.trans (proceeded_of_proceed hp).passes

/-- So does every primitive that it runs, up to where it is run. -/
theorem Evaluates.passes (hext : ext.GivesOnce) {site : Site} {l : List (Invocation σ)}
    (h : Evaluates ext site s l s') :
    s.ledger.Passes s'.ledger ∧ ∀ j ∈ l, s.ledger.Passes j.before.ledger := by
  induction h with
  | nil => exact ⟨.refl _, fun _ hj => by cases hj⟩
  | remember b v _ ih => exact ⟨ih.1.trans (passes_modifyFrame _ _ _), ih.2⟩
  | @report l i _ _ _ ih =>
    refine ⟨ih.1.trans (Primitive.passes_run hext i.opcode i.site i.args i.before), fun j hj => ?_⟩
    rcases List.mem_append.1 hj with hj | hj
    · exact ih.2 j hj
    · cases List.mem_singleton.1 hj
      exact ih.1

end Scene

namespace Execution

open Scene

variable {σ : Type} {e : Execution σ}

theorem passes_calls (hext : e.ext.GivesOnce) :
    ∀ j ∈ e.calls, e.scene.ledger.Passes j.before.ledger := by
  intro j hj
  cases hs : e.thread.stack with
  | nil =>
    have htop : e.entered.thread.topBlock? = none := by
      rw [Thread.topBlock?, entered, e.scene.stack_entered]
      exact congrArg (fun l : List Frame => l.head?.map (·.block)) hs
    rw [calls, invocations, htop] at hj
    cases hj
  | cons f below =>
    obtain ⟨l, hcalls, hgoes⟩ := goes hs
    have hentered : e.scene.ledger.Passes e.entered.ledger := passes_entered e.scene
    rw [hcalls] at hj
    generalize e.call? = call at hj hgoes
    generalize e.executed = r at hgoes
    cases hgoes with
    | gone _ => cases hj
    | failed fault he => exact hentered.trans ((he.passes hext).2 j (by simpa using hj))
    | parked channel h he => exact hentered.trans ((he.passes hext).2 j (by simpa using hj))
    | @ran l i b he _ _ _ =>
      rcases List.mem_append.1 hj with hj | hj
      · exact hentered.trans ((he.passes hext).2 j hj)
      · cases List.mem_singleton.1 hj
        exact hentered.trans (he.passes hext).1

end Execution

namespace Pass

open World Scene

variable {σ : Type} {ext : Extensions σ}

/-- A thread whose result has come awaits nothing. -/
theorem TakenIn.channel? {k : Scheduler} {w : World σ} {t : Thread} {slot : Slotting} {v : Value}
    {r : Thread × Bool} (h : TakenIn k w t v slot r) : r.1.channel? = none := by
  have hawake : ∀ F : Frame → Frame, (t.awake.modifyTop F).pending = none :=
    fun F => (Thread.Reworked.modifyTop _ F).pending
  rw [Thread.channel?, Option.map_eq_none_iff]
  cases h with
  | reporter h => exact hawake _
  | retired => rfl
  | advanced _ ha =>
    obtain ⟨stack, status, rfl⟩ := (Scheduler.advanced_of_advance ha).exists_stack
    exact hawake _

/-- Nobody begins to await anything when the scheduler looks for a result. -/
theorem Woken.passes {k : Scheduler} {w : World σ} {t : Thread} {r : Scene σ × Bool}
    (h : Woken k w t r) : (Scene.ledger ⟨w, t⟩).Passes r.1.ledger := by
  cases h with
  | free | waits => exact passes_of_thread rfl rfl (.inr rfl)
  | takesIn _ _ htake =>
    have htaken := takenIn_of_takeIn htake
    exact passes_of_thread rfl htaken.moved.id (.inl htaken.channel?)
  | refused => exact passes_of_thread rfl rfl (.inl rfl)

/-- **A visit keeps to the ledger**, from each of its blocks to the next. -/
theorem unfolds_letRun (hext : ext.GivesOnce) (fuel : Nat) (k : Scheduler) (w : World σ)
    (t : Thread) : Scene.Unfolds (fun s s' : Scene σ => s.ledger.Passes s'.ledger) ⟨w, t⟩
      (runExecutions ext fuel k w t) (letRun ext fuel k w t) := by
  refine runExecutions_cases (P := Scene.Unfolds _ ⟨w, t⟩) ?gone fun g _ => ?turn
  case gone =>
    refine .nil fun k' s h => ?_
    cases h
    exact passes_of_thread rfl rfl (.inl rfl)
  case turn =>
    have hturn := Scene.unfolds_executions (R := fun s s' => s.ledger.Passes s'.ledger)
      (fun s => .refl s.ledger) Ledger.Passes.trans (fun k s => passes_stepBlock hext k g s)
      fuel k ⟨onStage w t, t⟩
    refine Scene.Unfolds.framed (R := fun s s' => s.ledger.Passes s'.ledger) Ledger.Passes.trans
      (F := fun s => ⟨{ s.world with current := none }, s.thread.atRest⟩) hturn
      (.refl (Scene.ledger ⟨w, t⟩)) fun s => ?_
    refine passes_of_thread rfl s.thread.moved_atRest.id ?_
    simp only [Thread.atRest]
    split
    · exact .inl rfl
    · exact .inr rfl

theorem unfolds_visit (hext : ext.GivesOnce) (fuel : Nat) (k : Scheduler) (w : World σ)
    (t : Thread) : Scene.Unfolds (fun s s' : Scene σ => s.ledger.Passes s'.ledger) ⟨w, t⟩
      (visitExecutions ext fuel k w t) (visit ext fuel k w t) := by
  refine visitExecutions_cases (P := Scene.Unfolds _ ⟨w, t⟩) ?passed
    (fun _ => unfolds_letRun hext fuel k w t) (fun s _ he => ?wakes) (fun s _ he => ?waits)
  case passed =>
    refine .nil fun k' s h => ?_
    cases h
    exact .refl _
  case wakes =>
    have hwake := (woken_of_wake he).passes
    have hrun := unfolds_letRun hext fuel k s.world s.thread
    exact ⟨hrun.self, fun e he => hwake.trans (hrun.first e he), hrun.order,
      fun k' s' h => hwake.trans (hrun.whole k' s' h), hrun.last⟩
  case waits =>
    refine .nil fun k' s' h => ?_
    cases h
    exact (woken_of_wake he).passes.trans (passes_of_thread rfl rfl (.inr rfl))

end Pass

namespace Execution

open World Scene

variable {σ : Type} {ext : Extensions σ} {w w' : World σ} {l : List (Execution σ)}
  {P : Extensions σ → Prop}

/-- Who awaits what at some moment of a run. -/
def claims (σ : Type) : Course σ where
  View := Ledger
  world := World.ledger
  scene := Scene.ledger
  Leads := Ledger.Passes
  Each e := (e.ext.Orderly ∧ e.ext.GivesOnce) ∧ e.scene.ledger.Passes e.after.2.1.ledger
  trans := Ledger.Passes.trans
  aside h := h.mail.host.gives.passes h.quiets
  events w := (sameMail_dispatchEvents w).host.gives.passes (tends_dispatchEvents w).descends.quiets
  flush _ := (SameHost.of_eq rfl rfl).gives.passes fun t ht _ hc => ⟨t, ht, rfl, hc⟩

/-- A thread leaves the list for its turn. -/
theorem passes_leave {w : World σ} {i : Nat} {t : Thread} (ht : w.threads[i]? = some t) :
    w.ledger.Passes (Scene.ledger ⟨{ w with threads := w.threads.set i .absent }, t⟩) := by
  refine .of_threads rfl rfl fun u hu => ?_
  rcases List.mem_cons.1 hu with rfl | hu
  · exact .inr ⟨u, List.mem_append_left _ (List.mem_of_getElem? ht), rfl, rfl⟩
  · rcases Thread.mem_set hu with hu | rfl
    · exact .inr ⟨u, hu, rfl, rfl⟩
    · exact .inl rfl

/-- It is back in its place. -/
theorem passes_return (s : Scene σ) (i : Nat) : s.ledger.Passes
    ({ s.world with threads := s.world.threads.set i s.thread } : World σ).ledger := by
  refine .of_threads rfl rfl fun u hu => .inr ⟨u, ?_, rfl, rfl⟩
  exact List.mem_cons.2 (Thread.mem_set hu).symm

/-- **The turn at a place** keeps to the ledger. -/
theorem tells_visit (horderly : ext.Orderly) (hext : ext.GivesOnce) (fuel : Nat) {p : Pass σ}
    {i : Nat} {t : Thread} (ht : p.world.threads[i]? = some t) :
    (claims σ).Tells p.world (Pass.visitExecutions ext fuel p.scheduler
      { p.world with threads := p.world.threads.set i .absent } t) := by
  have hvisit := Pass.unfolds_visit hext fuel p.scheduler
    { p.world with threads := p.world.threads.set i .absent } t
  exact ⟨fun e he => ⟨Pass.ext_visitExecutions e he ▸ ⟨horderly, hext⟩, hvisit.self e he⟩,
    fun e he => (passes_leave ht).trans (hvisit.first e he), hvisit.order⟩

theorem visits_claims (horderly : ext.Orderly) (hext : ext.GivesOnce) :
    (claims σ).Visits ext := by
  refine ⟨fun fuel p i => ?_, fun {fuel p p' i} h => ?_⟩
  · unfold Log.visitAt
    cases ht : p.world.threads[i]? with
    | none => exact (Course.Telling.nil ((claims σ).aside (.refl p.world))).toTells
    | some t => exact tells_visit horderly hext fuel ht
  · unfold Log.visitAt
    obtain ⟨ht, rfl⟩ | ⟨t, k, s, ht, hv, rfl⟩ := Pass.visitAt_cases h
    · rw [ht]
      exact .nil ((claims σ).aside (.refl _))
    · rw [ht]
      have hvisit := Pass.unfolds_visit hext fuel p.scheduler
        { p.world with threads := p.world.threads.set i .absent } t
      exact ⟨tells_visit horderly hext fuel ht,
        (passes_leave ht).trans ((hvisit.whole k s hv).trans (passes_return s i)),
        fun e he => (hvisit.last k s hv e he).trans (passes_return s i)⟩

end Execution

end Stagecraft
