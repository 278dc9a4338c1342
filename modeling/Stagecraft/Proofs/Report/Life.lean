import Stagecraft.Proofs.Report.Attempt
import Stagecraft.Proofs.Report.Memos
import Stagecraft.Proofs.Schedule.Phases

/-!
# The memory of a thread

A thread executes block after block, some of them in several attempts. What its reporters have given
since control reached the current block is remembered on the top frame, and no other frame remembers
anything. That is so as long as no reporter, and no command whose result comes later, touches the
stack: a result is kept on the top frame, which need not be the one that the reporter was run for.

* `Life` : how a thread gets anywhere, with what was answered for its current block;
* `Life.remembers` : **the top frame remembers what was answered, and no other frame remembers
  anything**;
* `Life.stepBlock`, `Life.stepBlock_of_parked` : the steps of the scheduler lead a thread along its
  life.
-/

namespace Stagecraft

namespace Thread

/-- No frame remembers anything. -/
def Clear (t : Thread) : Prop := ∀ f ∈ t.stack, f.reported = .empty

theorem clear_of_nil {t : Thread} (h : t.stack = []) : t.Clear := by
  rw [Clear, h]
  exact fun f hf => by cases hf

/-- Once a frame has forgotten, only others remember anything. -/
theorem memos_forget {t : Thread} {n i : Nat} {memo : Table Handle Value}
    (h : (t.modifyFrame n fun f => { f with reported := .empty }).memos[i]? = some memo) :
    memo = .empty ∨ i ≠ n ∧ t.memos[i]? = some memo := by
  have hlen := (List.getElem?_eq_some_iff.1 h).1
  unfold modifyFrame at h hlen
  split at h
  · rename_i hn
    rw [if_pos hn] at hlen
    simp only [memos, List.length_reverse, List.length_map, List.length_modify] at hlen
    rw [memos, List.getElem?_reverse (by simpa using hlen), List.getElem?_map,
      List.getElem?_modify] at h
    simp only [List.length_map, List.length_modify] at h
    obtain ⟨f, hf, rfl⟩ := Option.map_eq_some_iff.1 h
    split at hf
    · obtain ⟨x, -, rfl⟩ := Option.map_eq_some_iff.1 hf
      exact .inl rfl
    · rename_i hne
      refine .inr ⟨by omega, ?_⟩
      rw [memos, List.getElem?_reverse (by simpa using hlen), List.getElem?_map, List.length_map]
      simpa using ⟨f, by simpa using hf, rfl⟩
  · rename_i hn
    rw [if_neg hn] at hlen
    simp only [memos, List.length_reverse, List.length_map] at hlen
    exact .inr ⟨by omega, h⟩

theorem Kept.clear_forget {t t' : Thread} {f : Frame} {rest : List Frame} (h : Kept t t')
    (hstack : t.stack = f :: rest) (hrest : ∀ x ∈ rest, x.reported = .empty) :
    (t'.modifyFrame rest.length fun x => { x with reported := .empty }).Clear := by
  intro x hx
  have hmem : x.reported ∈ (t'.modifyFrame rest.length
      fun x => { x with reported := .empty }).memos :=
    List.mem_reverse.2 (List.mem_map_of_mem hx)
  obtain ⟨i, hi⟩ := List.getElem?_of_mem hmem
  -- the frame that forgot is clear, and so are those that are new
  rcases memos_forget hi with he | ⟨hne, hi⟩
  · exact he
  rcases h i _ hi with he | hi
  · exact he
  -- and an old one is among the rest
  rw [memos, hstack, List.map_cons, List.reverse_cons] at hi
  have hlt : i < rest.length := by
    have hlen := (List.getElem?_eq_some_iff.1 hi).1
    simp only [List.length_append, List.length_reverse, List.length_map,
      List.length_singleton] at hlen
    omega
  rw [List.getElem?_append_left (by simpa using hlt)] at hi
  obtain ⟨y, hy, he⟩ := List.mem_map.1 (List.mem_reverse.1 (List.mem_of_getElem? hi))
  rw [← he, hrest y hy]

end Thread

namespace Scheduler

/-- A thread that leaves its block remembers nothing of it. -/
theorem Advanced.clear {k : Scheduler} {now : Span} {g : Graph} {t : Thread} {r : Thread × Turn}
    (h : Advanced k now g t r) (ht : ∀ f ∈ t.stack.tail, f.reported = .empty) : r.1.Clear := by
  cases h with
  | empty hs => exact Thread.clear_of_nil hs
  | next hs =>
    exact List.forall_mem_cons.2 ⟨rfl, fun x hx => ht x ((Frame.suffix_tail hs).subset hx)⟩
  | loop hs => exact fun x hx => ht x (hs.subset hx)
  | emptied => exact Thread.clear_of_nil rfl

end Scheduler

/-! ### What an evaluation leaves -/

namespace Scene

variable {σ : Type} {ext : Extensions σ} {f : Frame} {rest : List Frame} {α : Type}

/-- The stack is as it was, but for what its top frame remembers. -/
def Stands (f : Frame) (rest : List Frame) (s : Scene σ) : Prop :=
  ∃ memo, s.thread.stack = { f with reported := memo } :: rest

/-- An evaluation leaves the stack alone, but for what its top frame remembers, and parks the thread
for a reporter if at all. -/
structure Leaves (f : Frame) (rest : List Frame) (r : Scene σ × Evaluation α) : Prop where
  stands : Stands f rest r.1
  pending : r.2 = .parked → r.1.thread.status = .parked ∧
    ∃ channel h, r.1.thread.pending = some ⟨channel, .reporter h⟩

theorem Stands.leaves {s : Scene σ} (h : Stands f rest s) {e : Evaluation α} (he : e ≠ .parked) :
    Leaves f rest (s, e) :=
  ⟨h, fun hp => absurd hp he⟩

theorem leaves_gather {report : Handle → Scene σ → Scene σ × Evaluation Value}
    {calls : Handle → Scene σ → List (Invocation σ)}
    (hreport : ∀ {h s}, Stands f rest s → (∀ i ∈ calls h s, i.Steady ext) →
      Leaves f rest (report h s))
    (inputs : List (String × Input)) :
    ∀ (done : List (String × Value)) {s : Scene σ}, Stands f rest s →
      (∀ i ∈ gatherCalls report calls inputs s, i.Steady ext) →
      Leaves f rest (gather report inputs done s) := by
  induction inputs with
  | nil => exact fun done s hs _ => hs.leaves (by simp)
  | cons e inputs ih =>
    obtain ⟨name, input⟩ := e
    cases input with
    | literal v => exact fun done s hs hsteady => ih ((name, v) :: done) hs hsteady
    | branch h => exact fun done s hs hsteady => ih done hs hsteady
    | reporter h =>
      intro done s hs hsteady
      rw [gatherCalls] at hsteady
      have hfirst := hreport hs fun i hi => hsteady i (List.mem_append_left _ hi)
      rw [gather]
      rcases hr : report h s with ⟨s₁, e⟩
      rw [hr] at hfirst hsteady
      cases e with
      | value v => exact ih _ hfirst.stands fun i hi => hsteady i (List.mem_append_right _ hi)
      | parked => exact ⟨hfirst.stands, fun _ => hfirst.pending rfl⟩
      | failed fault => exact hfirst.stands.leaves (by simp)

theorem leaves_settle {site : Site} (hframe : site.frame = rest.length) {h : Handle} {op : Opcode}
    {r : Scene σ × Evaluation Args} (hr : Leaves f rest r)
    (hsteady : ∀ i ∈ ownCall site h op r, i.Steady ext) :
    Leaves f rest (settle ext site h op r) := by
  obtain ⟨s, e⟩ := r
  cases e with
  | parked => exact ⟨hr.stands, fun _ => hr.pending rfl⟩
  | failed fault => exact hr.stands.leaves (by simp)
  | value args =>
    have hown : Invocation.Steady ext ⟨{ site with block := h }, op, args, s⟩ :=
      hsteady _ (List.mem_singleton_self _)
    obtain ⟨memo, hmemo⟩ := hr.stands
    have hstack := hown.trans hmemo
    rw [Invocation.result] at hstack
    rw [settle]
    rcases hrun : Primitive.run ext op { site with block := h } args s with ⟨s₁, o⟩
    rw [hrun] at hstack
    have hstands : Stands f rest s₁ := ⟨memo, hstack⟩
    cases o with
    | value v =>
      have hkept : Stands f rest (s₁.remember site.frame h v) :=
        ⟨memo.insert h v, by rw [hframe, stack_remember h v hstack]⟩
      exact hkept.leaves (by simp)
    | done => exact hstands.leaves (by simp)
    | deferred channel => exact ⟨hstands, fun _ => ⟨rfl, channel, h, rfl⟩⟩
    | failed fault => exact hstands.leaves (by simp)

/-- **The evaluation of a reporter leaves the stack alone.** This is an induction on the room. -/
theorem leaves_report {site : Site} (hframe : site.frame = rest.length) (room : Nat) :
    ∀ {h : Handle} {s : Scene σ}, Stands f rest s →
      (∀ i ∈ reportCalls ext site room h s, i.Steady ext) →
      Leaves f rest (report ext site room h s) := by
  induction room with
  | zero =>
    intro h s hs _
    unfold report
    split
    · exact hs.leaves (by simp)
    · split
      · exact hs.leaves (by simp)
      · split <;> exact hs.leaves (by simp)
  | succ room ih =>
    intro h s hs hsteady
    unfold reportCalls at hsteady
    unfold report
    split
    · exact hs.leaves (by simp)
    · rename_i hmemo
      split
      · exact hs.leaves (by simp)
      · rename_i b hget
        split
        · exact hs.leaves (by simp)
        · rename_i hmenu
          simp only [hmemo, hget, hmenu] at hsteady
          have hinputs := leaves_gather (fun hs hb => ih hs hb) b.inputs.entries [] hs
            fun i hi => hsteady i (List.mem_append_left _ hi)
          exact leaves_settle hframe hinputs fun i hi => hsteady i (List.mem_append_right _ hi)

end Scene

namespace Attempt

variable {σ : Type} {ext : Extensions σ} {g : Graph} (a : Attempt σ g)

theorem leaves (hsteady : ∀ i ∈ a.calls ext, i.Steady ext) :
    Scene.Leaves a.frame a.rest (a.evaluation ext) := by
  have hframe : a.site.frame = a.rest.length := rfl
  exact Scene.leaves_gather (fun hs hb => Scene.leaves_report hframe _ hs hb) _ []
    ⟨a.frame.reported, a.stack⟩ hsteady

/-- Once the primitive of the block is run, no frame remembers anything. -/
theorem clear_execution (hext : ext.Oblivious) (hrest : ∀ f ∈ a.rest, f.reported = .empty)
    (hsteady : ∀ i ∈ a.calls ext, i.Steady ext) {args : Args} {s : Scene σ}
    (he : a.evaluation ext = (s, .value args))
    (hdone : ∀ channel, (a.run ext args s).2 ≠ .deferred channel) :
    (a.execution ext).1.thread.Clear := by
  have hleaves := a.leaves hsteady
  rw [he] at hleaves
  obtain ⟨memo, hstack⟩ := hleaves.stands
  have hkept : s.thread.Kept (a.run ext args s).1.thread := Primitive.kept_run _ _ _ hext _
  have hclear := hkept.clear_forget hstack hrest
  rw [execution_eq, he]
  simp only
  rcases hrun : a.run ext args s with ⟨s₁, o⟩
  rw [hrun] at hclear hdone
  cases o with
  | deferred channel => exact absurd rfl (hdone channel)
  | done => exact hclear
  | failed fault => exact hclear
  | value v =>
    rw [Scene.finish]
    split <;> exact hclear

end Attempt

/-! ### Results that came -/

namespace Pass

variable {σ : Type} (scheduler : Scheduler) {w : World σ} {t : Thread} {v : Value}

theorem thread_wake {p : Pending} (hp : t.pending = some p)
    (hv : (w.poll p.channel).2 = some (.resolved v)) :
    (wake scheduler w t).1.thread = (takeIn scheduler (w.poll p.channel).1 t p.slot v).1 := by
  unfold wake
  rcases hpoll : w.poll p.channel with ⟨w₁, d⟩
  rw [hpoll] at hv
  cases hv
  simp only [hp, hpoll]

/-- The result of a reporter is remembered by the top frame. -/
theorem stack_wake_reporter {channel : Nat} {h : Handle} {f : Frame} {rest : List Frame}
    (hp : t.pending = some ⟨channel, .reporter h⟩) (hstack : t.stack = f :: rest)
    (hv : (w.poll channel).2 = some (.resolved v)) :
    (wake scheduler w t).1.thread.stack =
      { f with reported := f.reported.insert h v } :: rest := by
  rw [thread_wake scheduler hp hv]
  simp only [takeIn, Thread.modifyTop, hstack]

/-- With the result of a command, the thread leaves the block. -/
theorem clear_wake_command {channel : Nat} (hp : t.pending = some ⟨channel, .command⟩)
    (hbelow : ∀ f ∈ t.stack.tail, f.reported = .empty)
    (hv : (w.poll channel).2 = some (.resolved v)) : (wake scheduler w t).1.thread.Clear := by
  rw [thread_wake scheduler hp hv]
  unfold takeIn
  simp only
  split
  · -- the program is gone, so the thread ends
    exact Thread.clear_of_nil rfl
  · refine (Scheduler.advanced_of_advance rfl).clear ?_
    unfold Thread.modifyTop
    split
    · rename_i hstack
      rw [hstack] at hbelow
      exact hbelow
    · exact hbelow

end Pass

/-! ### The life of a thread -/

/-- How a thread of a program gets anywhere, and what was answered for its current block since
control reached it. Reporters leave the stack alone, and so does a command whose result comes later.
What else happens in the world at any time is left open. -/
inductive Life {σ : Type} (ext : Extensions σ) (g : Graph) (limit : Nat) :
    Thread → List (Answered σ) → Prop
  /-- It starts, starts over or has ended. -/
  | start {t : Thread} : t.Clear → Life ext g limit t []
  /-- Nothing happens to its stack. -/
  | between {t t' : Thread} {past : List (Answered σ)} :
      Life ext g limit t past → t'.stack = t.stack → Life ext g limit t' past
  /-- It executes its block. -/
  | ran {past : List (Answered σ)} (a : Attempt σ g) {args : Args} {s : Scene σ} :
      Life ext g limit a.before.thread past → (∀ i ∈ a.calls ext, i.Steady ext) →
      a.evaluation ext = (s, .value args) →
      (∀ channel, (a.run ext args s).2 ≠ .deferred channel) →
      Life ext g limit (a.execution ext).1.thread []
  /-- It leaves its block. -/
  | left {t : Thread} (scheduler : Scheduler) (now : Span) :
      Life ext g limit t [] → Life ext g limit (scheduler.advance now g t).1 []
  /-- It had to wait for a reporter, and the result came. -/
  | waited {past : List (Answered σ)} (a : Attempt σ g) {s : Scene σ} {w : World σ} {t : Thread}
      {p : Pending} {v : Value} (scheduler : Scheduler) :
      Life ext g limit a.before.thread past → limit ≤ a.scheduler.maxReporterDepth →
      (∀ i ∈ a.calls ext, i.Steady ext) → a.evaluation ext = (s, .parked) →
      t.stack = s.thread.stack → t.pending = s.thread.pending → t.pending = some p →
      (w.poll p.channel).2 = some (.resolved v) →
      Life ext g limit (Pass.wake scheduler w t).1.thread (past ++ a.answered ext v)
  /-- It had to wait for its block itself, and the result came. -/
  | completed {past : List (Answered σ)} (a : Attempt σ g) {args : Args} {s s' : Scene σ}
      {w : World σ} {t : Thread} {channel : Nat} {v : Value} (scheduler : Scheduler) :
      Life ext g limit a.before.thread past → (∀ i ∈ a.calls ext, i.Steady ext) →
      a.evaluation ext = (s, .value args) → a.run ext args s = (s', .deferred channel) →
      s'.thread.stack = s.thread.stack → t.stack = s'.thread.stack →
      t.pending = some ⟨channel, .command⟩ → (w.poll channel).2 = some (.resolved v) →
      Life ext g limit (Pass.wake scheduler w t).1.thread []

/-- Only the top frame remembers anything, and it remembers what was answered for its block, which
is the beginning of what the block needs. -/
structure Remembers {σ : Type} (ext : Extensions σ) (g : Graph) (limit : Nat) (t : Thread)
    (past : List (Answered σ)) : Prop where
  below : ∀ f ∈ t.stack.tail, f.reported = .empty
  recalls : ∀ a : Attempt σ g, a.before.thread.stack = t.stack →
    (∀ h ∈ plugged a.block.inputs.entries, g.nests limit h = true) →
    (∀ e ∈ past, e.1.Behaves ext) →
    Scene.Recalls g a.frame a.rest past a.before ∧ ran past <+: g.order limit a.block

namespace Remembers

variable {σ : Type} {ext : Extensions σ} {g : Graph} {limit : Nat} {t : Thread}
  {past : List (Answered σ)}

theorem of_clear (h : t.Clear) : Remembers ext g limit t [] := by
  refine ⟨fun f hf => h f (List.mem_of_mem_tail hf), fun a ha _ _ => ⟨?_, List.nil_prefix⟩⟩
  have hempty : a.frame.reported = .empty := h a.frame (by rw [← ha, a.stack]; exact .head _)
  refine ⟨⟨a.frame.reported, a.stack, fun h => ?_⟩, List.nodup_nil, fun e he => by cases he⟩
  rw [hempty]
  rfl

theorem rest {a : Attempt σ g} (h : Remembers ext g limit a.before.thread past) :
    ∀ f ∈ a.rest, f.reported = .empty :=
  fun f hf => h.below f (by rw [a.stack]; exact hf)

/-- The result of the reporter that an attempt had to wait for adds to what is remembered. -/
theorem waited {a : Attempt σ g} (h : Remembers ext g limit a.before.thread past)
    (hlimit : limit ≤ a.scheduler.maxReporterDepth) (hsteady : ∀ i ∈ a.calls ext, i.Steady ext)
    {s : Scene σ} (he : a.evaluation ext = (s, .parked)) {w : World σ} {t : Thread}
    (hstack : t.stack = s.thread.stack) (hpending : t.pending = s.thread.pending) {p : Pending}
    (hp : t.pending = some p) {v : Value} (hv : (w.poll p.channel).2 = some (.resolved v))
    (scheduler : Scheduler) :
    Remembers ext g limit (Pass.wake scheduler w t).1.thread (past ++ a.answered ext v) := by
  have hleaves := a.leaves hsteady
  rw [he] at hleaves
  obtain ⟨memo, hmemo⟩ := hleaves.stands
  obtain ⟨-, channel, r, hr⟩ := hleaves.pending rfl
  have hslot : p = ⟨channel, .reporter r⟩ := Option.some.inj ((hp.symm.trans hpending).trans hr)
  subst hslot
  have hwake := Pass.stack_wake_reporter scheduler hp (hstack.trans hmemo) hv
  refine ⟨fun f hf => ?_, fun a' ha' hnests hbehaves => ?_⟩
  · rw [hwake] at hf
    exact h.rest f hf
  · -- it is the same block on the same frame
    rw [hwake, a'.stack] at ha'
    obtain ⟨hframe, hrest⟩ := List.cons.inj ha'
    have hblock : a'.block = a.block := by
      have hlive := a'.live
      rw [hframe] at hlive
      exact Option.some.inj (hlive.symm.trans a.live)
    rw [hblock] at hnests ⊢
    obtain ⟨hpast, hcalls⟩ := List.forall_mem_append.1 hbehaves
    obtain ⟨hrecalls, hsofar⟩ := h.recalls a rfl hnests hpast
    -- the attempt tells which reporter has to be waited for
    have hproceeds := a.proceeds hrecalls hlimit hnests fun i hi =>
      hcalls _ (List.mem_map_of_mem hi)
    rw [he] at hproceeds
    unfold Attempt.answered
    generalize a.calls ext = calls at hproceeds ⊢
    cases hproceeds with
    | parked new hnew hi hnext hs hfed hpark _ =>
      rename_i i _ _
      rw [eraseDups_append_of_isPrefix hsofar] at hnext
      -- and the result that came is for that one
      obtain ⟨-, hblock⟩ := Pending.mk.inj (Option.some.inj (hr.symm.trans hpark))
      cases hblock
      have hfresh : i.block ∉ ran (past ++ new) := by
        have hnodup := hnext.sublist.nodup (nodup_eraseDups _)
        exact fun hm => hnodup.disjoint hm (List.mem_singleton_self _)
      have hinsert : Scene.Recalls g a.frame a.rest (past ++ new ++ [(i, v)]) a'.before :=
        hs.insert hfresh hfed hmemo (by rw [a'.stack, hframe, hrest])
      rw [Invocation.map_answer_concat hnew hi, ← List.append_assoc]
      refine ⟨⟨?_, hinsert.nodup, hinsert.fed⟩, ?_⟩
      · obtain ⟨m, hm, hrecall⟩ := hinsert.memo
        refine ⟨m, ?_, hrecall⟩
        rw [hm, hframe, hrest]
      · rw [ran_append]
        exact hnext

end Remembers

/-- **The top frame remembers what was answered, and no other frame remembers anything.** -/
theorem Life.remembers {σ : Type} {ext : Extensions σ} (hext : ext.Oblivious) {g : Graph}
    {limit : Nat} {t : Thread} {past : List (Answered σ)} (h : Life ext g limit t past) :
    Remembers ext g limit t past := by
  induction h with
  | start hclear => exact .of_clear hclear
  | between _ hs ih => exact ⟨hs ▸ ih.below, fun a ha => ih.recalls a (ha.trans hs)⟩
  | ran a _ hsteady he hdone ih => exact .of_clear (a.clear_execution hext ih.rest hsteady he hdone)
  | left scheduler now _ ih => exact .of_clear ((Scheduler.advanced_of_advance rfl).clear ih.below)
  | waited a scheduler _ hlimit hsteady he hs hpending hp hv ih =>
    exact ih.waited hlimit hsteady he hs hpending hp hv scheduler
  | completed a scheduler _ hsteady he hrun hkeeps hs hp hv ih =>
    have hleaves := a.leaves hsteady
    rw [he] at hleaves
    obtain ⟨memo, hmemo⟩ := hleaves.stands
    refine .of_clear (Pass.clear_wake_command scheduler hp (fun f hf => ih.rest f ?_) hv)
    rw [hs, hkeeps, hmemo] at hf
    exact hf

/-! ### The scheduler -/

namespace Life

variable {σ : Type} {ext : Extensions σ} {g : Graph} {limit : Nat} {past : List (Answered σ)}
  {s : Scene σ}

theorem obeyed (h : Life ext g limit s.thread []) {r : Scene σ × Bool} (ho : Scene.Obeyed s r) :
    Life ext g limit r.1.thread [] := by
  cases ho with
  | unasked => exact h
  | stopped => exact .start (Thread.clear_of_nil rfl)
  | startsOver => exact h.between rfl

theorem proceeded (h : Life ext g limit s.thread []) {scheduler : Scheduler} {top : Handle}
    {warp : Bool} {r : Scene σ × Turn} (hp : Scene.Proceeded scheduler g top warp s r) :
    Life ext g limit r.1.thread [] := by
  cases hp with
  | yielded | empty => exact h.between rfl
  | held | elsewhere => exact h
  | moved _ _ ha =>
    have hleft := h.left scheduler s.world.now
    rwa [ha] at hleft

end Life

namespace Attempt

variable {σ : Type} {ext : Extensions σ} {g : Graph} {s : Scene σ} {scheduler : Scheduler}

/-- A step of the scheduler makes an attempt at the top block. -/
structure Of (a : Attempt σ g) (scheduler : Scheduler) (s : Scene σ) : Prop where
  scene : a.before = ⟨s.world.elapse, Scene.startWarp s.world.elapse.now s.thread⟩
  scheduler : a.scheduler = scheduler.countBlock

theorem Of.stack {a : Attempt σ g} (h : a.Of scheduler s) :
    a.before.thread.stack = s.thread.stack := by
  rw [h.scene]
  unfold Scene.startWarp
  simp only
  split <;> rfl

/-- It executes the block as the attempt does. -/
theorem Of.execute {a : Attempt σ g} (h : a.Of scheduler s) :
    s.entered.execute ext scheduler.countBlock g = a.execution ext := by
  rw [execution, h.scene, h.scheduler]
  rfl

/-- There is a block on top. -/
theorem Of.topBlock? {a : Attempt σ g} (h : a.Of scheduler s) : s.thread.topBlock? ≠ none := by
  rw [Thread.topBlock?, ← h.stack, a.stack]
  exact Option.some_ne_none a.frame.block

end Attempt

namespace Life

variable {σ : Type} {ext : Extensions σ} {g : Graph} {limit : Nat} {past : List (Answered σ)}
  {s s₁ : Scene σ} {scheduler : Scheduler}

/-- **A step of the scheduler leads a thread along its life.** -/
theorem stepBlock (h : Life ext g limit s.thread past) {a : Attempt σ g} (ha : a.Of scheduler s)
    (hsteady : ∀ i ∈ a.calls ext, i.Steady ext) {args : Args}
    (he : a.evaluation ext = (s₁, .value args))
    (hdone : ∀ channel, (a.run ext args s₁).2 ≠ .deferred channel) :
    Life ext g limit (s.stepBlock ext g scheduler).2.1.thread [] := by
  have hran : Life ext g limit (a.execution ext).1.thread [] :=
    .ran a (h.between ha.stack) hsteady he hdone
  rw [← ha.execute] at hran
  rcases hstep : s.stepBlock ext g scheduler with ⟨k, s', turn⟩
  cases Scene.stepped_of_stepBlock hstep with
  | empty htop => exact absurd htop ha.topBlock?
  | failed => exact .start (Thread.clear_of_nil rfl)
  | obeyed _ hx ho =>
    rw [hx] at hran
    exact obeyed hran (Scene.obeyed_of_obey ho)
  | moved _ hx _ hp =>
    rw [hx] at hran
    exact proceeded hran (Scene.proceeded_of_proceed hp)

/-- A thread that has to wait for a reporter is left as it is, unless it was asked to end. -/
theorem stepBlock_of_parked {a : Attempt σ g} (ha : a.Of scheduler s)
    (hsteady : ∀ i ∈ a.calls ext, i.Steady ext) (he : a.evaluation ext = (s₁, .parked)) :
    (s.stepBlock ext g scheduler).2.1.thread.stack = [] ∨
      (s.stepBlock ext g scheduler).2.1.thread.stack = s₁.thread.stack ∧
      (s.stepBlock ext g scheduler).2.1.thread.pending = s₁.thread.pending := by
  have hexecution : a.execution ext = (s₁, none) := by rw [a.execution_eq, he]
  have hleaves := a.leaves hsteady
  rw [he] at hleaves
  have hparked : s₁.thread.status = .parked := (hleaves.pending rfl).1
  have hexecuted := ha.execute.trans hexecution
  rcases hstep : s.stepBlock ext g scheduler with ⟨k, s', turn⟩
  cases Scene.stepped_of_stepBlock hstep with
  | empty htop => exact absurd htop ha.topBlock?
  | failed _ _ hx => cases hexecuted.symm.trans hx
  | obeyed _ hx ho =>
    cases hexecuted.symm.trans hx
    cases Scene.obeyed_of_obey ho with
    | stopped => exact .inl rfl
    | startsOver => exact .inr ⟨rfl, rfl⟩
  | moved _ hx _ hp =>
    cases hexecuted.symm.trans hx
    cases Scene.proceeded_of_proceed hp with
    | held => exact .inr ⟨rfl, rfl⟩
    | yielded hst | empty hst | moved hst | elsewhere hst => cases hparked.symm.trans hst

end Life

end Stagecraft
