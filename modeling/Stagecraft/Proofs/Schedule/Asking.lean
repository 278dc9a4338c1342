import Stagecraft.Proofs.Schedule.Desk
import Stagecraft.Proofs.Schedule.Standing

/-!
# Asking

A block that asks puts a prompt in line and parks its thread on the answer. Nothing else that a turn
does puts prompts in line or lets a thread wait for something: threads are started, stopped and
started over, and when everything is stopped the prompts are dropped and nobody waits any more. So a
turn asks once at most, and with its last block.

* `Scene.Silent` : a stretch of a turn in which nothing is asked;
* `Scene.Asks` : a stretch that ends with a question;
* `Scene.puts_execute` : **a block asks once at most, and does nothing more then**;
* `Execution.Poses` : the block asks, and its turn is over;
* `Scene.sits_takeTurn`, `Pass.sits_letRun` : **a turn asks nothing, or its last block asks**.
-/

namespace Stagecraft

namespace Scene

open World

variable {σ : Type} {s s' s'' : Scene σ}

/-- The lists are left alone, and so are prompts and results. -/
theorem minds_of_thread (ht : s'.world.threads = s.world.threads)
    (hs : s'.world.spawned = s.world.spawned) (hm : SameMail s.world s'.world)
    (h : s.desk.Stems s'.thread) : s.desk.Minds s'.desk := by
  refine .of_stems hm.nextChannel hm.prompts (result_eq hm) fun u hu => ?_
  rcases List.mem_cons.1 hu with rfl | hu
  · exact h
  · refine Desk.stems_of_mem (List.mem_cons_of_mem _ ?_)
    rwa [World.desk, ht, hs] at hu

/-- A stretch of a turn in which nothing is asked: if the thread waits for nothing, then it does not
begin to wait, and nobody else does. -/
def Silent (s s' : Scene σ) : Prop :=
  s.thread.channel? = none → s'.thread.channel? = none ∧ s.desk.Minds s'.desk

namespace Silent

theorem refl (s : Scene σ) : Silent s s := fun hs => ⟨hs, .refl _⟩

theorem trans (h : Silent s s') (h' : Silent s' s'') : Silent s s'' := fun hs =>
  ⟨(h' (h hs).1).1, (h hs).2.trans (h' (h hs).1).2⟩

/-- The lists are left alone. -/
theorem of_lists (ht : s'.world.threads = s.world.threads)
    (hs : s'.world.spawned = s.world.spawned) (hm : SameMail s.world s'.world)
    (h : s.thread.channel? = none → s'.thread.channel? = none) : Silent s s' :=
  fun hidle => ⟨h hidle, minds_of_thread ht hs hm (.inl (h hidle))⟩

theorem of_thread (s : Scene σ) {t : Thread} (h : s.thread.channel? = none → t.channel? = none) :
    Silent s ⟨s.world, t⟩ :=
  of_lists rfl rfl (.refl _) h

/-- Other threads are started and stopped. -/
theorem of_descends {t : Thread} {w w' : World σ} (h : Descends w w') (hm : SameMail w w') :
    Silent ⟨w, t⟩ ⟨w', t⟩ := by
  refine fun ht => ⟨ht, .of_stems hm.nextChannel hm.prompts (result_eq hm) fun t' ht' => ?_⟩
  rcases List.mem_cons.1 ht' with rfl | ht'
  · exact .inl ht
  · exact h.stems (fun t ht => Desk.stems_of_mem (List.mem_cons_of_mem _ ht)) t' ht'

theorem stopAll (w : World σ) (t : Thread) : Silent ⟨w, t⟩ ⟨w.stopAll, t⟩ := by
  obtain ⟨hn, hp, hlists⟩ := w.cleared_stopAll
  refine fun ht => ⟨ht, .of_cleared hn hp fun u hu => ?_⟩
  rcases List.mem_cons.1 hu with rfl | hu
  · exact ht
  · exact hlists u hu

end Silent

variable {site : Site} {op : Opcode}

/-- **Only a block that asks is not silent.** -/
theorem Does.silent (h : Does site op s s') (hop : op ≠ .sensing .askAndWait) : Silent s s' := by
  have hlookup : ∀ id name kind, Silent ⟨s.world, s.thread⟩
      ⟨(s.world.lookupVariable s.thread.actor id name kind).1, s.thread⟩ := fun id name kind =>
    .of_descends (effect_lookupVariable ..).tends.descends (sameMail_lookupVariable ..)
  cases h with
  | shift hs =>
    refine .of_thread s fun ht => ?_
    rwa [Thread.channel?, hs.reworked.pending]
  | aside hw => exact .of_lists hw.threads hw.spawned hw.mail id
  | ask text hask => exact absurd hask hop
  | restyle f _ => exact .of_lists rfl rfl ⟨rfl, rfl, rfl, rfl⟩ id
  | lookup id name kind => exact hlookup id name kind
  | write id name kind f _ _ =>
    exact (hlookup id name kind).trans (.of_lists rfl rfl ⟨rfl, rfl, rfl, rfl⟩ fun h => h)
  | request r _ => exact .of_lists rfl rfl ⟨rfl, rfl, rfl, rfl⟩ id
  | startHats hat fields only =>
    exact .of_descends (tends_startHats ..).descends (sameMail_startHats ..)
  | stopActor => exact .of_descends (tends_stopActor ..).descends (sameMail_stopActor ..)
  | createClone source _ =>
    exact .of_descends (tends_createClone ..).descends (sameMail_createClone ..)
  | deleteClone _ _ _ =>
    exact .of_descends (tends_deleteClone ..).descends (sameMail_deleteClone ..)
  | stopAll _ => exact .stopAll s.world s.thread

theorem Quits.silent (h : Quits site s s') : Silent s s' := by
  cases h with
  | stays => exact .refl s
  | stopScript => exact .of_thread s id
  | retire => exact .of_thread s fun _ => rfl

theorem Works.silent (h : Works site op s s') (hop : op ≠ .sensing .askAndWait) : Silent s s' :=
  h.along Silent.refl Silent.trans (fun hd => hd.silent hop) Quits.silent

/-! ### A question -/

/-- **Asking puts a prompt at the end of the line**, and the thread waits for its answer. -/
theorem queries_ask (s : Scene σ) (text : String) (slot : Slotting) :
    s.desk.Queries (park ⟨(s.world.ask text).1, s.thread⟩ s.world.nextChannel slot).desk
      ⟨text, s.world.nextChannel⟩ s.thread.id := by
  let asked : Scene σ := park ⟨(s.world.ask text).1, s.thread⟩ s.world.nextChannel slot
  have hnew : asked.desk.result s.world.nextChannel = none := by
    change asked.world.result s.world.nextChannel = none
    simp [asked, park, ask, openChannel, result, poll, Channel.poll, Channel.fresh]
  have hold : ∀ c, c ≠ s.world.nextChannel → asked.desk.result c = s.desk.result c := fun c hc =>
    result_congr (Table.get?_insert_of_ne _ hc _)
  have hawaits : ∀ c id, asked.desk.Awaits c id →
      s.desk.Awaits c id ∨ c = s.world.nextChannel ∧ id = s.thread.id := by
    rintro c _ ⟨t, ht, rfl, hc⟩
    rcases List.mem_cons.1 ht with rfl | ht
    · cases hc
      exact .inr ⟨rfl, rfl⟩
    · exact .inl ⟨t, List.mem_cons_of_mem _ ht, rfl, hc⟩
  refine ⟨rfl, rfl, fun q hq => ?_, hawaits, fun hD => ?_⟩
  · exact (List.mem_append.1 hq).imp_right List.mem_singleton.1
  · -- the channel is new
    have hlt : ∀ c id, s.desk.Awaits c id → c ≠ s.world.nextChannel := fun c id ha =>
      Nat.ne_of_lt (hD.given c id ha)
    refine
      { order := List.pairwise_append.2 ⟨hD.order, List.pairwise_singleton _ _, fun p hp q hq => ?_⟩
        lt := fun p hp => ?_
        unanswered := fun p hp => ?_
        parked := fun t ht c hc => ?_
        given := fun c id ha => ?_
        once := fun c id id' ha ha' => ?_
        heard := fun c id ha => ?_ }
    · rw [List.mem_singleton.1 hq]
      exact hD.lt p hp
    · rcases List.mem_append.1 hp with hp | hp
      · exact Nat.lt_succ_of_lt (hD.lt p hp)
      · rw [List.mem_singleton.1 hp]
        exact Nat.lt_succ_self _
    · rcases List.mem_append.1 hp with hp | hp
      · exact (hold _ (Nat.ne_of_lt (hD.lt p hp))).trans (hD.unanswered p hp)
      · rw [List.mem_singleton.1 hp]
        exact hnew
    · rcases List.mem_cons.1 ht with rfl | ht
      · rfl
      · exact hD.parked t (List.mem_cons_of_mem _ ht) c hc
    · rcases hawaits c id ha with ha | ⟨rfl, -⟩
      · exact Nat.lt_succ_of_lt (hD.given c id ha)
      · exact Nat.lt_succ_self _
    · rcases hawaits c id ha with hold | ⟨hc, rfl⟩
      · rcases hawaits c id' ha' with hold' | ⟨hc', -⟩
        · exact hD.once c id id' hold hold'
        · exact absurd hc' (hlt c id hold)
      · rcases hawaits c id' ha' with hold' | ⟨-, rfl⟩
        · exact absurd hc (hlt c id' hold')
        · rfl
    · rcases hawaits c id ha with ha | ⟨rfl, -⟩
      · rcases hD.heard c id ha with ⟨p, hp, hc⟩ | ⟨a, hr⟩
        · exact .inl ⟨p, List.mem_append_left _ hp, hc⟩
        · exact .inr ⟨a, (hold c (hlt c id ha)).trans hr⟩
      · exact .inl ⟨_, List.mem_append_right _ (List.mem_singleton_self _), rfl⟩

/-- A stretch of a turn that ends with a question: the thread is parked on the answer. -/
inductive Asks (s : Scene σ) : Scene σ → Prop
  | intro {s₁ : Scene σ} (text : String) (slot : Slotting) : Silent s s₁ →
      Asks s (park ⟨(s₁.world.ask text).1, s₁.thread⟩ s₁.world.nextChannel slot)

theorem Silent.asks (h : Silent s s') (h' : s'.Asks s'') : s.Asks s'' := by
  obtain ⟨text, slot, hs⟩ := h'
  exact ⟨text, slot, h.trans hs⟩

/-- How evaluating something comes out: it has to be waited for just when a question was asked. -/
inductive Gives {α : Type} (s : Scene σ) : Scene σ × Evaluation α → Prop
  | value {s' : Scene σ} (a : α) : Silent s s' → Gives s (s', .value a)
  | failed {s' : Scene σ} (fault : Fault) : Silent s s' → Gives s (s', .failed fault)
  | parked {s' : Scene σ} : s.Asks s' → Gives s (s', .parked)

/-- How executing a block comes out. -/
inductive Puts (s : Scene σ) : Scene σ × Option Fault → Prop
  | silent {s' : Scene σ} (fault : Option Fault) : Silent s s' → Puts s (s', fault)
  | asks {s' : Scene σ} : s.Asks s' → Puts s (s', none)

theorem Silent.gives {α : Type} {r : Scene σ × Evaluation α} (h : Silent s s') (h' : s'.Gives r) :
    s.Gives r := by
  cases h' with
  | value a hs => exact .value a (h.trans hs)
  | failed fault hs => exact .failed fault (h.trans hs)
  | parked hs => exact .parked (h.asks hs)

end Scene

namespace Primitive

open Scene

variable {σ : Type} (site : Site) (args : Args) (s : Scene σ)

/-- Only for an answer has a built-in primitive to wait. -/
theorem opcode_of_deferred {op : Opcode} {c : Nat}
    (h : (run .empty op site args s).2 = .deferred c) : op = .sensing .askAndWait := by
  cases op with
  | sensing op =>
    cases op with
    | askAndWait => rfl
    | _ => cases h
  | custom name => cases h
  | control op | event op | data op | operator op | procedure op | motion op | looks op =>
    cases op <;> cases h

/-- A primitive that does not ask is silent, and nothing has to be waited for. -/
theorem silent_run {op : Opcode} (hop : op ≠ .sensing .askAndWait) :
    Silent s (run .empty op site args s).1 ∧ ∀ c, (run .empty op site args s).2 ≠ .deferred c :=
  ⟨(works_run site op args s).silent hop, fun _ hc => hop (opcode_of_deferred site args s hc)⟩

end Primitive

namespace Scene

variable {σ : Type} {s s' : Scene σ}

theorem silent_modifyFrame (s : Scene σ) (i : Nat) (F : Frame → Frame) :
    Silent s ⟨s.world, s.thread.modifyFrame i F⟩ :=
  .of_thread s fun hs => by
    rwa [Thread.channel?, (Thread.Reworked.modifyFrame s.thread i F).pending]

theorem gives_gather {report : Handle → Scene σ → Scene σ × Evaluation Value}
    (hreport : ∀ h (s : Scene σ), s.Gives (report h s)) (inputs : List (String × Input)) :
    ∀ (done : List (String × Value)) (s : Scene σ), s.Gives (gather report inputs done s) := by
  induction inputs with
  | nil => exact fun _ s => .value _ (.refl s)
  | cons e rest ih =>
    intro done s
    obtain ⟨name, input⟩ := e
    cases input with
    | literal v => exact ih _ s
    | branch h => exact ih _ s
    | reporter h =>
      have hr := hreport h s
      rw [gather]
      generalize report h s = r at hr
      cases hr with
      | value v hs => exact hs.gives (ih _ _)
      | failed fault hs => exact .failed fault hs
      | parked hs => exact .parked hs

theorem gives_settle (site : Site) (h : Handle) (op : Opcode) {e : Scene σ × Evaluation Args}
    (he : s.Gives e) : s.Gives (settle .empty site h op e) := by
  cases he with
  | failed fault hs => exact .failed fault hs
  | parked hs => exact .parked hs
  | @value s₁ args hs =>
    by_cases hop : op = .sensing .askAndWait
    · subst hop
      exact .parked ⟨args.text "QUESTION", .reporter h, hs⟩
    · obtain ⟨hrun, hdeferred⟩ := Primitive.silent_run { site with block := h } args s₁ hop
      rw [settle]
      rcases hr : Primitive.run .empty op { site with block := h } args s₁ with ⟨s₂, o⟩
      rw [hr] at hrun hdeferred
      cases o with
      | value v => exact .value v ((hs.trans hrun).trans (silent_modifyFrame _ _ _))
      | done => exact .value _ (hs.trans hrun)
      | deferred c => exact absurd rfl (hdeferred c)
      | failed fault => exact .failed fault (hs.trans hrun)

/-- A reporter asks once at most, and last. -/
theorem gives_report (site : Site) (room : Nat) :
    ∀ (h : Handle) (s : Scene σ), s.Gives (report .empty site room h s) :=
  report_induction (fun s v => .value v (.refl s)) (fun s fault => .failed fault (.refl s))
    (fun heval h _ s => gives_settle site h _ (gives_gather heval _ _ s)) room

/-- **A block asks once at most, and does nothing more then.** -/
theorem puts_execute (k : Scheduler) (g : Graph) (s : Scene σ) :
    s.Puts (s.execute .empty k g) := by
  unfold execute
  split
  · exact .silent _ (.refl s)
  · rename_i h _
    split
    · exact .silent _ (.refl s)
    · rename_i b _
      have hg := gives_gather (gives_report ⟨k, g, h, s.thread.depth - 1⟩ k.maxReporterDepth)
        b.inputs.entries [] s
      simp only
      generalize gather _ _ _ s = r at hg
      cases hg with
      | failed fault hs => exact .silent _ hs
      | parked hs => exact .asks hs
      | @value s₁ args hs =>
        by_cases hop : b.opcode = .sensing .askAndWait
        · rw [hop]
          exact .asks ⟨args.text "QUESTION", .command, hs⟩
        · obtain ⟨hrun, hdeferred⟩ :=
            Primitive.silent_run ⟨k, g, h, s.thread.depth - 1⟩ args s₁ hop
          rcases hr : Primitive.run .empty b.opcode ⟨k, g, h, s.thread.depth - 1⟩ args s₁ with
            ⟨s₂, o⟩
          rw [hr] at hrun hdeferred
          have hforget := (hs.trans hrun).trans
            (silent_modifyFrame s₂ (s.thread.depth - 1) fun f => { f with reported := .empty })
          simp only [hr, finish]
          cases o with
          | value v =>
            simp only
            split
            · exact .silent _ (hforget.trans (.of_thread _ id))
            · exact .silent _ hforget
          | done => exact .silent _ hforget
          | deferred c => exact absurd rfl (hdeferred c)
          | failed fault => exact .silent _ hforget

end Scene

/-! ### Behind a question -/

namespace Thread

variable {t : Thread} {c : Nat}

/-- A thread has been stopped, or it starts over. -/
def Lapsed (t : Thread) : Prop := t.isDone = true ∨ t.Anew

theorem Lapsed.status (h : t.Lapsed) : t.status ≠ .parked := by
  rcases h with hd | hnew
  · intro hst
    simp [isDone, hst] at hd
  · exact hnew.status

theorem Lapsed.atRest (h : t.Lapsed) : t.atRest.Lapsed := by
  by_cases hr : t.restarting = true
  · exact .inr (anew_atRest hr)
  · rw [Thread.atRest, if_neg hr]
    exact h.imp (fun hd => hd) fun hnew => ⟨hnew.stack, hnew.status⟩

theorem Handled.lapsed {t' : Thread} (hh : Handled t t') : t' = t ∨ t'.Lapsed := by
  cases hh with
  | kept => exact .inl rfl
  | stopped => exact .inr (.inl rfl)
  | startedOver _ ht => exact .inr (.inr ⟨by rw [ht]; rfl, by simp⟩)

/-- A thread waits for what comes of a channel, or it does so no longer: it was stopped, or it
starts over. -/
def Sticks (c : Nat) (t : Thread) : Prop := t.channel? = some c ∨ t.Lapsed

theorem Sticks.atRest (h : t.Sticks c) : t.atRest.Sticks c := by
  rcases h with hc | h
  · by_cases hr : t.restarting = true
    · exact .inr (.inr (anew_atRest hr))
    · rw [Thread.atRest, if_neg hr]
      exact .inl hc
  · exact .inr h.atRest

end Thread

namespace Execution

open Scene

variable {σ : Type}

/-- The thread is parked on a channel when the block has been executed. -/
def Waits (e : Execution σ) (c : Nat) : Prop := e.executed.1.thread.channel? = some c

/-- The block is the last one of a stretch, and it asks. -/
structure Poses (e : Execution σ) (s s' : Scene σ) (p : Prompt) : Prop where
  scene : s.Silent e.scene
  asked : ∃ s₁ slot, s.Silent s₁ ∧ p.channel = s₁.world.nextChannel ∧
    e.executed.1 = park ⟨(s₁.world.ask p.text).1, s₁.thread⟩ p.channel slot
  rest : e.executed.1.desk.Minds s'.desk
  fate : s'.thread.Sticks p.channel

end Execution

namespace Scene

variable {σ : Type} {s s' s'' : Scene σ} {l : List (Execution σ)}

/-- What a turn does: it asks nothing, or its last block asks. -/
inductive Sits (s : Scene σ) (l : List (Execution σ)) (s' : Scene σ) : Prop
  | silent : s.Silent s' → (∀ e ∈ l, ∀ c, ¬e.Waits c) → Sits s l s'
  | asks {e : Execution σ} {p : Prompt} : e ∈ l → e.Poses s s' p →
      (∀ x ∈ l, ∀ c, x.Waits c → c = p.channel) → Sits s l s'

theorem Obeyed.silent {r : Scene σ × Bool} (h : Obeyed s r) : Silent s r.1 := by
  cases h with
  | unasked => exact .refl s
  | stopped => exact .of_lists rfl rfl ⟨rfl, rfl, rfl, rfl⟩ fun _ => rfl
  | startsOver => exact .of_lists rfl rfl ⟨rfl, rfl, rfl, rfl⟩ id

theorem Proceeded.silent {k : Scheduler} {g : Graph} {top : Handle} {warp : Bool}
    {r : Scene σ × Turn} (h : Proceeded k g top warp s r) : Silent s r.1 := by
  cases h with
  | yielded | empty => exact .of_thread s id
  | held | elsewhere => exact .refl s
  | moved _ _ ha =>
    obtain ⟨stack, status, rfl⟩ := (Scheduler.advanced_of_advance ha).exists_stack
    exact .of_thread s id

theorem silent_entered (s : Scene σ) : Silent s s.entered := by
  refine .of_lists rfl rfl ⟨rfl, rfl, rfl, rfl⟩ fun hs => ?_
  simp only [entered, startWarp]
  split <;> exact hs

/-- What becomes of the thread of a block that has asked. -/
theorem Obeyed.sticks {r : Scene σ × Bool} (h : Obeyed s r) {c : Nat}
    (hc : s.thread.channel? = some c) : r.1.thread.Sticks c := by
  cases h with
  | unasked | startsOver => exact .inl hc
  | stopped => exact .inr (.inl rfl)

theorem Obeyed.minds {r : Scene σ × Bool} (h : Obeyed s r) : s.desk.Minds r.1.desk := by
  have hself : s.desk.Stems s.thread := Desk.stems_of_mem (List.mem_cons_self ..)
  cases h with
  | unasked => exact .refl _
  | stopped =>
    exact minds_of_thread rfl rfl ⟨rfl, rfl, rfl, rfl⟩ (hself.handled s.thread.handled_retire)
  | startsOver => exact minds_of_thread rfl rfl ⟨rfl, rfl, rfl, rfl⟩ hself

/-- **A block asks nothing, or its turn is over.** -/
theorem sits_stepBlock {k k' : Scheduler} {g : Graph} {turn : Turn}
    (hs : s.thread.channel? = none) (h : s.stepBlock .empty g k = (k', s', turn)) :
    let e : Execution σ := ⟨.empty, k, g, s⟩
    (s.Silent s' ∧ ∀ c, ¬e.Waits c) ∨
      (turn = .ends ∧ s.thread.topBlock?.isSome = true ∧ ∃ p, e.Poses s s' p) := by
  intro e
  have hputs : s.entered.Puts e.executed := puts_execute k.countBlock g s.entered
  have hwaits : ∀ {s₁ fault}, e.executed = (s₁, fault) → s.entered.Silent s₁ → ∀ c, ¬e.Waits c := by
    intro s₁ fault hx hsilent c hc
    rw [Execution.Waits, hx] at hc
    cases (s.silent_entered.trans hsilent hs).1.symm.trans hc
  cases stepped_of_stepBlock h with
  | empty htop =>
    have hx : e.executed = (s.entered, none) := by
      have htop' : s.entered.thread.topBlock? = none := by
        rwa [Thread.topBlock?, stack_entered]
      change s.entered.execute .empty k.countBlock g = _
      rw [execute, htop']
    exact .inl ⟨.of_thread s id, hwaits hx (.refl _)⟩
  | @failed top s₁ f opcode htop hx =>
    have hx : e.executed = (s₁, some f) := hx
    rw [hx] at hputs
    cases hputs with
    | silent _ hsilent =>
      have hfault : s₁.Silent (s₁.fault opcode f) :=
        .of_lists rfl rfl ⟨rfl, rfl, rfl, rfl⟩ fun _ => rfl
      exact .inl ⟨(s.silent_entered.trans hsilent).trans hfault, hwaits hx hsilent⟩
  | @obeyed top s₁ _ htop hx ho =>
    have hx : e.executed = (s₁, none) := hx
    have hobeyed := obeyed_of_obey ho
    rw [hx] at hputs
    cases hputs with
    | silent _ hsilent =>
      exact .inl ⟨(s.silent_entered.trans hsilent).trans hobeyed.silent, hwaits hx hsilent⟩
    | asks hasks =>
      -- an input has stopped the thread or started it over, and another one asks
      obtain ⟨text, slot, hsilent⟩ := hasks
      refine .inr ⟨rfl, by rw [htop]; rfl, ⟨text, _⟩, .refl s,
        ⟨_, slot, s.silent_entered.trans hsilent, rfl, by rw [hx]⟩, ?_, hobeyed.sticks rfl⟩
      rw [hx]
      exact hobeyed.minds
  | @moved top s₁ _ _ htop hx ho hp =>
    have hx : e.executed = (s₁, none) := hx
    rw [hx] at hputs
    cases hputs with
    | silent _ hsilent =>
      have hproceeded := proceeded_of_proceed hp
      exact .inl ⟨(s.silent_entered.trans hsilent).trans hproceeded.silent, hwaits hx hsilent⟩
    | asks hasks =>
      -- the thread is parked, so its turn is over
      obtain ⟨text, slot, hsilent⟩ := hasks
      obtain ⟨rfl, rfl⟩ := Prod.mk.inj hp
      exact .inr ⟨rfl, by rw [htop]; rfl, ⟨text, _⟩, .refl s,
        ⟨_, slot, s.silent_entered.trans hsilent, rfl, by rw [hx]⟩, by rw [hx]; exact .refl _,
        .inl rfl⟩

/-- What is silent before a turn comes out as a part of it. -/
theorem Silent.sits (h : Silent s s') (h' : Sits s' l s'') : Sits s l s'' := by
  cases h' with
  | silent hs hl => exact .silent (h.trans hs) hl
  | asks he hp hl =>
    obtain ⟨s₁, slot, hs₁, hc, hexec⟩ := hp.asked
    exact .asks he ⟨h.trans hp.scene, ⟨s₁, slot, h.trans hs₁, hc, hexec⟩, hp.rest, hp.fate⟩ hl

/-- **A turn asks once at most, and last**, by induction on its blocks. -/
theorem sits_takeTurn (g : Graph) (fuel : Nat) : ∀ (k : Scheduler) (s : Scene σ),
    s.thread.channel? = none → ∀ k' s', takeTurn .empty g fuel k s = some (k', s') →
      Sits s (executions .empty g fuel k s) s' := by
  refine executions_induction (P := fun _ s l o => s.thread.channel? = none →
      ∀ k' s', o = some (k', s') → Sits s l s') (fun _ _ _ _ _ h => by cases h)
    (fun _ s ht hs k' s' h => ?empty) (fun _ hstep hs k' s' h => ?ends)
    (fun _ hstep ih hs k' s' h => ?goesOn) fuel
  case empty =>
    cases h
    exact .silent (.of_thread s id) fun _ he => by cases he
  case ends =>
    cases h
    rcases sits_stepBlock hs hstep with ⟨hsilent, hwaits⟩ | ⟨-, -, p, hposes⟩
    · exact .silent hsilent (List.forall_mem_singleton.2 hwaits)
    · refine .asks (List.mem_singleton_self _) hposes (List.forall_mem_singleton.2 fun c hc => ?_)
      obtain ⟨s₁, slot, -, -, hexec⟩ := hposes.asked
      rw [Execution.Waits, hexec] at hc
      cases hc
      rfl
  case goesOn =>
    rcases sits_stepBlock hs hstep with ⟨hsilent, hwaits⟩ | ⟨hturn, -⟩
    · cases hsilent.sits (ih (hsilent hs).1 k' s' h) with
      | silent hrest hl => exact .silent hrest (List.forall_mem_cons.2 ⟨hwaits, hl⟩)
      | asks he hp hl =>
        exact .asks (List.mem_cons_of_mem _ he) hp
          (List.forall_mem_cons.2 ⟨fun c hc => absurd hc (hwaits c), hl⟩)
    · cases hturn

end Scene

namespace Execution

open Scene

variable {σ : Type} {e : Execution σ} {s s' : Scene σ} {p : Prompt}

/-- The block puts a prompt in line, and its thread waits for the answer. -/
structure Asks (e : Execution σ) (p : Prompt) : Prop where
  waits : e.Waits p.channel
  mem : p ∈ e.executed.1.world.prompts
  new : p ∉ e.scene.world.prompts

theorem Poses.asks (h : e.Poses s s' p) (hs : s.thread.channel? = none) (hD : s.desk.Posed) :
    e.Asks p := by
  obtain ⟨s₁, slot, hs₁, hc, hx⟩ := h.asked
  refine ⟨by rw [Waits, hx]; rfl, ?_, fun hmem => ?_⟩
  · rw [hx]
    exact List.mem_append_right _ (List.mem_singleton.2 (by rw [← hc]))
  · have hlt := hD.lt p ((h.scene hs).2.prompts hmem)
    rw [hc, show s₁.world.nextChannel = s.desk.next from (hs₁ hs).2.next] at hlt
    exact Nat.lt_irrefl _ hlt

theorem Poses.queries (h : e.Poses s s' p) (hs : s.thread.channel? = none) :
    s.desk.Queries s'.desk p e.executed.1.thread.id := by
  obtain ⟨s₁, slot, hs₁, hc, hx⟩ := h.asked
  have hask := s₁.queries_ask p.text slot
  rw [← hc] at hask
  have hrest := h.rest
  rw [hx] at hrest ⊢
  exact ((hs₁ hs).2.queries hask).minds hrest

/-- Executing a block leaves it to the same thread. -/
theorem id_executed (e : Execution σ) (hext : e.ext.Orderly) :
    e.executed.1.thread.id = e.thread.id :=
  ((acts_execute e.scheduler.countBlock e.graph e.entered).conserves hext).id.trans
    e.scene.entered_moved.id

end Execution

namespace Pass

open Scene World

variable {σ : Type} {k k' : Scheduler} {w : World σ} {t : Thread} {s : Scene σ}

/-! ### A turn from its beginning -/

/-- The turn of a thread that waits for nothing. -/
theorem sits_letRun {fuel : Nat} (ht : t.channel? = none)
    (h : letRun .empty fuel k w t = some (k', s)) :
    Sits ⟨w, t⟩ (runExecutions .empty fuel k w t) s := by
  revert k' s
  refine runExecutions_cases (P := fun l o => ∀ {k' s}, o = some (k', s) → Sits ⟨w, t⟩ l s)
    (fun h => ?gone) (fun g _ k' s h => ?turn)
  case gone =>
    cases h
    exact .silent (.of_thread _ fun _ => rfl) fun _ he => by cases he
  case turn =>
    obtain ⟨⟨k₁, s₁⟩, hturn, he⟩ := Option.map_eq_some_iff.1 h
    cases he
    have hstage : Silent ⟨w, t⟩ ⟨onStage w t, t⟩ :=
      .of_lists rfl rfl ⟨rfl, rfl, rfl, rfl⟩ id
    cases hstage.sits (sits_takeTurn g fuel _ _ ht _ _ hturn) with
    | silent hs hl =>
      refine .silent (hs.trans (.of_lists rfl rfl ⟨rfl, rfl, rfl, rfl⟩ fun hidle => ?_)) hl
      simp only [Thread.atRest]
      split
      · rfl
      · exact hidle
    | asks he hp hl =>
      refine .asks he ⟨hp.scene, hp.asked, hp.rest.trans ?_, hp.fate.atRest⟩ hl
      exact minds_of_thread rfl rfl ⟨rfl, rfl, rfl, rfl⟩
        (Desk.stems_of_mem (List.mem_cons_self ..)).atRest

end Pass

end Stagecraft
