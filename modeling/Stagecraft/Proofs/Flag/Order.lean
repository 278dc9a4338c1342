import Stagecraft.Proofs.Cast.Tour
import Stagecraft.Proofs.Pace.Load
import Stagecraft.Proofs.Schedule.Channels

/-!
# Worlds in order

Results get their numbers one after the other, programs are what operations make of an empty one,
and a pass that is cut short remembers a thread that there is. This is so in a blank world, and
whatever is done to worlds keeps it so, the host's primitives being as careful as the others.

* `World.InOrder` : no result has a number that is still to be given out, and blocks carry their own
  handles;
* `World.inOrder_visit` : **a turn keeps a world in order**;
* `World.inOrder_of_step`, `World.stage_of_step`, `World.resumes_of_step` : so does a step, after
  which nobody is on stage, and the thread that it remembers is not one of those to come;
* `World.Journey` : the worlds that a host gets to;
* `World.Journey.apply` : its calls lead from one to the next.
-/

namespace Stagecraft

/-! ### Programs -/

/-- A program that is what operations make of an empty one: its arena is consistent, and its blocks
carry the handles and keys of their slots. -/
structure Graph.Proper (g : Graph) : Prop where
  consistent : g.Consistent
  labelled : g.Labelled

namespace Graph

variable {g : Graph}

theorem proper_run {ops : List Operation} (hops : ∀ op ∈ ops, op.KeepsLabels) :
    (empty.run ops).Proper :=
  ⟨consistent_run ops, labelled_run hops⟩

theorem proper_ofSaved (blocks : Table String SavedBlock) : (ofSaved blocks).Proper :=
  ⟨(raw_ofSaved blocks).consistent, (raw_ofSaved blocks).labelled⟩

theorem Proper.indexed (h : g.Proper) : g.indexed.Proper :=
  ⟨h.consistent.indexed, h.labelled.indexed⟩

end Graph

namespace World

variable {σ : Type} {w w' : World σ}

/-- Numbers below the next one only are in use for results, and the programs are proper. -/
structure InOrder (w : World σ) : Prop where
  channels : ∀ c ∈ w.channels.keys, c < w.nextChannel
  held : ∀ c ∈ w.held, c < w.nextChannel
  programs : ∀ e ∈ w.programs.entries, e.2.Proper

end World

/-- The extensions keep a world in order. -/
def Extensions.Tidy {σ : Type} (ext : Extensions σ) : Prop :=
  ∀ (name : String) (handler : Extension σ), ext.get? name = some handler →
    ∀ (site : Site) (args : Args) (s : Scene σ), s.world.InOrder →
      (handler site args s).1.world.InOrder

theorem tidy_empty {σ : Type} : Extensions.Tidy (Table.empty : Extensions σ) := by
  intro name handler hget
  cases hget

namespace World

variable {σ : Type} {w w' : World σ}

/-! ### What is done to a world -/

theorem inOrder_blank (settings : Settings) (host : σ) (dice : Nat → Nat) :
    (blank settings host dice).InOrder :=
  ⟨fun _ hc => (by cases hc), fun _ hc => (by cases hc), fun _ he => by cases he⟩

namespace InOrder

theorem labelled (h : w.InOrder) : ∀ e ∈ w.sprites.entries, e.2.graph.Labelled := fun e he =>
  (h.programs (e.1, e.2.graph) (List.mem_map.2 ⟨e, he, rfl⟩)).labelled

/-- Results and programs are left alone. -/
theorem of_same (h : w.InOrder) (hm : SameMail w w') (hp : w'.programs = w.programs) :
    w'.InOrder := by
  refine ⟨?_, ?_, hp ▸ h.programs⟩
  · rw [hm.channels, hm.nextChannel]
    exact h.channels
  · rw [hm.held, hm.nextChannel]
    exact h.held

theorem of_cast (h : w.InOrder) (hm : SameMail w w') (hc : SameCast w w') : w'.InOrder :=
  h.of_same hm (SamePlay.of_cast hc).programs

/-- What has come of results changes. -/
theorem of_keys (h : w.InOrder) {channels : Table Nat Channel}
    (hk : channels.keys = w.channels.keys) : InOrder { w with channels := channels } :=
  ⟨hk ▸ h.channels, h.held, h.programs⟩

theorem openChannel (h : w.InOrder) (c : Channel) : (w.openChannel c).1.InOrder := by
  refine ⟨fun k hk => ?_, fun k hk => Nat.lt_succ_of_lt (h.held k hk), h.programs⟩
  have hkeys := w.channels.keys_insert w.nextChannel c
  rw [show (w.openChannel c).1.channels = w.channels.insert w.nextChannel c from rfl, hkeys] at hk
  split at hk
  · exact Nat.lt_succ_of_lt (h.channels k hk)
  · rcases List.mem_append.1 hk with hk | hk
    · exact Nat.lt_succ_of_lt (h.channels k hk)
    · cases List.mem_singleton.1 hk
      exact Nat.lt_succ_self _

theorem ask (h : w.InOrder) (text : String) : (w.ask text).1.InOrder :=
  ⟨(h.openChannel .fresh).channels, (h.openChannel .fresh).held, (h.openChannel .fresh).programs⟩

/-- Something comes of a result that there is. -/
theorem insert (h : w.InOrder) {c : Nat} {old : Channel} (hc : w.channels.get? c = some old)
    (new : Channel) : InOrder { w with channels := w.channels.insert c new } := by
  refine h.of_keys ?_
  rw [Table.keys_insert, if_pos ((Table.mem_keys_iff _ _).2 (by rw [hc]; rfl))]

theorem poll (h : w.InOrder) (c : Nat) : (w.poll c).1.InOrder := by
  unfold World.poll
  cases hc : w.channels.get? c with
  | none => exact h
  | some channel => exact h.insert hc channel.poll.1

theorem deliver (h : w.InOrder) (c : Nat) (d : Delivery) : (w.deliver c d).1.InOrder := by
  unfold World.deliver
  cases hc : w.channels.get? c with
  | none => exact h
  | some channel => exact h.insert hc _

theorem dropResolver (h : w.InOrder) (c : Nat) : (w.dropResolver c).InOrder :=
  h.of_keys (Book.keys_modify ..)

theorem answerQuestion (h : w.InOrder) (text : String) : (w.answerQuestion text).1.InOrder := by
  unfold World.answerQuestion
  split
  · exact h
  · rename_i p rest _
    have hasked : InOrder { w with prompts := rest, answer := text } :=
      ⟨h.channels, h.held, h.programs⟩
    exact (hasked.deliver p.channel _).dropResolver p.channel

theorem clearPrompts (h : w.InOrder) : w.clearPrompts.InOrder :=
  List.foldlRecOn (motive := InOrder) _ _ ⟨h.channels, h.held, h.programs⟩
    fun _ h _ _ => h.dropResolver _

theorem startHats (h : w.InOrder) (hat : Opcode) (fields : List (String × String))
    (only : Option ActorId) : (w.startHats hat fields only).1.InOrder :=
  h.of_cast (sameMail_startHats w hat fields only) (sameCast_startHats w hat fields only)

theorem stopAll (h : w.InOrder) : w.stopAll.InOrder := by
  obtain ⟨w₁, hmail, -, he⟩ := w.stopAll_eq_clearPrompts
  have hprograms : w₁.programs = w.programs := by
    have hstop := (samePlay_stopAll w).programs
    rwa [he, (SamePlay.of_cast (sameCast_clearPrompts w₁)).programs] at hstop
  rw [he]
  exact (h.of_same hmail hprograms).clearPrompts

theorem createClone (h : w.InOrder) (source : ActorId) : (w.createClone source).1.InOrder :=
  h.of_same (sameMail_createClone w source) (samePlay_createClone w source).programs

theorem deleteClone (h : w.InOrder) (id : ActorId) : (w.deleteClone id).1.InOrder :=
  h.of_same (sameMail_deleteClone w id) (samePlay_deleteClone w id).programs

theorem lookupVariable (h : w.InOrder) (actor : ActorId) (id : Option String) (name : String)
    (kind : VariableKind) : (w.lookupVariable actor id name kind).1.InOrder :=
  h.of_same (sameMail_lookupVariable w actor id name kind)
    (samePlay_lookupVariable w actor id name kind).programs

end InOrder

end World

/-! ### A turn -/

namespace Scene

open World

variable {σ : Type} {ext : Extensions σ} {site : Site} {op : Opcode} {s s' : Scene σ}

theorem Does.inOrder (h : Does site op s s') (hs : s.world.InOrder) : s'.world.InOrder := by
  cases h with
  | shift => exact hs
  | aside hw => exact hs.of_cast hw.mail hw.cast
  | ask text _ => exact hs.ask text
  | restyle f _ => exact ⟨hs.channels, hs.held, hs.programs⟩
  | lookup id name kind => exact hs.lookupVariable s.thread.actor id name kind
  | write id name kind f _ _ =>
    have hlookup := hs.lookupVariable s.thread.actor id name kind
    exact ⟨hlookup.channels, hlookup.held, hlookup.programs⟩
  | request r _ => exact ⟨hs.channels, hs.held, hs.programs⟩
  | startHats hat fields only => exact hs.startHats hat fields only
  | stopActor => exact hs.of_cast (sameMail_stopActor ..) (sameCast_stopActor ..)
  | createClone source _ => exact hs.createClone source
  | deleteClone _ _ _ => exact hs.deleteClone _
  | stopAll _ => exact hs.stopAll

theorem Works.inOrder (h : Works site op s s') : s.world.InOrder → s'.world.InOrder :=
  h.along (R := fun s s' => s.world.InOrder → s'.world.InOrder) (fun _ => id)
    (fun h h' hs => h' (h hs)) Does.inOrder fun hq hs => by cases hq <;> exact hs

end Scene

namespace Primitive

open Scene

variable {σ : Type} {ext : Extensions σ}

theorem inOrder_run (hext : ext.Tidy) (op : Opcode) (site : Site) (args : Args) (s : Scene σ)
    (hs : s.world.InOrder) : (run ext op site args s).1.world.InOrder := by
  cases op with
  | custom name =>
    cases hget : ext.get? name with
    | none =>
      rw [run, extended, hget]
      exact hs
    | some handler =>
      rw [run, (outcome_extended hget site args s (c := 0)).1]
      exact hext name handler hget site args s hs
  | _ =>
    rw [run_of_builtIn site _ args s ext rfl]
    exact (works_run site _ args s).inOrder hs

end Primitive

namespace Scene

open World

variable {σ : Type} {ext : Extensions σ} {site : Site} {s s' : Scene σ}

theorem inOrder_gather {report : Handle → Scene σ → Scene σ × Evaluation Value}
    (hreport : ∀ h (s : Scene σ), s.world.InOrder → (report h s).1.world.InOrder)
    (inputs : List (String × Input)) (done : List (String × Value)) (s : Scene σ) :
    s.world.InOrder → (gather report inputs done s).1.world.InOrder :=
  gather_induction (P := fun s r => s.world.InOrder → r.1.world.InOrder) (fun _ _ hs => hs)
    (fun h s _ => hreport h s) (fun h s _ _ => hreport h s)
    (fun h s _ _ _ hrest hs => hrest (hreport h s hs)) inputs done s

theorem inOrder_settle (hext : ext.Tidy) (site : Site) (h : Handle) (op : Opcode)
    (e : Scene σ × Evaluation Args) (he : e.1.world.InOrder) :
    (settle ext site h op e).1.world.InOrder := by
  obtain ⟨s, e⟩ := e
  cases e with
  | parked => exact he
  | failed fault => exact he
  | value args =>
    have hr := Primitive.inOrder_run hext op { site with block := h } args s he
    rw [settle]
    split
    all_goals
      rename_i hrun
      rw [hrun] at hr
      exact hr

/-- Reporters keep a world in order. -/
theorem inOrder_report (hext : ext.Tidy) (site : Site) (room : Nat) :
    ∀ (h : Handle) (s : Scene σ), s.world.InOrder →
      (report ext site room h s).1.world.InOrder :=
  report_induction (P := fun s r => s.world.InOrder → r.1.world.InOrder) (fun _ _ hs => hs)
    (fun _ _ hs => hs)
    (fun heval h _ s hs => inOrder_settle hext site h _ _ (inOrder_gather heval _ _ s hs)) room

theorem world_finish (site : Site) (o : Scene σ × Outcome) :
    (finish site o).1.world = o.1.world :=
  finish_cases (P := fun s => s.world = o.1.world) (fun _ _ => rfl) rfl fun _ h => h

/-- **Executing a block keeps a world in order**, with all that its inputs run. -/
theorem inOrder_execute (hext : ext.Tidy) (k : Scheduler) (g : Graph) (s : Scene σ)
    (hs : s.world.InOrder) : (s.execute ext k g).1.world.InOrder := by
  unfold execute
  split
  · exact hs
  · rename_i h _
    split
    · exact hs
    · rename_i b _
      have hg := inOrder_gather (inOrder_report hext ⟨k, g, h, s.thread.depth - 1⟩
        k.maxReporterDepth) b.inputs.entries [] s hs
      simp only
      split
      all_goals
        rename_i he
        rw [he] at hg
      · rw [world_finish]
        exact Primitive.inOrder_run hext b.opcode _ _ _ hg
      · exact hg
      · exact hg

theorem inOrder_stepped (hext : ext.Tidy) {g : Graph} {k k' : Scheduler} {turn : Turn}
    (h : Stepped ext g k s k' s' turn) (hs : s.world.InOrder) : s'.world.InOrder := by
  have hexec := inOrder_execute hext k.countBlock g s.entered
    (hs.of_cast ⟨rfl, rfl, rfl, rfl⟩ ⟨rfl, rfl, rfl, rfl, rfl, rfl, rfl⟩)
  cases h with
  | empty => exact hs
  | failed opcode _ hx =>
    rw [hx] at hexec
    exact ⟨hexec.channels, hexec.held, hexec.programs⟩
  | obeyed _ hx ho =>
    rw [hx] at hexec
    cases obeyed_of_obey ho with
    | stopped | startsOver => exact ⟨hexec.channels, hexec.held, hexec.programs⟩
  | moved _ hx _ hp =>
    rw [hx] at hexec
    obtain ⟨t, -, rfl⟩ := (proceeded_of_proceed hp).moves
    exact hexec

/-- **A turn**, by induction on its blocks. -/
theorem inOrder_takeTurn (hext : ext.Tidy) {g : Graph} {fuel : Nat} {k k' : Scheduler}
    (hs : s.world.InOrder) (h : takeTurn ext g fuel k s = some (k', s')) : s'.world.InOrder :=
  takeTurn_induction (P := fun s s' : Scene σ => s.world.InOrder → s'.world.InOrder)
    (fun h => inOrder_stepped hext h) (fun h ih hs => ih (inOrder_stepped hext h hs)) fuel h hs

end Scene

namespace Pass

open World

variable {σ : Type} {ext : Extensions σ}

theorem Performed.inOrder (hext : ext.Tidy) {fuel : Nat} {k k' : Scheduler} {w : World σ}
    {t : Thread} {s : Scene σ} (h : Performed ext fuel k w t k' s) (hw : w.InOrder) :
    s.world.InOrder := by
  cases h with
  | gone => exact hw
  | turn _ hturn =>
    have hin := Scene.inOrder_takeTurn hext (s := ⟨onStage w t, t⟩)
      ⟨hw.channels, hw.held, hw.programs⟩ hturn
    exact ⟨hin.channels, hin.held, hin.programs⟩

theorem Woken.inOrder {k : Scheduler} {w : World σ} {t : Thread} {r : Scene σ × Bool}
    (h : Woken k w t r) (hw : w.InOrder) : r.1.world.InOrder := by
  have hpoll := hw.poll
  cases h with
  | free => exact hw
  | @waits p _ _ he | @takesIn p _ _ _ _ _ he =>
    have hin := hpoll p.channel
    rwa [he] at hin
  | @refused p _ _ _ he =>
    have hin := hpoll p.channel
    rw [he] at hin
    exact ⟨hin.channels, hin.held, hin.programs⟩

/-- **A turn keeps a world in order.** -/
theorem Visited.inOrder (hext : ext.Tidy) {fuel : Nat} {k k' : Scheduler} {w : World σ}
    {t : Thread} {s : Scene σ} (h : Visited ext fuel k w t k' s) (hw : w.InOrder) :
    s.world.InOrder := by
  cases h with
  | passed => exact hw
  | runs _ hr => exact (performed_of_letRun hr).inOrder hext hw
  | wakes _ he hr => exact (performed_of_letRun hr).inOrder hext ((woken_of_wake he).inOrder hw)
  | waits _ he => exact (woken_of_wake he).inOrder hw

theorem inOrder_visitAt (hext : ext.Tidy) {fuel i : Nat} {p p' : Pass σ} (hp : p.world.InOrder)
    (h : visitAt ext fuel p i = some p') : p'.world.InOrder := by
  obtain ⟨-, rfl⟩ | ⟨t, k, s, -, hv, rfl⟩ := visitAt_cases h
  · exact hp
  · have hturn := (visited_of_visit hv).inOrder hext ⟨hp.channels, hp.held, hp.programs⟩
    exact ⟨hturn.channels, hturn.held, hturn.programs⟩

/-! ### Nobody is on stage -/

theorem Performed.stage {fuel : Nat} {k k' : Scheduler} {w : World σ} {t : Thread} {s : Scene σ}
    (h : Performed ext fuel k w t k' s) (hw : w.current = none) : s.world.current = none := by
  cases h with
  | gone => exact hw
  | turn => rfl

theorem Woken.stage {k : Scheduler} {w : World σ} {t : Thread} {r : Scene σ × Bool}
    (h : Woken k w t r) (hw : w.current = none) : r.1.world.current = none := by
  cases h <;> exact hw

/-- Whoever goes on stage leaves it. -/
theorem stage_visitAt {fuel i : Nat} {p p' : Pass σ} (hp : p.world.current = none)
    (h : visitAt ext fuel p i = some p') : p'.world.current = none := by
  obtain ⟨-, rfl⟩ | ⟨t, k, s, -, hv, rfl⟩ := visitAt_cases h
  · exact hp
  · cases visited_of_visit hv with
    | passed => exact hp
    | runs _ hr => exact (performed_of_letRun hr).stage hp
    | wakes _ he hr => exact (performed_of_letRun hr).stage ((woken_of_wake he).stage hp)
    | waits _ he => exact (woken_of_wake he).stage hp

/-! ### The thread to go on with -/

/-- A pass that is cut short remembers a thread of the list. -/
theorem resumes_visitAll {fuel : Nat} (places : List Nat) :
    ∀ {p p' : Pass σ} {exhausted : Bool}, visitAll ext fuel places p = some (p', exhausted) →
      ∀ r, p'.scheduler.resumeAt = some r → r ∈ p'.world.threads.map (·.id) := by
  induction places with
  | nil =>
    intro p p' exhausted h r hr
    cases h
    cases hr
  | cons i rest ih =>
    intro p p' exhausted h r hr
    rw [visitAll] at h
    split at h
    · cases h
    · rename_i p₁ _
      simp only at h
      split at h
      · cases h
        obtain ⟨j, -, hj⟩ := Option.bind_eq_some_iff.1 hr
        obtain ⟨t, ht, rfl⟩ := Option.map_eq_some_iff.1 hj
        exact List.mem_map_of_mem (List.mem_of_getElem? ht)
      · exact ih h r hr

/-- So do rounds, by induction: that thread was there before the pass. -/
theorem resumes_rounds (hext : ext.Orderly) {w : World σ} (hw : w.Settled) {turnFuel : Nat}
    (fuel : Nat) : ∀ {first : Nat} {p p' : Pass σ} {finished finished' : List ThreadId},
      Amid w finished p.world → rounds ext turnFuel fuel first p finished = some (p', finished') →
        ∀ r, p'.scheduler.resumeAt = some r → r < w.nextThread := by
  induction fuel with
  | zero =>
    intro _ _ _ _ _ _ h
    cases h
  | succ fuel ih =>
    intro first p p' finished finished' ha h r hr
    rw [rounds] at h
    simp only at h
    split at h
    · cases h
    · rename_i p₁ exhausted hv
      have hround := amid_visitAll hext hw _ ha hv
      split at h
      · exact ih (p := ⟨noteBudget _ exhausted, _⟩) (amid_collect hw hround) h r hr
      · cases h
        have hmem := resumes_visitAll _ hv r hr
        rw [hround.threads] at hmem
        exact hw.lt_of_mem (List.mem_of_mem_filter hmem)

end Pass

/-! ### A step -/

namespace World

variable {σ : Type} {ext : Extensions σ} {fuel : Nat} {w w' : World σ} {ended : List ThreadId}

/-- **What turns and starting scripts keep to, a step keeps to**, if what lies between leaves it
alone. -/
theorem kept_of_step {P : World σ → Prop} (hext : ext.Orderly) (hw : w.Settled)
    (haside : ∀ {w w' : World σ}, Aside w w' → P w → P w')
    (hvisit : ∀ {p p' : Pass σ} {i : Nat}, Pass.visitAt ext fuel p i = some p' → P p.world →
      P p'.world)
    (hraise : ∀ (w : World σ) (e : Event), P w → P (w.raise e).1)
    (h : w.step ext fuel = some (w', ended)) (hP : P w) : P w' := by
  have hquiet : ∀ (w : World σ) (events : EventQueue) (cloud : Cloud), P w →
      P { w with events := events, cloud := cloud } := fun _ _ _ =>
    haside (.of_eq rfl rfl ⟨rfl, rfl, rfl, rfl, rfl, rfl, rfl⟩ rfl ⟨rfl, rfl, rfl, rfl⟩ rfl)
  obtain ⟨p, hp, rfl⟩ := exists_rounds_of_step hw.idle h
  have hturns : Annals ext fuel (fun _ _ => ([] : List Unit)) w
      (fun w l w' => P w → P w' ∧ ∀ b ∈ l, True) (fun w l => P w → ∀ b ∈ l, True) :=
    annals_lasting haside hvisit fun _ _ _ _ => trivial
  have hrounds := ((annals_step hturns hext hw).2 p ended hp hP).1
  have hafter := haside (aside_afterPass p) hrounds
  have hevents : P (afterPass p).dispatchEvents :=
    List.foldlRecOn (motive := P) _ _ (hquiet _ _ _ hafter) fun w hw e _ => hraise w e hw
  exact hquiet _ _ _ hevents

/-- **A step keeps a world in order.** -/
theorem inOrder_of_step (hext : ext.Orderly) (htidy : ext.Tidy) (hw : w.Settled)
    (h : w.step ext fuel = some (w', ended)) (hin : w.InOrder) : w'.InOrder :=
  kept_of_step hext hw (fun ha hin => hin.of_cast ha.mail ha.cast)
    (fun hv hin => Pass.inOrder_visitAt htidy hin hv) (fun _ _ hin => hin.startHats _ _ _) h hin

/-- **After a step nobody is on stage.** -/
theorem stage_of_step (hext : ext.Orderly) (hw : w.Settled)
    (h : w.step ext fuel = some (w', ended)) (hstage : w.current = none) : w'.current = none := by
  refine kept_of_step (P := fun w => w.current = none) hext hw (fun ha hc => ha.current.trans hc)
    (fun hv hc => Pass.stage_visitAt hc hv) (fun w e hc => ?_) h hstage
  exact (Gesture.startHats w e.hat e.fields e.actor).stage hc

/-- **A thread that a step remembers was there before it.** -/
theorem resumes_of_step (hext : ext.Orderly) (hw : w.Settled)
    (h : w.step ext fuel = some (w', ended)) (r : ThreadId) (hr : w'.resumesAt = some r) :
    r < w.nextThread := by
  obtain ⟨p, hp, hg⟩ := grown_of_step hw h
  have hresumes : w'.resumesAt = p.scheduler.resumeAt := by
    rw [resumesAt, hg.scheduler]
    rfl
  unfold roundsOfStep at hp
  cases hs : w.scheduler with
  | none =>
    rw [hs] at hp
    cases hp
  | some k =>
    rw [hs] at hp
    exact Pass.resumes_rounds hext hw fuel (Pass.amid_begin hw (k.configure w.settings)) hp r
      (hresumes.symm.trans hr)

/-! ### Calls -/

/-- The programs that a call brings along are proper. -/
def Call.Proper : Call → Prop
  | .addSprite _ g => g.Proper
  | .addStage _ g => g.Proper
  | _ => True

theorem InOrder.addActor (h : w.InOrder) (name : String) {g : Graph} (hg : g.Proper)
    (isStage : Bool) : (w.addActor name g isStage).1.InOrder := by
  refine ⟨h.channels, h.held, fun e he => ?_⟩
  obtain ⟨e', he', rfl⟩ := List.mem_map.1 he
  rcases List.mem_cons.1 ((w.sprites.entries_insert_perm _ _).subset he') with rfl | hold
  · exact hg.indexed
  · exact h.programs _ (List.mem_map_of_mem (List.mem_of_mem_filter hold))

theorem InOrder.addStage (h : w.InOrder) (name : String) {g : Graph} (hg : g.Proper) :
    (w.addStage name g).1.InOrder := by
  have hadd := h.addActor name hg true
  unfold World.addStage
  simp only
  split <;> exact ⟨hadd.channels, hadd.held, hadd.programs⟩

theorem InOrder.loadActors (saved : List SavedActor) :
    ∀ {w : World σ}, w.InOrder → (w.loadActors saved).1.InOrder := by
  induction saved with
  | nil => exact id
  | cons a rest ih =>
    intro w h
    have hadd : (if a.isStage then w.addStage a.name (Graph.ofSaved a.blocks)
        else w.addSprite a.name (Graph.ofSaved a.blocks)).1.InOrder := by
      split
      · exact h.addStage a.name (Graph.proper_ofSaved a.blocks)
      · exact h.addActor a.name (Graph.proper_ofSaved a.blocks) false
    exact ih ⟨hadd.channels, hadd.held, hadd.programs⟩

theorem InOrder.load (h : w.InOrder) (p : SavedProject) : (w.load p).1.InOrder := by
  unfold World.load
  split
  · exact h.loadActors _
  · exact InOrder.loadActors _ ⟨h.channels, h.held, h.programs⟩

theorem InOrder.postCloud (h : w.InOrder) (name : String) (v : Value) :
    (w.postCloud name v).InOrder := by
  unfold World.postCloud
  split
  · exact ⟨h.channels, h.held, h.programs⟩
  · split
    · split <;> exact ⟨h.channels, h.held, h.programs⟩
    · exact ⟨h.channels, h.held, h.programs⟩

/-- **A call keeps a world in order.** -/
theorem InOrder.apply (h : w.InOrder) {c : Call} (hc : c.Proper) (hstep : ∀ fuel, c ≠ .step fuel)
    (he : c.apply w = some w') : w'.InOrder := by
  cases c with
  | addSprite name g =>
    cases he
    exact h.addActor name hc false
  | addStage name g =>
    cases he
    exact h.addStage name hc
  | load p =>
    cases he
    exact h.load p
  | loadStrict p =>
    cases he
    unfold loadStrict
    cases p.problems with
    | nil => exact h.loadActors p.targets
    | cons problem rest => exact h
  | greenFlag =>
    obtain rfl := Option.some.inj he
    have hreset : InOrder { w.stopAll with timer := w.stopAll.timer.reset w.stopAll.now } :=
      ⟨h.stopAll.channels, h.stopAll.held, h.stopAll.programs⟩
    exact hreset.startHats _ _ _
  | broadcast message | clickActor actor =>
    cases he
    exact h.startHats _ _ _
  | queueEvent | postKey | postMouse | postPause | postUser | clock =>
    cases he
    exact ⟨h.channels, h.held, h.programs⟩
  | postCloud name v =>
    cases he
    exact h.postCloud name v
  | answer text =>
    cases he
    exact h.answerQuestion text
  | toggleScript actor top =>
    cases he
    exact h.of_cast (sameMail_toggleScript w actor top) (sameCast_toggleScript w actor top)
  | createClone source =>
    cases he
    exact h.createClone source
  | deleteClone id =>
    cases he
    exact h.deleteClone id
  | stopAll =>
    cases he
    exact h.stopAll
  | step fuel => exact absurd rfl (hstep fuel)

/-! ### Journeys -/

/-- A world that a host gets to: it starts blank, the host does something that keeps it in order,
and it is stepped, with extensions that may be others in every step. -/
inductive Journey : World σ → Prop
  | blank (settings : Settings) (host : σ) (dice : Nat → Nat := fun _ => 0) :
      Journey (blank settings host dice)
  | gesture {w w' : World σ} : Journey w → Gesture w w' → (w.InOrder → w'.InOrder) → Journey w'
  | step {ext : Extensions σ} {fuel : Nat} {w w' : World σ} {ended : List ThreadId} :
      ext.Orderly → ext.Accountable → ext.Tidy → Journey w →
        w.step ext fuel = some (w', ended) → Journey w'

namespace Journey

theorem tour (h : w.Journey) : w.Tour := by
  induction h with
  | blank settings host dice => exact .blank settings host dice
  | gesture _ hg _ ih => exact .gesture ih hg
  | step _ haccount _ _ hs ih => exact .step haccount ih hs

theorem reachable (h : w.Journey) : w.Reachable := by
  induction h with
  | blank settings host dice => exact .blank settings host dice
  | gesture _ hg _ ih => exact .deed ih hg.deed
  | step hext _ _ _ hs ih => exact .step hext ih hs

theorem settled (h : w.Journey) : w.Settled := settled_of_reachable h.reachable

theorem inOrder (h : w.Journey) : w.InOrder := by
  induction h with
  | blank settings host dice => exact inOrder_blank settings host dice
  | gesture _ _ hkeeps ih => exact hkeeps ih
  | step hext _ htidy hw hs ih => exact inOrder_of_step hext htidy hw.settled hs ih

/-- Nobody is on stage between steps. -/
theorem stage (h : w.Journey) : w.current = none := by
  induction h with
  | blank settings host dice => rfl
  | gesture _ hg _ ih => exact hg.stage ih
  | step hext _ _ hw hs ih => exact stage_of_step hext hw.settled hs ih

/-- **A thread that is remembered is none of those to come.** -/
theorem resumes_lt (h : w.Journey) {r : ThreadId} (hr : w.resumesAt = some r) :
    r < w.nextThread := by
  induction h with
  | blank settings host dice => cases hr
  | gesture hw hg _ ih =>
    have hlt := ih ((resumesAt_of_deeds (.single hg.deed)).symm.trans hr)
    exact Nat.lt_of_lt_of_le hlt (hg.deed.conserves.follows hw.settled).next_le
  | step hext _ _ hw hs _ =>
    exact Nat.lt_of_lt_of_le (resumes_of_step hext hw.settled hs _ hr)
      (follows_of_step hext hw.settled hs).next_le

/-- **A call goes on with a journey.** -/
theorem apply (h : w.Journey) {c : Call} (hc : c.Proper) (he : c.apply w = some w') :
    w'.Journey := by
  by_cases hs : ∃ fuel, c = .step fuel
  · obtain ⟨fuel, rfl⟩ := hs
    obtain ⟨⟨w₁, ended⟩, hstep, rfl⟩ := Option.map_eq_some_iff.1 he
    exact h.step orderly_empty accountable_empty tidy_empty hstep
  · have hstep : ∀ fuel, c ≠ .step fuel := fun fuel heq => hs ⟨fuel, heq⟩
    exact h.gesture (gesture_of_apply hstep he) fun hin => hin.apply hc hstep he

theorem play {calls : List Call} (hcalls : ∀ c ∈ calls, c.Proper) (h : w.Journey)
    (he : w.play calls = some w') : w'.Journey := by
  induction calls generalizing w with
  | nil =>
    cases he
    exact h
  | cons c rest ih =>
    obtain ⟨w₁, hc, hrest⟩ := Option.bind_eq_some_iff.1 he
    exact ih (fun c hc => hcalls c (List.mem_cons_of_mem _ hc))
      (h.apply (hcalls c List.mem_cons_self) hc) hrest

end Journey

end World

end Stagecraft
