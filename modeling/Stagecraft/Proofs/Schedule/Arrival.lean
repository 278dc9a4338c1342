import Stagecraft.Proofs.Schedule.Alive
import Stagecraft.Proofs.Schedule.Staged
import Stagecraft.Proofs.Schedule.Standing

/-!
# Arriving at a block

What a block keeps between its executions is on the frame that executes it. A frame that is pushed
or moves on keeps nothing yet, and only a block that is executed on the frame changes that. So a
thread that arrives at a block finds nothing from the last time it was there: not from an earlier
round of a loop, not from the block before, and not from before it started over.

Frames in warp are left out of this, as they may execute a block more than once in a turn.

* `Thread.Unbegun` : no frame outside warp keeps anything for a block;
* `Thread.Works.unbegun` : none does after the primitive of another block;
* `Execution.Next.unbegun` : **none does at the next block**, if none did when the last one was
  over;
* `Execution.unbegun_after` : **executing another block leaves it at that**;
* `Execution.unbegun_first` : **so does a run**, up to the first block of a thread.
-/

namespace Stagecraft

/-! ### Frames -/

namespace Frame

variable {b : Handle} {f f' : Frame}

/-- A frame keeps nothing for a block: it executes another one, or runs in warp, or keeps nothing.
-/
def Unbegun (b : Handle) (f : Frame) : Prop := f.block = b → f.warp = false → f.progress = .fresh

/-- A frame does not execute a block, or it does in warp. -/
def Away (b : Handle) (f : Frame) : Prop := f.block = b → f.warp = true

theorem Away.unbegun (h : f.Away b) : f.Unbegun b := fun hb hwarp => by
  rw [h hb] at hwarp
  cases hwarp

theorem unbegun_start (b h : Handle) (warp : Bool) : (start h warp).Unbegun b := fun _ _ => rfl

theorem unbegun_reuse (b h : Handle) (f : Frame) : (f.reuse h).Unbegun b := fun _ _ => rfl

theorem Stays.away (hF : f.Stays f') (h : f.Away b) : f'.Away b :=
  fun hb => hF.warp (h (hF.block.symm.trans hb))

theorem Stays.unbegun (hF : f.Stays f') (h : f.Unbegun b) : f'.Unbegun b := fun hb hwarp => by
  refine hF.progress.trans (h (hF.block.symm.trans hb) ?_)
  cases hf : f.warp with
  | false => rfl
  | true =>
    rw [hF.warp hf] at hwarp
    cases hwarp

end Frame

namespace Thread

variable {b : Handle} {t t' : Thread} {f : Frame} {below : List Frame} {site : Site}

/-! ### Stacks -/

/-- No frame of a thread keeps anything for a block. -/
def Unbegun (b : Handle) (t : Thread) : Prop := ∀ f ∈ t.stack, f.Unbegun b

namespace Unbegun

theorem of_subset (h : t.Unbegun b) (hs : t'.stack ⊆ t.stack) : t'.Unbegun b :=
  fun f hf => h f (hs hf)

theorem of_stack (h : t.Unbegun b) (hs : t'.stack = t.stack) : t'.Unbegun b :=
  h.of_subset (hs ▸ List.Subset.refl _)

theorem of_nil (h : t.stack = []) : t.Unbegun b := fun f hf => by
  rw [h] at hf
  cases hf

theorem of_cons (hs : t.stack = f :: below) (hf : f.Unbegun b) (hbelow : ∀ x ∈ below, x.Unbegun b) :
    t.Unbegun b := by
  intro x hx
  rw [hs] at hx
  rcases List.mem_cons.1 hx with rfl | hx
  · exact hf
  · exact hbelow x hx

theorem tail (h : t.Unbegun b) (hs : t.stack = f :: below) : ∀ x ∈ below, x.Unbegun b :=
  fun x hx => h x (hs ▸ List.mem_cons_of_mem f hx)

theorem push (h : t.Unbegun b) (x : Handle) : (t.push x).Unbegun b :=
  of_cons rfl (Frame.unbegun_start b x _) h

theorem note (h : t.Unbegun b) {F : Frame → Frame} (hF : ∀ f, Frame.Stays f (F f)) :
    (t.modifyTop F).Unbegun b := by
  cases hs : t.stack with
  | nil => exact (modifyTop_nil hs F).symm ▸ h
  | cons f below =>
    rw [modifyTop_cons hs]
    exact of_cons rfl ((hF f).unbegun (h f (hs ▸ List.mem_cons_self))) (h.tail hs)

/-- Something is noted on a frame anywhere on the stack. -/
theorem noteAt (h : t.Unbegun b) (n : Nat) {F : Frame → Frame} (hF : ∀ f, Frame.Stays f (F f)) :
    (t.modifyFrame n F).Unbegun b := by
  unfold Thread.modifyFrame
  split
  · intro x hx
    obtain ⟨j, hj, rfl⟩ := List.getElem_of_mem hx
    rw [List.getElem_modify]
    split
    · exact (hF _).unbegun (h _ (List.getElem_mem _))
    · exact h _ (List.getElem_mem _)
  · exact h

theorem anew (h : t.Anew) : t.Unbegun b := by
  intro f hf
  rw [h.stack] at hf
  obtain ⟨x, -, rfl⟩ := List.mem_map.1 hf
  exact Frame.unbegun_start b x false

end Unbegun

/-! ### What a primitive does -/

/-- The frame above some others does not execute a block, and no frame keeps anything for it. -/
structure Elsewhere (b : Handle) (below : List Frame) (t : Thread) : Prop where
  away : ∃ above f, t.stack = above ++ f :: below ∧ f.Away b
  unbegun : t.Unbegun b

namespace Elsewhere

theorem push (h : t.Elsewhere b below) (x : Handle) : (t.push x).Elsewhere b below := by
  obtain ⟨above, f, hs, haway⟩ := h.away
  exact ⟨⟨_ :: above, f, by rw [Thread.push, hs]; rfl, haway⟩, h.unbegun.push x⟩

theorem note (h : t.Elsewhere b below) {F : Frame → Frame} (hF : ∀ f, Frame.Stays f (F f)) :
    (t.modifyTop F).Elsewhere b below := by
  refine ⟨?_, h.unbegun.note hF⟩
  obtain ⟨above, f, hs, haway⟩ := h.away
  cases above with
  | nil => exact ⟨[], F f, by rw [modifyTop_cons hs]; rfl, (hF f).away haway⟩
  | cons x above => exact ⟨F x :: above, f, by rw [modifyTop_cons hs]; rfl, haway⟩

/-- The frame may keep what it likes. -/
theorem keep (h : t.Elsewhere b below) (p : Progress) :
    (t.modifyFrame below.length fun f => { f with progress := p }).Elsewhere b below := by
  obtain ⟨above, f, hs, haway⟩ := h.away
  rw [modifyFrame_append above hs]
  refine ⟨⟨above, _, rfl, haway⟩, fun x hx => ?_⟩
  rcases List.mem_append.1 hx with hx | hx
  · exact h.unbegun x (hs ▸ List.mem_append_left _ hx)
  · rcases List.mem_cons.1 hx with rfl | hx
    · exact Frame.Away.unbegun haway
    · exact h.unbegun x (hs ▸ List.mem_append_right _ (List.mem_cons_of_mem f hx))

theorem bears (b : Handle) (below : List Frame) : Bears below.length (Elsewhere b below) :=
  ⟨fun h => ⟨h.away, h.unbegun⟩, push, fun h hF => h.note fun f => (hF f).toStays, keep⟩

end Elsewhere

/-- **Whatever the primitive of another block does**, no frame keeps anything for the block. -/
theorem Works.unbegun (h : Works site t t') (ht : t.Elsewhere b below)
    (hsite : site.frame = below.length) : t'.Unbegun b := by
  obtain ⟨t₁, hstirs, hquit⟩ := h
  have hbears : Bears site.frame (Elsewhere b below) := hsite ▸ Elsewhere.bears b below
  have hclear := (hbears.stirs (fun h => ⟨h.away, h.unbegun⟩) hstirs ht).unbegun
  cases hquit with
  | stays => exact hclear
  | stopScript => exact hclear.of_subset (List.dropWhile_sublist _).subset
  | retire => exact .of_nil rfl

end Thread

/-! ### Leaving a block -/

namespace Scheduler

variable {b : Handle} {k : Scheduler} {now : Span} {g : Graph} {t : Thread}

/-- A thread that leaves a block keeps nothing for it, nor for the one that it gets to. -/
theorem Advanced.unbegun {r : Thread × Turn} (h : Advanced k now g t r)
    (ht : ∀ f ∈ t.stack.tail, f.Unbegun b) : r.1.Unbegun b := by
  cases h with
  | empty hs => exact .of_nil hs
  | @next f rest n hs =>
    exact .of_cons rfl (Frame.unbegun_reuse b n f) fun x hx =>
      ht x ((Frame.suffix_tail hs).subset hx)
  | loop hs => exact fun x hx => ht x (hs.subset hx)
  | emptied => exact .of_nil rfl

end Scheduler

/-! ### Between turns -/

namespace Thread

variable {b : Handle} {t t' : Thread}

theorem Unbegun.advanced {k : Scheduler} {now : Span} {g : Graph} {r : Thread × Turn}
    (h : t.Unbegun b) (ha : Scheduler.Advanced k now g t r) : r.1.Unbegun b :=
  ha.unbegun fun f hf => h f (List.mem_of_mem_tail hf)

theorem Unbegun.atRest (h : t.Unbegun b) : t.atRest.Unbegun b := by
  by_cases hr : t.restarting = true
  · exact .anew (anew_atRest hr)
  · rw [Thread.atRest, if_neg hr]
    exact h

theorem Unbegun.handled (h : t.Unbegun b) (hh : Handled t t') : t'.Unbegun b := by
  cases hh with
  | kept => exact h
  | stopped => exact .of_nil rfl
  | startedOver => exact .of_cons rfl (Frame.unbegun_start b _ false) fun _ hx => by cases hx

theorem Unbegun.due (h : t.Unbegun b) : t.due.Unbegun b := by
  unfold Thread.due
  split <;> exact h

theorem Unbegun.waited (h : t.Unbegun b) (hw : Waited t t') : t'.Unbegun b := by
  rcases hw with hw | hw
  · exact h.handled hw
  · exact h.due.handled hw

/-- A result has come. -/
theorem Unbegun.takenIn {σ : Type} {k : Scheduler} {w : World σ} {slot : Slotting} {v : Value}
    {r : Thread × Bool} (h : t.Unbegun b) (hr : Pass.TakenIn k w t v slot r) : r.1.Unbegun b := by
  have hawake : t.awake.Unbegun b := h
  cases hr with
  | reporter c => exact hawake.note fun _ => ⟨rfl, rfl, fun h => h⟩
  | retired => exact .of_nil rfl
  | advanced _ ha =>
    have hforgot : (t.awake.modifyTop fun f => { f with reported := .empty }).Unbegun b :=
      hawake.note fun _ => ⟨rfl, rfl, fun h => h⟩
    exact hforgot.advanced (Scheduler.advanced_of_advance ha)

theorem Unbegun.woken {σ : Type} {k : Scheduler} {w : World σ} {r : Scene σ × Bool}
    (h : t.Unbegun b) (hr : Pass.Woken k w t r) : r.1.thread.Unbegun b := by
  cases hr with
  | free | waits => exact h
  | takesIn _ _ htake => exact h.takenIn (Pass.takenIn_of_takeIn htake)
  | refused => exact .of_nil rfl

/-- **While a thread rests** nothing is kept for a block. -/
theorem Rests.unbegun (hr : Rests t t') (h : t.Unbegun b) : t'.Unbegun b := by
  induction hr with
  | refl => exact h
  | tail _ hrest ih =>
    cases hrest with
    | waited hw => exact ih.waited hw
    | settled => exact ih
    | woken k w _ => exact ih.woken (Pass.woken_of_wake rfl)
    | retired => exact .of_nil rfl
    | ended _ =>
      refine Unbegun.atRest ?_
      exact ih

end Thread

/-! ### Executing another block -/

namespace Scene

variable {σ : Type} {b : Handle} {s : Scene σ}

theorem unbegun_finish (site : Site) {r : Scene σ × Outcome} (h : r.1.thread.Unbegun b) :
    (finish site r).1.thread.Unbegun b := by
  have hforget : (r.1.forget site.frame).thread.Unbegun b :=
    Thread.Unbegun.noteAt h site.frame fun _ => ⟨rfl, rfl, fun h => h⟩
  exact finish_cases (P := fun s => s.thread.Unbegun b) (fun _ _ => h) hforget fun _ _ => hforget

theorem Obeyed.unbegun {r : Scene σ × Bool} (ho : Obeyed s r) (h : s.thread.Unbegun b) :
    r.1.thread.Unbegun b := by
  cases ho with
  | unasked | startsOver => exact h
  | stopped => exact .of_nil rfl

theorem Proceeded.unbegun {k : Scheduler} {g : Graph} {top : Handle} {warp : Bool}
    {r : Scene σ × Turn} (hp : Proceeded k g top warp s r) (h : s.thread.Unbegun b) :
    r.1.thread.Unbegun b := by
  cases hp with
  | moved _ _ ha => exact h.advanced (Scheduler.advanced_of_advance ha)
  | _ => exact h

end Scene

namespace Execution

open Scene Thread

variable {σ : Type} {b : Handle} {e e' : Execution σ} {f f' : Frame} {below : List Frame}
  {s : Scene σ}

/-- What is left when a block has been executed. -/
theorem unbegun_executed (hext : e.ext.Regular) (hg : e.graph.PlugsValues e.ext)
    (hs : e.thread.stack = f :: below) (haway : f.Away b) (h : e.thread.Unbegun b) :
    e.executed.1.thread.Unbegun b := by
  have hentered := stack_entered hs
  -- the inputs leave the stack alone, but for what its top frame remembers
  have hclear : ∀ {l : List (Invocation σ)} {s : Scene σ},
      Evaluates e.ext (e.site f.block) e.entered l s → s.thread.Elsewhere b below := by
    intro l s he
    obtain ⟨memo, hthread⟩ := he.spares hg (frame_site hs _) hentered
    rw [hthread]
    exact ⟨⟨[], _, rfl, haway⟩, .of_cons rfl (Frame.Away.unbegun haway) (h.tail hs)⟩
  obtain ⟨l, -, hgoes⟩ := goes hs
  generalize e.call? = c at hgoes
  generalize e.executed = r at hgoes
  cases hgoes with
  | gone _ => exact h.of_stack (hentered.trans hs.symm)
  | failed fault he => exact (hclear he).unbegun
  | parked channel c he => exact (hclear he).unbegun.of_stack rfl
  | @ran l i _ he hsite _ _ =>
    have hworks : Thread.Works i.site i.before.thread (i.result e.ext).1.thread :=
      Primitive.thread_works hext i.opcode i.site i.args i.before
    exact unbegun_finish _ (hworks.unbegun (hclear he) (hsite ▸ frame_site hs _))

/-- **Executing another block** leaves nothing for a block. -/
theorem unbegun_after (hext : e.ext.Regular) (hg : e.graph.PlugsValues e.ext)
    (haway : ∀ f ∈ e.thread.stack.head?, f.Away b) (h : e.thread.Unbegun b) :
    e.after.2.1.thread.Unbegun b := by
  cases hs : e.thread.stack with
  | nil =>
    have htop : e.scene.thread.topBlock? = none := topBlock?_nil hs
    rw [after, stepBlock, htop]
    exact h
  | cons f below =>
    rw [hs] at haway
    have hexecuted := unbegun_executed hext hg hs (haway f rfl) h
    rw [after_eq e (topBlock?_eq hs)]
    rcases hx : e.executed with ⟨s, fault⟩
    rw [hx] at hexecuted
    cases fault with
    | some fault => exact .of_nil rfl
    | none =>
      simp only
      rcases ho : s.obey with ⟨s', asked⟩
      have hobeyed := (obeyed_of_obey ho).unbegun hexecuted
      cases asked with
      | true => exact hobeyed
      | false => exact (proceeded_of_proceed rfl).unbegun hobeyed

/-! ### The next block -/

/-- **Nothing is kept at the next block** if nothing was when the last one was over. -/
theorem Next.unbegun (hn : Next e e') (h : e.after.2.1.thread.Unbegun b) : e'.thread.Unbegun b := by
  obtain ⟨⟨ht, -⟩ | ⟨t, hrests, ht⟩, -⟩ := hn.cases
  · exact ht ▸ h
  · refine hrests.unbegun (Unbegun.atRest ?_)
    rcases ht with rfl | ⟨-, rfl⟩ <;> exact h

/-- Nor is anything kept when the thread has moved past the block. -/
theorem Next.unbegun_of_movesPast (hn : Next e e') (hs : e.thread.stack = f :: below)
    (hx : e.executed = (s, none)) (hstack : s.thread.stack = f' :: below) (hpast : e.MovesPast)
    (hbelow : ∀ x ∈ below, x.Unbegun b) : e'.thread.Unbegun b := by
  cases ho : s.obey.2 with
  | false =>
    have ha := hpast (by rw [hx]; exact ho)
    refine hn.unbegun ?_
    rw [ha, hx]
    exact (Scheduler.advanced_of_advance rfl).unbegun (by rw [hstack]; exact hbelow)
  | true =>
    rcases obeyed_cases hs hx ho with ⟨hr, hends⟩ | hgone
    · exact .anew (hn.anew hr hends)
    · exact hn.unbegun (.of_nil hgone)

end Execution

/-! ### The first block in a run -/

namespace World

open Execution Thread

variable {σ : Type} {ext : Extensions σ} {w w' : World σ} {b : Handle} {id : ThreadId}

/-- If a thread is in the lists, it keeps nothing for a block. -/
def Unbegun (b : Handle) (id : ThreadId) (w : World σ) : Prop :=
  ∀ t ∈ w.threads ++ w.spawned, t.id = id → t.Unbegun b

theorem Deed.unbegun (hd : Deed w w') (h : w.Unbegun b id) : w'.Unbegun b id := by
  refine hd.keeps_threads (R := fun t => t.id = id → t.Unbegun b) (fun _ _ top _ => ?_)
    (fun hh ht hid => (ht (hh.id.symm.trans hid)).handled hh) (fun ht => ht) h
  exact .of_cons rfl (Frame.unbegun_start b top false) fun _ hx => by cases hx

/-- A step executes blocks of threads that were there before it. -/
theorem lt_of_mem_ofStep (hext : ext.Orderly) (hw : w.Settled) (fuel : Nat) :
    ∀ e ∈ ofStep ext fuel w, e.thread.id < w.nextThread := by
  refine (annals_step (annals_lasting (I := fun _ => True) (fun _ _ => trivial)
    (fun _ _ => trivial) fun {p i _} ha _ e he => ?_) hext hw).1 trivial
  unfold Log.visitAt at he
  cases ht : p.world.threads[i]? with
  | none =>
    rw [ht] at he
    cases he
  | some t =>
    rw [ht] at he
    have hid : e.thread.id = t.id := (Pass.keeps_visitExecutions hext fuel _ _ t).ids e he
    exact hid ▸ hw.lt_of_mem (ha.mem_of_mem (List.mem_of_getElem? ht))

/-- A thread that a step has started keeps nothing. -/
theorem unbegun_of_started (hext : ext.Orderly) (hw : w.Settled) {fuel : Nat}
    {ended : List ThreadId} (h : w.step ext fuel = some (w', ended)) (hid : w.nextThread ≤ id) :
    w'.Unbegun b id := by
  intro t ht htid
  have hstart := untried_of_step hext hw h t ht (htid ▸ hid) (alive_of_step hw.idle h t ht)
  exact hstart ▸ .anew (anew_restart t)

/-- In a step a thread keeps nothing up to its first block, or to the end. -/
theorem unbegun_ofStep (hext : ext.Orderly) (hw : w.Settled) (hn : w.Counted)
    (h : w.Unbegun b id) (fuel : Nat) :
    (∀ e ∈ (own id (ofStep ext fuel w)).head?, e.thread.Unbegun b) ∧
      (own id (ofStep ext fuel w) = [] → ∀ w' ended, w.step ext fuel = some (w', ended) →
        w'.Unbegun b id) := by
  obtain ⟨hbegins, hleads⟩ := Diary.leads_step Pass.keeps_visitExecutions hext hw hn fuel id
  by_cases hid : id < w.nextThread
  · refine ⟨fun e he => ?_, fun hnil w' ended hstep t' ht' htid => ?_⟩
    · obtain ⟨t, ht, htid, hrests, -⟩ := hbegins.first e he hid
      exact hrests.unbegun (h t ht htid)
    · obtain ⟨t, ht, htid₀, hrests⟩ := (hleads w' ended hstep).idle hnil t' ht' htid hid
      exact Rests.unbegun hrests (h t ht htid₀)
  · refine ⟨fun e he => ?_, fun _ w' ended hstep =>
      unbegun_of_started hext hw hstep (Nat.not_lt.1 hid)⟩
    obtain ⟨hmem, htid⟩ := (diary σ).mem_own.1 (List.mem_of_mem_head? he)
    exact absurd (htid ▸ lt_of_mem_ofStep hext hw fuel e hmem) hid

end World

namespace Execution

open World

variable {σ : Type} {ext : Extensions σ} {w w' : World σ} {b : Handle} {id : ThreadId}
  {l : List (Execution σ)} {P : Extensions σ → Prop}

/-- **In a run a thread keeps nothing for a block up to the first one that it executes**, if it did
not at the beginning. It need not be there yet then. -/
theorem unbegun_first (hw : w.Reachable) (h : Plays P w l w') (hP : ∀ ext, P ext → ext.Orderly)
    (hext : P ext) (fuel : Nat) (hidle : w.Unbegun b id) :
    ∀ e ∈ (own id (l ++ ofStep ext fuel w')).head?, e.thread.Unbegun b := by
  have hs := settled_of_reachable hw
  have hn := counted_of_reachable hw
  clear hw
  induction h with
  | nil w => exact (unbegun_ofStep (hP ext hext) hs hn hidle fuel).1
  | deed hd _ ih =>
    have hf := hd.conserves.follows hs
    exact ih (hd.unbegun hidle) hf.settled (hn.of_follows hf)
  | @step ext' fuel' w w₁ w' ended rest hext' hstep _ ih =>
    obtain ⟨hfirst, hidle'⟩ := unbegun_ofStep (hP ext' hext') hs hn hidle fuel'
    have hf := follows_of_step (hP ext' hext') hs hstep
    intro e he
    rw [List.append_assoc, own, Diary.own_append, List.head?_append] at he
    cases hown : own id (ofStep ext' fuel' w) with
    | nil =>
      have hnil : (diary σ).own id (ofStep ext' fuel' w) = [] := hown
      rw [hnil] at he
      exact ih (hidle' hown w₁ ended hstep) hf.settled (hn.of_follows hf) e he
    | cons x rest =>
      have hcons : (diary σ).own id (ofStep ext' fuel' w) = x :: rest := hown
      rw [hcons] at he
      exact hfirst e (hown ▸ he)

end Execution

end Stagecraft
