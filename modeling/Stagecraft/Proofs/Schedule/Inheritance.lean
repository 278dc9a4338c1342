import Stagecraft.Proofs.Schedule.Flags
import Stagecraft.Proofs.Schedule.Staged

/-!
# Warp is inherited upwards

The frames of a warp region are on top of each other, and the region ends where its bottom frame is
popped. That needs three things: a frame above a warp frame is in warp; a frame that is in warp
stays so until it is popped, also when it moves on to other blocks; and what is below a frame is not
touched while the frame is there. Here they are told of all threads at all moments of all runs.

A thread is looked at before and after each primitive that it runs, and before and after each block.
In between it is only known to have rested. It may have started over meanwhile: then all its frames
were popped, and one that is new stands at its top block.

* `Glimpse`, `Glimpse.Next` : a thread at a moment, and what can be seen at the next one;
* `Glimpse.Lasting` : flags that stay set, and frames below that stay as they are;
* `Execution.scenes`, `Execution.history` : the moments of a block, and those of a thread;
* `Execution.led` : **executing a block changes the flags step by step**;
* `Scene.Along.inherits` : **primitives and the scheduler keep warp inherited**, in all threads;
* `Execution.inherits_of_plays` : **in a run warp is inherited**, it lasts, and it ends with the
  frame with which it began.
-/

namespace Stagecraft

/-! ### Moments of a thread -/

/-- A thread at some moment. -/
structure Glimpse where
  /-- The thread. -/
  thread : Thread
  /-- Whether it may have rested before: it is about to execute a block, or still rests. -/
  opening : Bool

namespace Glimpse

variable {a b m : Glimpse} {l seg : List Glimpse} {n : Nat}

/-- The thread has started over, so all frames that it had before have been popped. -/
def StartsOver (b : Glimpse) : Prop := b.opening = true ∧ b.thread.Anew

/-- The frame at a height is still there; heights are counted from zero at the bottom. -/
def Keeps (n : Nat) (b : Glimpse) : Prop := n < b.thread.depth ∧ ¬b.StartsOver

/-- One moment after the other. -/
def Next (a b : Glimpse) : Prop := b.StartsOver ∨ Shifts a.thread.flags b.thread.flags

/-- What is told of the moments of a thread. -/
structure Lasting (l : List Glimpse) : Prop where
  /-- A flag that is set at some moment stays set until the frame is popped. -/
  stays : ∀ (n : Nat) (front seg rest : List Glimpse) (a : Glimpse),
    l = front ++ a :: (seg ++ rest) → (∀ b ∈ seg, b.Keeps n) →
      a.thread.flags[n]? = some true → ∀ b ∈ seg, b.thread.flags[n]? = some true
  /-- When a frame is popped those that are left have the flags that they had when it was pushed.
  It was pushed after `a`, on as many frames as its height says, and it has been popped at `b`. -/
  restores : ∀ (n : Nat) (front seg rest : List Glimpse) (a b : Glimpse),
    l = front ++ a :: (seg ++ b :: rest) → a.thread.depth ≤ n → seg ≠ [] →
      (∀ m ∈ seg, n < m.thread.depth) → b.thread.depth ≤ n → ¬b.StartsOver →
        b.thread.flags <+: a.thread.flags

theorem StartsOver.depth_le (h : b.StartsOver) : b.thread.depth ≤ 1 := by
  rw [Thread.depth, h.2.stack, List.length_map]
  cases b.thread.top <;> simp

/-- While the frame at a height is there, what one moment hands on to the next is told of all. -/
theorem forall_of_chain {P : List Bool → Prop}
    (hP : ∀ {l l' : List Bool}, Shifts l l' → n < l.length → n < l'.length → P l → P l')
    (h : (a :: seg).IsChain Next) (hseg : ∀ b ∈ seg, b.Keeps n) (hn : n < a.thread.depth)
    (ha : P a.thread.flags) : ∀ b ∈ a :: seg, P b.thread.flags := by
  induction seg generalizing a with
  | nil => exact fun b hb => List.mem_singleton.1 hb ▸ ha
  | cons m seg ih =>
    obtain ⟨hnext, hrest⟩ := List.isChain_cons_cons.1 h
    obtain ⟨hdepth, hstays⟩ := hseg m List.mem_cons_self
    have hm := hP (hnext.resolve_left hstays) (a.thread.length_flags ▸ hn)
      (m.thread.length_flags ▸ hdepth) ha
    intro b hb
    rcases List.mem_cons.1 hb with rfl | hb
    · exact ha
    · exact ih hrest (fun x hx => hseg x (List.mem_cons_of_mem m hx)) hdepth hm b hb

/-- A frame is pushed and popped, and something happens on top of it in between. -/
theorem prefix_of_chain (h : (a :: (seg ++ [b])).IsChain Next) (ha : a.thread.depth ≤ n)
    (hne : seg ≠ []) (hseg : ∀ m ∈ seg, n < m.thread.depth) (hb : b.thread.depth ≤ n)
    (hover : ¬b.StartsOver) : b.thread.flags <+: a.thread.flags := by
  cases n with
  | zero =>
    have hnil : b.thread.flags = [] :=
      List.length_eq_zero_iff.1 (b.thread.length_flags.trans (Nat.le_zero.1 hb))
    exact hnil ▸ List.nil_prefix
  | succ n =>
    -- with two frames at least the thread has not just started over
    have hkeeps : ∀ m ∈ seg, m.Keeps (n + 1) := fun m hm =>
      ⟨hseg m hm, fun ho => absurd ho.depth_le (Nat.not_le.2 (by have := hseg m hm; omega))⟩
    obtain ⟨m, rest, rfl⟩ := List.exists_cons_of_ne_nil hne
    obtain ⟨hpush, hrest⟩ := List.isChain_cons_cons.1 h
    have hchain : ((m :: rest) ++ [b]).IsChain Next := hrest
    obtain ⟨hinner, -, hpop⟩ := List.isChain_append.1 hchain
    obtain ⟨hdepth, hstays⟩ := hkeeps m List.mem_cons_self
    have hfirst : m.thread.flags.take (n + 1) = a.thread.flags :=
      (hpush.resolve_left hstays).take_of_push (a.thread.length_flags ▸ ha)
        (m.thread.length_flags ▸ hdepth)
    have hbelow := forall_of_chain (P := fun l => l.take (n + 1) = a.thread.flags)
      (fun hs hl hl' hbase => (hs.take hl hl').trans hbase) hinner
      (fun x hx => hkeeps x (List.mem_cons_of_mem m hx)) hdepth hfirst
    obtain ⟨last, hlast⟩ : ∃ last, (m :: rest).getLast? = some last :=
      Option.ne_none_iff_exists'.1 (by simp)
    have hmem := List.mem_of_getLast? hlast
    rw [← hbelow last hmem]
    exact ((hpop last hlast b rfl).resolve_left hover).prefix_of_pop
      (last.thread.length_flags ▸ hseg last hmem) (b.thread.length_flags ▸ hb)

/-- **Moments that follow each other last.** -/
theorem lasting_of_chain (h : l.IsChain Next) : Lasting l := by
  refine ⟨fun n front seg rest a hl hseg hset => ?_,
    fun n front seg rest a b hl ha hne hseg hb hover => ?_⟩
  · rw [hl, ← List.cons_append] at h
    have hchain := (List.isChain_append.1 (List.isChain_append.1 h).2.1).1
    have hn : n < a.thread.depth := a.thread.length_flags ▸ (List.getElem?_eq_some_iff.1 hset).1
    exact fun b hb => forall_of_chain (P := (·[n]? = some true))
      (fun hs _ hl' hset => hs.stays hl' hset) hchain hseg hn hset b (List.mem_cons_of_mem a hb)
  · have hsplit : l = front ++ ((a :: (seg ++ [b])) ++ rest) := by rw [hl]; simp
    rw [hsplit] at h
    have hchain := (List.isChain_append.1 (List.isChain_append.1 h).2.1).1
    exact prefix_of_chain hchain ha hne hseg hb hover

end Glimpse

/-! ### From scene to scene -/

namespace Scene

variable {σ : Type} {k : Scheduler} {g : Graph} {site : Site} {s s' : Scene σ}
  {l : List (Invocation σ)} {row row' row'' : List Bool} {scenes scenes' : List (Scene σ)}

/-- The flags of the running thread change from scene to scene. -/
inductive Led : List Bool → List (Scene σ) → List Bool → Prop
  | nil (row : List Bool) : Led row [] row
  | cons {row row' : List Bool} {s : Scene σ} {scenes : List (Scene σ)} :
      Shifts row s.thread.flags → Led s.thread.flags scenes row' → Led row (s :: scenes) row'

namespace Led

theorem one (h : Shifts row s.thread.flags) : Led row [s] s.thread.flags := .cons h (.nil _)

theorem append (h : Led row scenes row') (h' : Led row' scenes' row'') :
    Led row (scenes ++ scenes') row'' := by
  induction h with
  | nil => exact h'
  | cons hs _ ih => exact .cons hs (ih h')

theorem chain (h : Led row scenes row') {a : Glimpse} (ha : a.thread.flags = row) :
    (a :: scenes.map fun s => (⟨s.thread, false⟩ : Glimpse)).IsChain Glimpse.Next := by
  induction h generalizing a with
  | nil => exact .singleton _
  | cons hs _ ih => exact List.isChain_cons_cons.2 ⟨.inr (ha ▸ hs), ih rfl⟩

end Led

/-- The scenes before and after primitives. -/
def ofCalls (ext : Extensions σ) (calls : List (Invocation σ)) : List (Scene σ) :=
  calls.flatMap fun i => [i.before, (i.result ext).1]

/-- A primitive is run. -/
theorem Led.call {i : Invocation σ} (h : Led row (ofCalls .empty l) i.before.thread.flags) :
    Led row (ofCalls .empty (l ++ [i])) (i.result .empty).1.thread.flags := by
  rw [ofCalls, List.flatMap_append]
  exact h.append (.cons (.of_eq rfl)
    (.one (Primitive.shifts_run i.site i.args i.before i.opcode)))

theorem Evaluates.led (h : Evaluates .empty site s l s') :
    Led s.thread.flags (ofCalls .empty l) s'.thread.flags := by
  induction h with
  | nil => exact .nil _
  | remember h v _ ih => exact (flags_remember _ site.frame h v).symm ▸ ih
  | report _ _ _ ih => exact ih.call

theorem Executed.led {r : Scene σ × Option Fault} (h : Executed .empty k g s l r) :
    Led s.thread.flags (ofCalls .empty l ++ [r.1]) r.1.thread.flags := by
  cases h with
  | skipped => exact .one (.of_eq rfl)
  | failed f _ he => exact he.led.append (.one (.of_eq rfl))
  | parked channel c _ he => exact he.led.append (.one (.of_eq rfl))
  | ran _ he _ _ => exact he.led.call.append (.one (.of_eq (flags_finish _ _)))

/-- Getting past a block that was executed. -/
theorem Stepped.flags {ext : Extensions σ} {k' : Scheduler} {turn : Turn}
    (h : Stepped ext g k s k' s' turn) :
    s'.thread.flags <+: (s.entered.execute ext k.countBlock g).1.thread.flags := by
  cases h with
  | empty ht =>
    rw [Thread.flags_nil (t := { s.thread with status := .done }) (Thread.stack_of_topBlock? ht)]
    exact List.nil_prefix
  | failed => exact List.nil_prefix
  | obeyed _ hx ho =>
    rw [hx]
    exact (obeyed_of_obey ho).flags
  | moved _ hx _ hp =>
    rw [hx]
    exact (proceeded_of_proceed hp).flags

end Scene

namespace Execution

open Scene Thread

variable {σ : Type} (e : Execution σ) {e' : Execution σ} {t : Thread} {l : List (Execution σ)}

/-- The scenes that come while a block is executed. -/
def scenes : List (Scene σ) :=
  e.entered :: (ofCalls e.ext e.calls ++ [e.executed.1]) ++ [e.after.2.1]

/-- A thread while it executes a block. -/
def glimpses : List Glimpse := ⟨e.thread, true⟩ :: e.scenes.map fun s => ⟨s.thread, false⟩

/-- A thread while it executes blocks, with those of others left out. -/
def history (id : ThreadId) (l : List (Execution σ)) : List Glimpse := (own id l).flatMap glimpses

/-- How the block leaves the thread. -/
def left : Glimpse := ⟨e.after.2.1.thread, false⟩

variable {e}

/-- **Executing a block changes the flags step by step.** -/
theorem led (hext : e.ext = .empty) : Led e.thread.flags e.scenes e.after.2.1.thread.flags := by
  obtain ⟨ext, k, g, s⟩ := e
  obtain rfl : ext = .empty := hext
  have hentered : s.entered.thread.flags = s.thread.flags := flags_of_stack s.stack_entered
  have hexecuted := (Scene.executed .empty k.countBlock g s.entered).led
  have hafter := (stepped_of_stepBlock (rfl : s.stepBlock .empty g k = (_, _, _))).flags
  exact (Led.cons (.of_eq hentered) hexecuted).append (.one (.leaves hafter))

theorem chain_glimpses (hext : e.ext = .empty) : e.glimpses.IsChain Glimpse.Next :=
  (led hext).chain rfl

theorem getLast?_glimpses (e : Execution σ) : e.glimpses.getLast? = some e.left := by
  simp [glimpses, scenes, left, List.getLast?_cons]

theorem getLast?_history (id : ThreadId) (l : List (Execution σ)) :
    (history id l).getLast? = (own id l).getLast?.map left := by
  rw [history]
  rcases List.eq_nil_or_concat (own id l) with hnil | ⟨init, e, hown⟩
  · rw [hnil]
    rfl
  · rw [hown, List.concat_eq_append, List.flatMap_append, List.getLast?_append,
      List.flatMap_singleton, getLast?_glimpses, List.getLast?_concat]
    rfl

/-- A thread that has rested since the block. -/
theorem Leaves.glimpse (h : e.Leaves t) : e.left.Next ⟨t, true⟩ := by
  have hrecedes : e.after.2.1.thread.Recedes t := by
    cases h with
    | ends _ hr => exact (recedes_atRest _).rests hr
    | empties _ hr => exact (recedes_atRest { e.after.2.1.thread with status := .done }).rests hr
  exact hrecedes.imp (fun hanew => ⟨rfl, hanew⟩) Shifts.leaves

theorem Next.glimpse (h : Next e e') : e.left.Next ⟨e'.thread, true⟩ := by
  cases h with
  | goesOn ha _ _ _ =>
    refine .inr (.of_eq ?_)
    simp only [left, ha]
    rfl
  | later hl _ => exact hl.glimpse

theorem chain_flatMap (h : l.IsChain Next) (hext : ∀ e ∈ l, e.ext = .empty) :
    (l.flatMap glimpses).IsChain Glimpse.Next := by
  induction l with
  | nil => exact .nil
  | cons e rest ih =>
    have hrest := ih h.tail fun x hx => hext x (List.mem_cons_of_mem e hx)
    rw [List.flatMap_cons]
    refine List.isChain_append.2
      ⟨chain_glimpses (hext e List.mem_cons_self), hrest, fun a ha b hb => ?_⟩
    rw [getLast?_glimpses] at ha
    cases ha
    cases rest with
    | nil => cases hb
    | cons e' rest =>
      cases hb
      exact (List.isChain_cons_cons.1 h).1.glimpse

/-- **The moments of a thread follow each other** if its blocks do. -/
theorem chain_history {id : ThreadId} (h : (own id l).IsChain Next)
    (hext : ∀ e ∈ l, e.ext = .empty) : (history id l).IsChain Glimpse.Next :=
  chain_flatMap h fun e he => hext e ((diary σ).mem_own.1 he).1

end Execution

/-! ### All threads -/

/-- All threads in the lists inherit warp from frame to frame. -/
def World.Inherits {σ : Type} (w : World σ) : Prop :=
  ∀ t ∈ w.threads ++ w.spawned, t.Inherits

/-- So do they and the thread that has its turn. -/
structure Scene.Inherits {σ : Type} (s : Scene σ) : Prop where
  thread : s.thread.Inherits
  world : s.world.Inherits

namespace Thread

variable {t t' : Thread}

theorem Inherits.of_nil (h : t.stack = []) : t.Inherits := by
  rw [Inherits, flags_nil h]
  exact .nil

theorem Inherits.of_anew (h : t.Anew) : t.Inherits := by
  rw [Inherits, flags, h.stack]
  cases t.top with
  | none => exact .nil
  | some top => exact .singleton _

theorem Inherits.recedes (h : t.Inherits) (hr : t.Recedes t') : t'.Inherits :=
  hr.elim .of_anew h.of_prefix

theorem inherits_start (id : ThreadId) (actor : ActorId) (top : Handle) :
    (Thread.start id actor top).Inherits := .singleton _

end Thread

namespace World

open Thread

variable {σ : Type} {w w' : World σ}

theorem Descends.inherits (h : Descends w w') (hw : w.Inherits) : w'.Inherits :=
  h.keeps_threads inherits_start (fun hh ht => ht.recedes hh.recedes) hw

theorem Deed.inherits (h : Deed w w') (hw : w.Inherits) : w'.Inherits :=
  h.keeps_threads inherits_start (fun hh ht => ht.recedes hh.recedes) (fun ht => ht) hw

theorem Aside.inherits (h : Aside w w') (hw : w.Inherits) : w'.Inherits := by
  intro t' ht'
  obtain ⟨t, ht, rfl | rfl⟩ := h.origin t' ht'
  · exact hw _ ht
  · rw [Thread.Inherits, flags_due]
    exact hw t ht

/-- A thread comes back to its place, or another stands in for it. -/
theorem Inherits.set (hw : w.Inherits) (i : Nat) {t : Thread} (ht : t.Inherits) :
    Inherits { w with threads := w.threads.set i t } := by
  intro u hu
  rcases Thread.mem_set hu with hu | rfl
  · exact hw u hu
  · exact ht

end World

namespace Scene

open World Thread

variable {σ : Type} {k : Scheduler} {g? : Option Graph} {s s' : Scene σ} {l : List (Invocation σ)}

theorem Inherits.tidies (h : s.Inherits) (ht : Tidies k g? s s') : s'.Inherits := by
  cases ht with
  | tend hw =>
    refine ⟨h.thread, ?_⟩
    have hworld := h.world
    rwa [World.Inherits, ← hw.threads, ← hw.spawned] at hworld
  | mark ht =>
    refine ⟨?_, h.world⟩
    rw [Thread.Inherits, flags_of_stack ht.stack]
    exact h.thread
  | memo n f =>
    refine ⟨?_, h.world⟩
    have hmemo := Frame.flags_modify (F := fun x => { x with reported := f x.reported })
      (fun _ => rfl) s.thread.stack n
    rw [Thread.Inherits, flags, hmemo]
    exact h.thread
  | retire => exact ⟨.of_nil rfl, h.world⟩
  | restart => exact ⟨.of_anew s.thread.anew_restart, h.world⟩
  | advance => exact ⟨h.thread.of_prefix (Scheduler.advanced_of_advance rfl).flags, h.world⟩

/-- A primitive is run. -/
theorem Inherits.call {i : Invocation σ} (h : i.before.Inherits) :
    (i.result .empty).1.Inherits := by
  have hacts : Acts .empty i.before (i.result .empty).1 :=
    Primitive.acts_run i.site i.args i.before i.opcode
  exact ⟨h.thread.shifts (Primitive.shifts_run i.site i.args i.before i.opcode),
    (upheld_tends.acts hacts).descends.inherits h.world⟩

/-- **Primitives and the scheduler keep warp inherited**, in all threads. -/
theorem Along.inherits (ha : Along k g? s l s') (h : s.Inherits) : s'.Inherits := by
  induction ha with
  | nil => exact h
  | tidy _ ht ih => exact ih.tidies ht
  | call _ _ ih => exact ih.call

/-- So they do around each primitive on the way. -/
theorem Along.inherits_ofCalls (ha : Along k g? s l s') (h : s.Inherits) :
    ∀ x ∈ ofCalls .empty l, x.Inherits := by
  intro x hx
  obtain ⟨i, hi, hx⟩ := List.mem_flatMap.1 hx
  obtain ⟨front, rest, hsplit⟩ := List.append_of_mem hi
  have hbefore := (ha.upto hsplit).1.inherits h
  rcases List.mem_cons.1 hx with rfl | hx
  · exact hbefore
  · rw [List.mem_singleton.1 hx]
    exact hbefore.call

end Scene

namespace Execution

open Scene

variable {σ : Type} {e : Execution σ}

/-- While a block is executed warp is inherited, if it was before. -/
theorem inherits_scenes (hext : e.ext = .empty) (h : e.scene.Inherits) :
    ∀ s ∈ e.scenes, s.Inherits := by
  obtain ⟨ext, k, g, s⟩ := e
  obtain rfl : ext = .empty := hext
  have hpast : Along k none s [] s.entered := along_entered s
  have hentered := hpast.inherits h
  have halong := (Scene.executed .empty k.countBlock g s.entered).along (.refl _)
  have hafter := (stepped_of_stepBlock (rfl : s.stepBlock .empty g k = (_, _, _))).along (.refl k)
  intro x hx
  rcases List.mem_append.1 hx with hx | hx
  · rcases List.mem_cons.1 hx with rfl | hx
    · exact hentered
    · rcases List.mem_append.1 hx with hx | hx
      · exact halong.inherits_ofCalls hentered x hx
      · rw [List.mem_singleton.1 hx]
        exact halong.inherits hentered
  · rw [List.mem_singleton.1 hx]
    exact hafter.inherits h

end Execution

/-! ### Turns and steps -/

namespace Scene

variable {σ : Type}

/-- Warp is inherited at every block of a turn. -/
theorem inherits_executions {g : Graph} (fuel : Nat) {k : Scheduler} {s : Scene σ}
    (h : s.Inherits) : ∀ e ∈ executions .empty g fuel k s, e.scene.Inherits := by
  have hblock : ∀ (k : Scheduler) (s : Scene σ), s.Inherits →
      (s.stepBlock .empty g k).2.1.Inherits := fun k s h =>
    ((stepped_of_stepBlock (rfl : s.stepBlock .empty g k = (_, _, _))).along (.refl k)).inherits h
  exact fun e he => (unfolds_executions (R := fun s s' : Scene σ => s.Inherits → s'.Inherits)
    (fun _ => id) (fun h h' hs => h' (h hs)) hblock fuel k s).first e he h

end Scene

namespace Pass

open World

variable {σ : Type} {k : Scheduler} {w : World σ} {t : Thread}

theorem inherits_runExecutions (fuel : Nat) (h : (⟨w, t⟩ : Scene σ).Inherits) :
    ∀ e ∈ runExecutions .empty fuel k w t, e.scene.Inherits :=
  runExecutions_cases (P := fun l _ => ∀ e ∈ l, e.scene.Inherits) (fun _ he => by cases he)
    fun _ _ => Scene.inherits_executions fuel ⟨h.thread, h.world⟩

theorem inherits_visitExecutions (fuel : Nat) (h : (⟨w, t⟩ : Scene σ).Inherits) :
    ∀ e ∈ visitExecutions .empty fuel k w t, e.scene.Inherits :=
  visitExecutions_cases (P := fun l _ => ∀ e ∈ l, e.scene.Inherits) (fun _ he => by cases he)
    (fun _ => inherits_runExecutions fuel h)
    (fun _ _ he => inherits_runExecutions fuel ((woken_of_wake he).along.inherits h))
    (fun _ _ _ _ he => by cases he)

/-- The turn at a place. -/
theorem inherits_visitAt (fuel : Nat) {p : Pass σ} (h : p.world.Inherits) (i : Nat) :
    (∀ e ∈ visitExecutions.visitAt .empty fuel p i, e.scene.Inherits) ∧
      ∀ p', visitAt .empty fuel p i = some p' → p'.world.Inherits := by
  have hout : ∀ {t : Thread}, p.world.threads[i]? = some t →
      (⟨p.without i, t⟩ : Scene σ).Inherits := fun ht =>
    ⟨h _ (List.mem_append_left _ (List.mem_of_getElem? ht)), h.set i (.of_nil rfl)⟩
  refine ⟨?_, fun p' hv => ?_⟩
  · unfold Log.visitAt
    split
    · exact fun _ he => by cases he
    · rename_i t ht
      exact inherits_visitExecutions fuel (hout ht)
  · rcases along_visitAt hv with ⟨-, rfl⟩ | ⟨t, s, ht, halong, hworld, -⟩
    · exact h
    · have hback := halong.inherits (hout ht)
      rw [hworld]
      exact hback.world.set i hback.thread

end Pass

namespace World

open Execution

variable {σ : Type} {w : World σ}

/-- Warp is inherited at every block of a step, and when the step is over. -/
theorem inherits_step (hset : w.Settled) (hw : w.Inherits) (fuel : Nat) :
    (∀ e ∈ ofStep .empty fuel w, e.scene.Inherits) ∧
      ∀ w' ended, w.step .empty fuel = some (w', ended) → w'.Inherits := by
  obtain ⟨hall, hend⟩ := annals_step (annals_lasting (I := World.Inherits) Aside.inherits
    (fun {_ _ i} hv h => (Pass.inherits_visitAt fuel h i).2 _ hv)
    fun {_ i _} _ h => (Pass.inherits_visitAt fuel h i).1) orderly_empty hset
  refine ⟨hall hw, fun w' ended hstep => ?_⟩
  obtain ⟨p, hp, rfl⟩ := exists_rounds_of_step hset.idle hstep
  have hafter := (aside_afterPass p).inherits ((hend p ended hp) hw).1
  exact (tends_dispatchEvents (afterPass p)).descends.inherits hafter

end World

/-! ### Runs -/

namespace Execution

open World

variable {σ : Type} {w w' : World σ} {l : List (Execution σ)} {id : ThreadId}

/-- Warp is inherited at every block of a run, and at its end. -/
theorem inherits_scene_of_plays (hset : w.Settled) (hw : w.Inherits)
    (h : Plays (· = .empty) w l w') :
    (∀ e ∈ l, e.scene.Inherits) ∧ w'.Settled ∧ w'.Inherits := by
  induction h with
  | nil w => exact ⟨fun _ he => (by cases he), hset, hw⟩
  | deed hd _ ih => exact ih (hd.conserves.follows hset).settled (hd.inherits hw)
  | step hext hstep _ ih =>
    subst hext
    obtain ⟨hblocks, hend⟩ := inherits_step hset hw _
    obtain ⟨hrest, hlast⟩ := ih (follows_of_step orderly_empty hset hstep).settled (hend _ _ hstep)
    exact ⟨fun e he => (List.mem_append.1 he).elim (hblocks e) (hrest e), hlast⟩

/-- **Warp is inherited upwards.** In a run with built-in primitives, no warp frame of any thread
lies directly below a frame that is not in warp, neither between steps nor around any block or
primitive of a step. A flag that is set lasts until its frame is popped, and then those below are as
they were when it was pushed. This is told of all that a thread executes, up to the state in which
it is at last, and also in a step that does not come to its end. -/
theorem inherits_of_plays {settings : Settings} {host : σ} {dice : Nat → Nat}
    (h : Plays (· = .empty) (World.blank settings host dice) l w) (fuel : Nat) :
    (∀ t ∈ w.threads ++ w.spawned,
      t.Inherits ∧ Glimpse.Lasting (history t.id l ++ [⟨t, true⟩])) ∧
    (∀ e ∈ l ++ ofStep .empty fuel w, ∀ s ∈ e.scene :: e.scenes, s.Inherits) ∧
    ∀ id, Glimpse.Lasting (history id (l ++ ofStep .empty fuel w)) := by
  have hblank : (World.blank settings host dice).Reachable := .blank settings host dice
  have hP : ∀ ext : Extensions σ, ext = .empty → ext.Orderly := fun _ he => he ▸ orderly_empty
  have hset := settled_of_reachable hblank
  have hext : ∀ e ∈ l ++ ofStep .empty fuel w, e.ext = .empty := fun e he =>
    (staged_of_plays hblank h hP rfl fuel e he).1
  obtain ⟨hblocks, hset', hw⟩ :=
    inherits_scene_of_plays hset (fun t ht => by cases ht) h
  refine ⟨fun t ht => ⟨hw t ht, Glimpse.lasting_of_chain ?_⟩, fun e he s hs => ?_, fun id => ?_⟩
  · obtain ⟨hleads, -, -⟩ := Diary.leads_of_recounts Pass.keeps_visitExecutions h hP hset
      (counted_of_reachable hblank) t.id
    have hchain := chain_history hleads.chain fun e he => hext e (List.mem_append_left _ he)
    refine List.isChain_append.2 ⟨hchain, .singleton _, fun a ha b hb => ?_⟩
    cases hb
    -- the last moment is the end of the last block, since when the thread has rested
    rw [getLast?_history] at ha
    obtain ⟨e, he, rfl⟩ := Option.map_eq_some_iff.1 ha
    exact (hleads.last e he t ht rfl).glimpse
  · have hscene : e.scene.Inherits := by
      rcases List.mem_append.1 he with he | he
      · exact hblocks e he
      · exact (inherits_step hset' hw fuel).1 e he
    rcases List.mem_cons.1 hs with rfl | hs
    · exact hscene
    · exact inherits_scenes (hext e he) hscene s hs
  · exact Glimpse.lasting_of_chain
      (chain_history (chain_of_plays hblank h hP rfl fuel id) hext)

end Execution

namespace World

open Execution

/-- A procedure that runs in warp, with a block inside another, and a block after its call. -/
def dash : Graph :=
  Graph.empty.run
    [.create { Block.detached "first" (.procedure .call) with
        signature := some ⟨"dash", [], [], [], true⟩
        next := some ⟨1, 0⟩
        topLevel := true },
      .create { Block.detached "say" (.looks .say) with parent := some ⟨0, 0⟩ },
      .create { Block.detached "define" (.procedure .definition) with
        inputs := Table.empty.insert prototypeInput (.reporter ⟨3, 0⟩)
        next := some ⟨4, 0⟩
        topLevel := true },
      .create { Block.detached "dash" (.procedure .prototype) with
        signature := some ⟨"dash", [], [], [], true⟩
        parent := some ⟨2, 0⟩ },
      .create { Block.detached "if" (.control .ifThen) with
        inputs := (Table.empty.insert "CONDITION" (.literal (.flag true))).insert "SUBSTACK"
          (.branch ⟨5, 0⟩)
        parent := some ⟨2, 0⟩ },
      .create { Block.detached "hide" (.looks .hide) with parent := some ⟨4, 0⟩ }]

/-- The script has been started. -/
def dashWorld : World Unit :=
  (((blank .standard ()).addSprite "Cat" dash).1.pushThread 0 ⟨0, 0⟩).1

/-- The body is in warp from the definition on, also in the branch, and what was below is not when
it is over. -/
theorem inherits_of_plays_dash :
    Execution.Plays (· = .empty) (blank .standard ()) [] dashWorld ∧
      ((history 1 ([] ++ ofStep .empty 9 dashWorld)).map (·.thread.flags)).eraseReps =
        [[false], [false, true], [false, true, true], [false], []] ∧
      (∀ t ∈ dashWorld.threads ++ dashWorld.spawned,
        t.Inherits ∧ Glimpse.Lasting (history t.id ([] : List (Execution Unit)) ++ [⟨t, true⟩])) ∧
      (∀ e ∈ [] ++ ofStep .empty 9 dashWorld, ∀ s ∈ e.scene :: e.scenes, s.Inherits) ∧
      ∀ id, Glimpse.Lasting (history id ([] ++ ofStep .empty 9 dashWorld)) := by
  have hsprite : Deed (blank .standard ()) ((blank .standard ()).addSprite "Cat" dash).1 :=
    .tend rfl rfl rfl rfl
  have hplays : Execution.Plays (· = .empty) (blank .standard ()) [] dashWorld :=
    .deed hsprite (.deed (.pushThread _ 0 ⟨0, 0⟩) (.nil dashWorld))
  exact ⟨hplays, by decide +kernel, inherits_of_plays hplays 9⟩

end World

end Stagecraft
