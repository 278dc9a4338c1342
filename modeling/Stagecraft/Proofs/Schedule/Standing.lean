import Stagecraft.Proofs.Schedule.Blocks

/-!
# A frame that stays on the stack

A block that is executed over many turns keeps what it needs on its frame. While others are executed
on the frames above it, the frame stays as it is, with the frames below it; a loop is also where the
thread comes back to when nothing is left above. Only three things end this: the thread moves past
the block, its script is left, or it starts over.

* `Thread.Holds` : a frame is on the stack, with what is below it;
* `Thread.Rests.holds` : it still is in the next turn, unless the thread starts over;
* `Thread.Works`, `Extensions.Regular` : what primitives do to the running thread, also those of the
  host;
* `Thread.Bears.stirs` : **what is told of a stack** meanwhile;
* `Execution.keeps_above` : **executing what is above a loop leaves its frame alone**;
* `Execution.keeps_unrun` : so does evaluating the inputs of its own block;
* `Execution.Next.holds` : the next block finds the frame on the stack.
-/

namespace Stagecraft

namespace Thread

variable {t t' : Thread} {L f : Frame} {below inner : List Frame}

/-- The thread starts over: it stands at its top block, and nothing has been executed. -/
structure Anew (t : Thread) : Prop where
  stack : t.stack = t.top.toList.map fun h => .start h false
  status : t.status ≠ .parked

/-- A frame is on the stack, with some frames below it and some above it. It may remember what
reporters have given. There is something above it only if it is a loop, and the result of a command
is awaited only there. -/
structure Holds (L : Frame) (below inner : List Frame) (t : Thread) : Prop where
  stack : ∃ memo, t.stack = inner ++ { L with reported := memo } :: below
  loop : inner ≠ [] → L.isLoop = true
  pending : inner = [] → t.status = .parked → ∀ channel, t.pending ≠ some ⟨channel, .command⟩

theorem modifyTop_nil (hs : t.stack = []) (F : Frame → Frame) : t.modifyTop F = t := by
  rw [modifyTop, hs]

theorem modifyTop_cons (hs : t.stack = f :: below) (F : Frame → Frame) :
    t.modifyTop F = { t with stack := F f :: below } := by
  rw [modifyTop, hs]

theorem topBlock?_nil (hs : t.stack = []) : t.topBlock? = none := by
  rw [topBlock?, hs]
  rfl

theorem Holds.ne_nil (h : t.Holds L below inner) : t.stack ≠ [] := by
  obtain ⟨memo, hs⟩ := h.stack
  simp [hs]

theorem Holds.of_same (h : t.Holds L below inner) (hs : t'.stack = t.stack)
    (hp : t'.pending = t.pending) (hst : t'.status = .parked → t.status = .parked) :
    t'.Holds L below inner :=
  ⟨hs ▸ h.stack, h.loop, fun hi hparked => hp ▸ h.pending hi (hst hparked)⟩

/-! ### Coming back to a loop -/

end Thread

namespace Scheduler

variable {k : Scheduler} {now : Span} {g : Graph} {t : Thread} {L : Frame} {below : List Frame}

/-- Leaving what is above a loop, a thread comes back to it at the latest. -/
theorem unwind_loop (hloop : L.isLoop = true) (xs : List Frame) : ∃ inner,
    (k.unwind now g t (xs ++ L :: below)).1 = { t with stack := inner ++ L :: below } := by
  induction xs with
  | nil =>
    rw [List.nil_append, unwind, if_pos hloop]
    exact ⟨[], rfl⟩
  | cons x xs ih =>
    rw [List.cons_append, unwind]
    split
    · exact ⟨x :: xs, rfl⟩
    · split
      · exact ⟨_ :: xs, rfl⟩
      · exact ih

theorem advance_loop (k : Scheduler) (now : Span) (g : Graph) {x : Frame} {xs : List Frame}
    (hs : t.stack = x :: xs ++ L :: below) (hloop : L.isLoop = true) : ∃ inner,
      (k.advance now g t).1 = { t with stack := inner ++ L :: below } := by
  rw [advance, hs, List.cons_append]
  simp only
  split
  · exact ⟨_ :: xs, rfl⟩
  · exact unwind_loop hloop xs

end Scheduler

namespace Thread

variable {t t' : Thread} {L f : Frame} {below inner : List Frame}

/-! ### Between turns -/

/-- The thread starts over, or it has ended and nothing is on its stack any more. -/
inductive Afresh (t : Thread) : Prop
  | anew : t.Anew → Afresh t
  | gone : t.stack = [] → Afresh t

/-- What becomes of a thread that holds a frame. -/
inductive Abides (L : Frame) (below inner : List Frame) (t : Thread) : Prop
  | holds {inner' : List Frame} :
      t.Holds L below inner' → (inner = [] → inner' = []) → Abides L below inner t
  | afresh : t.Afresh → Abides L below inner t

theorem anew_restart (t : Thread) : t.restart.Anew := by
  refine ⟨?_, by simp [restart]⟩
  unfold restart
  cases t.top <;> rfl

theorem anew_atRest (hr : t.restarting = true) : t.atRest.Anew := by
  rw [atRest, if_pos hr]
  exact ⟨t.anew_restart.stack, t.anew_restart.status⟩

theorem stack_of_topBlock? (ht : t.topBlock? = none) : t.stack = [] := by
  cases hs : t.stack with
  | nil => rfl
  | cons f rest =>
    rw [topBlock?_eq hs] at ht
    cases ht

theorem Handled.abides (hh : Handled t t') (h : t.Holds L below inner) :
    t'.Abides L below inner := by
  cases hh with
  | kept => exact .holds h fun hi => hi
  | stopped => exact .afresh (.gone rfl)
  | startedOver _ ht => exact .afresh (.anew ⟨by rw [ht]; rfl, by simp⟩)

theorem Handled.afresh (hh : Handled t t') (h : t.Afresh) : t'.Afresh := by
  cases hh with
  | kept => exact h
  | stopped => exact .gone rfl
  | startedOver _ ht => exact .anew ⟨by rw [ht]; rfl, by simp⟩

theorem Holds.due (h : t.Holds L below inner) : t.due.Holds L below inner := by
  unfold Thread.due
  split
  · exact h.of_same rfl rfl (by simp)
  · exact h

theorem Afresh.due (h : t.Afresh) : t.due.Afresh := by
  unfold Thread.due
  split
  · cases h with
    | anew h => exact .anew ⟨h.stack, by simp⟩
    | gone h => exact .gone h
  · exact h

theorem Holds.atRest (h : t.Holds L below inner) : t.atRest.Abides L below inner := by
  by_cases hr : t.restarting = true
  · exact .afresh (.anew (anew_atRest hr))
  · rw [Thread.atRest, if_neg hr]
    exact .holds (h.of_same rfl rfl fun hparked => hparked) fun hi => hi

theorem Afresh.atRest (h : t.Afresh) : t.atRest.Afresh := by
  by_cases hr : t.restarting = true
  · exact .anew (anew_atRest hr)
  · rw [Thread.atRest, if_neg hr]
    cases h with
    | anew h => exact .anew ⟨h.stack, h.status⟩
    | gone h => exact .gone h

end Thread

namespace Pass

variable {σ : Type} {k : Scheduler} {w : World σ} {t : Thread} {L f : Frame}
  {below inner : List Frame} {v : Value}

/-- The result of a command completes the block on the top frame, which is left. -/
theorem takeIn_command (hs : t.stack = f :: below) {g : Graph} (hg : w.graph? t.actor = some g) :
    takeIn k w t .command v =
      let r := k.advance w.now g { t.awake with stack := { f with reported := .empty } :: below }
      (r.1, r.2 == .goesOn) := by
  have htop : t.awake.modifyTop (fun f => { f with reported := .empty }) =
      { t.awake with stack := { f with reported := .empty } :: below } :=
    Thread.modifyTop_cons (t := t.awake) hs _
  unfold takeIn
  simp only [hg]
  rw [show ({ t with pending := none, status := .running } : Thread) = t.awake from rfl, htop]

theorem TakenIn.stack_nil {slot : Slotting} {r : Thread × Bool} (h : TakenIn k w t v slot r)
    (hs : t.stack = []) : r.1.stack = [] := by
  have htop : ∀ F, t.awake.modifyTop F = t.awake := Thread.modifyTop_nil hs
  cases h with
  | reporter h =>
    rw [htop]
    exact hs
  | retired => rfl
  | advanced _ ha =>
    rw [htop] at ha
    have hstay : ∀ g, k.advance w.now g t.awake = (t.awake, .goesOn) := fun g => by
      rw [Scheduler.advance, show t.awake.stack = [] from hs]
    cases (hstay _).symm.trans ha
    exact hs

/-- A result has come: it is remembered by the frame on top, or the thread leaves the block there.
-/
theorem abides_takeIn (h : t.Holds L below inner) (hst : t.status = .parked) {p : Pending}
    (hp : t.pending = some p) {r : Thread × Bool} (htake : takeIn k w t p.slot v = r) :
    r.1.Abides L below inner := by
  subst htake
  obtain ⟨memo, hs⟩ := h.stack
  cases hslot : p.slot with
  | reporter c =>
    -- the frame on top is the one that is held, or one above it
    have htop : ∀ {f : Frame} {rest : List Frame}, t.stack = f :: rest →
        (takeIn k w t (.reporter c) v).1 =
          { t.awake with stack := { f with reported := f.reported.insert c v } :: rest } :=
      fun hs => Thread.modifyTop_cons (t := t.awake) hs _
    cases inner with
    | nil =>
      have hholds : (takeIn k w t (.reporter c) v).1.Holds L below [] := by
        rw [htop hs]
        exact ⟨⟨memo.insert c v, rfl⟩, h.loop, fun _ hparked => by cases hparked⟩
      exact .holds hholds fun hi => hi
    | cons x xs =>
      have hholds : (takeIn k w t (.reporter c) v).1.Holds L below
          ({ x with reported := x.reported.insert c v } :: xs) := by
        rw [htop hs]
        exact ⟨⟨memo, rfl⟩, fun _ => h.loop (by simp), fun hi => by cases hi⟩
      exact .holds hholds fun hi => by cases hi
  | command =>
    cases inner with
    | nil =>
      have hcommand : t.pending = some ⟨p.channel, .command⟩ :=
        hp.trans (congrArg some (congrArg (Pending.mk p.channel) hslot))
      exact absurd hcommand (h.pending rfl hst p.channel)
    | cons x xs =>
      cases hg : w.graph? t.actor with
      | none =>
        unfold takeIn
        simp only [hg]
        exact .afresh (.gone rfl)
      | some g =>
        rw [List.cons_append] at hs
        rw [takeIn_command hs hg]
        have hstack : ({ t.awake with stack := { x with reported := .empty } ::
            (xs ++ { L with reported := memo } :: below) } : Thread).stack =
            { x with reported := .empty } :: xs ++ { L with reported := memo } :: below := rfl
        obtain ⟨inner', hi⟩ := Scheduler.advance_loop k w.now g hstack (h.loop (by simp))
        simp only [hi]
        exact .holds ⟨⟨memo, rfl⟩, fun _ => h.loop (by simp), fun _ hparked => by cases hparked⟩
          fun hi => by cases hi

end Pass

namespace Thread

variable {t t' : Thread} {L : Frame} {below inner : List Frame}

theorem Holds.woken {σ : Type} {k : Scheduler} {w : World σ} {r : Scene σ × Bool}
    (h : t.Holds L below inner) (hw : Pass.Woken k w t r) (hst : t.status = .parked) :
    r.1.thread.Abides L below inner := by
  cases hw with
  | free => exact .holds (h.of_same rfl rfl (by simp)) fun hi => hi
  | waits => exact .holds h fun hi => hi
  | takesIn hp _ htake => exact Pass.abides_takeIn h hst hp htake
  | refused => exact .afresh (.gone rfl)

theorem Afresh.woken {σ : Type} {k : Scheduler} {w : World σ} {r : Scene σ × Bool} (h : t.Afresh)
    (hw : Pass.Woken k w t r) (hst : t.status = .parked) : r.1.thread.Afresh := by
  cases h with
  | anew h => exact absurd hst h.status
  | gone h =>
    cases hw with
    | free | waits => exact .gone h
    | takesIn _ _ htake => exact .gone ((Pass.takenIn_of_takeIn htake).stack_nil h)
    | refused => exact .gone rfl

/-- A thread that starts over or has ended is no further in its next turn. -/
theorem Rests.afresh (hr : Rests t t') (h : t.Afresh) : t'.Afresh := by
  induction hr with
  | refl => exact h
  | tail _ hrest ih =>
    cases hrest with
    | waited hw =>
      rcases hw with hw | hw
      · exact hw.afresh ih
      · exact hw.afresh ih.due
    | settled =>
      cases ih with
      | anew h => exact .anew ⟨h.stack, h.status⟩
      | gone h => exact .gone h
    | woken k w hst => exact ih.woken (Pass.woken_of_wake rfl) hst
    | retired => exact .gone rfl
    | ended ht => exact Afresh.atRest (.gone (stack_of_topBlock? ht))

/-- **Between turns a frame stays on the stack**, unless the thread starts over or ends. -/
theorem Rests.holds (hr : Rests t t') (h : t.Abides L below inner) : t'.Abides L below inner := by
  induction hr with
  | refl => exact h
  | @tail b c _ hrest ih =>
    cases ih with
    | afresh h => exact .afresh (hrest.rests.afresh h)
    | @holds inner₁ h hi =>
      suffices hc : c.Abides L below inner₁ by
        cases hc with
        | holds h' hi' => exact .holds h' fun he => hi' (hi he)
        | afresh h' => exact .afresh h'
      cases hrest with
      | waited hw =>
        rcases hw with hw | hw
        · exact hw.abides h
        · exact hw.abides h.due
      | settled => exact .holds (h.of_same rfl rfl fun hparked => hparked) fun hi => hi
      | woken k w hst => exact h.woken (Pass.woken_of_wake rfl) hst
      | retired => exact .afresh (.gone rfl)
      | ended ht => exact absurd (stack_of_topBlock? ht) h.ne_nil

end Thread

/-! ### What primitives do to the running thread -/

namespace Thread

variable {t t' : Thread} {base : List Frame} {site : Site} {n : Nat} {P : Thread → Prop}

/-- One thing that a primitive does to the running thread, also one of the host. -/
inductive Stir (site : Site) (t : Thread) : Thread → Prop
  | shift {t' : Thread} : t.Shift site t' → Stir site t t'
  /-- It sits out the rest of the pass. -/
  | tick : Stir site t { t with status := .yieldedTick }

/-- How a primitive leaves the running thread in the end. -/
inductive Quit (site : Site) (t : Thread) : Thread → Prop
  | stays : Quit site t t
  | stopScript : Quit site t (t.stopScript site.graph)
  | retire : Quit site t t.retire

/-- What a primitive does to the running thread: one thing after the other, and then it may leave
the script. -/
def Works (site : Site) (t t' : Thread) : Prop :=
  ∃ t₁, Relation.ReflTransGen (Stir site) t t₁ ∧ Quit site t₁ t'

theorem Works.refl (site : Site) (t : Thread) : Works site t t := ⟨t, .refl, .stays⟩

/-- What is told of a thread that way is told of it **whatever a primitive does** while it stays
in its script. -/
theorem Bears.stirs (hP : Bears site.frame P)
    (htick : ∀ {t : Thread}, P t → P { t with status := .yieldedTick })
    (h : Relation.ReflTransGen (Stir site) t t') (ht : P t) : P t' := by
  induction h with
  | refl => exact ht
  | tail _ hstir ih =>
    cases hstir with
    | tick => exact htick ih
    | shift hshift => exact hshift.told hP ih

/-! ### What primitives do above a frame -/

/-- Something is on the stack above some frames. -/
def Over (base : List Frame) (t : Thread) : Prop := ∃ x xs, t.stack = x :: (xs ++ base)

namespace Over

theorem of_stack (h : t.Over base) (hs : t'.stack = t.stack) : t'.Over base := by
  obtain ⟨x, xs, he⟩ := h
  exact ⟨x, xs, hs.trans he⟩

theorem push (h : t.Over base) (b : Handle) : (t.push b).Over base := by
  obtain ⟨x, xs, hs⟩ := h
  exact ⟨_, x :: xs, by rw [Thread.push, hs]; rfl⟩

theorem modifyTop (h : t.Over base) (F : Frame → Frame) : (t.modifyTop F).Over base := by
  obtain ⟨x, xs, hs⟩ := h
  exact ⟨F x, xs, by rw [modifyTop_cons hs]⟩

/-- A frame above them is changed, or none at all. -/
theorem modifyFrame (h : t.Over base) {n : Nat} (hn : base.length ≤ n) (F : Frame → Frame) :
    (t.modifyFrame n F).Over base := by
  obtain ⟨x, xs, hs⟩ := h
  unfold Thread.modifyFrame
  split
  · rename_i hlt
    have hpos : t.stack.length - 1 - n < (x :: xs).length := by
      rw [hs] at hlt ⊢
      simp only [List.length_cons, List.length_append] at hlt ⊢
      omega
    have hmodify : t.stack.modify (t.stack.length - 1 - n) F =
        (x :: xs).modify (t.stack.length - 1 - n) F ++ base := by
      generalize t.stack.length - 1 - n = m at hpos ⊢
      rw [hs, ← List.cons_append, List.modify_eq_take_cons_drop (by simp at hpos ⊢; omega),
        List.modify_eq_take_cons_drop hpos, List.take_append_of_le_length (by omega),
        List.drop_append_of_le_length (by simp at hpos ⊢; omega),
        List.getElem_append_left hpos, List.append_assoc, List.cons_append]
    obtain ⟨y, ys, hy⟩ : ∃ y ys, (x :: xs).modify (t.stack.length - 1 - n) F = y :: ys := by
      cases hm : (x :: xs).modify (t.stack.length - 1 - n) F with
      | nil => simpa using congrArg List.length hm
      | cons y ys => exact ⟨y, ys, rfl⟩
    exact ⟨y, ys, by simp only [hmodify, hy, List.cons_append]⟩
  · exact ⟨x, xs, hs⟩

theorem bears (hn : base.length ≤ n) : Bears n (Over base) :=
  ⟨fun h => h.of_stack rfl, push, fun h _ => h.modifyTop _, fun h _ => h.modifyFrame hn _⟩

end Over

/-- The innermost procedure is called above some frames or among them. -/
theorem toCall_append (g : Graph) (xs base : List Frame) :
    toCall g (xs ++ base) = toCall g base ∨ ∃ y ys, toCall g (xs ++ base) = y :: (ys ++ base) := by
  induction xs with
  | nil => exact .inl rfl
  | cons x xs ih =>
    by_cases hx : g.opcode? x.block = some (.procedure .call)
    · refine .inr ⟨x, xs, ?_⟩
      rw [toCall, List.cons_append, List.dropWhile_cons_of_neg (by simp [hx])]
    · rw [toCall, List.cons_append, List.dropWhile_cons_of_pos (by simp [hx])]
      exact ih

/-- **What a primitive leaves behind above some frames**: something is left above them, or the
script was left and the thread is at the innermost call among them, or it has ended. -/
theorem Works.cases (h : Works site t t') (ht : t.Over base) (hsite : base.length ≤ site.frame) :
    t'.Over base ∨ t'.stack = toCall site.graph base ∨ t'.stack = [] := by
  obtain ⟨t₁, hstirs, hquit⟩ := h
  have hover : t₁.Over base := (Over.bears hsite).stirs (fun h => h.of_stack rfl) hstirs ht
  cases hquit with
  | stays => exact .inl hover
  | retire => exact .inr (.inr rfl)
  | stopScript =>
    obtain ⟨x, xs, hs⟩ := hover
    have hcall := toCall_append site.graph (x :: xs) base
    rw [List.cons_append, ← hs] at hcall
    exact hcall.symm.imp_right .inl

end Thread

/-- The extensions do to the running thread what built-in primitives can do to it. -/
def Extensions.Regular {σ : Type} (ext : Extensions σ) : Prop :=
  ∀ (name : String) (handler : Extension σ), ext.get? name = some handler →
    ∀ (site : Site) (args : Args) (s : Scene σ),
      Thread.Works site s.thread (handler site args s).1.thread

namespace Scene

variable {σ : Type} {site : Site} {op : Opcode} {s s' : Scene σ}

theorem Works.thread (h : Works site op s s') : Thread.Works site s.thread s'.thread := by
  obtain ⟨s₁, hperforms, hquits⟩ := h
  refine ⟨s₁.thread, ?_, ?_⟩
  · clear hquits
    induction hperforms with
    | refl => exact .refl
    | tail _ hdoes ih =>
      cases hdoes with
      | shift ht => exact ih.tail (.shift ht)
      | _ => exact ih
  · cases hquits with
    | stays => exact .stays
    | stopScript => exact .stopScript
    | retire => exact .retire

end Scene

/-- **What a primitive does to the running thread.** -/
theorem Primitive.thread_works {σ : Type} {ext : Extensions σ} (hext : ext.Regular) (op : Opcode)
    (site : Site) (args : Args) (s : Scene σ) :
    Thread.Works site s.thread (run ext op site args s).1.thread := by
  cases op with
  | custom name =>
    rw [run, extended]
    cases hget : ext.get? name with
    | none => exact .refl site s.thread
    | some handler =>
      have hworks := hext name handler hget site args s
      simp only
      split
      all_goals
        rename_i he
        rw [he] at hworks
        exact hworks
  | _ =>
    rw [run_of_builtIn site _ args s ext rfl]
    exact (works_run site _ args s).thread

/-! ### A block above a frame -/

namespace Scene

variable {σ : Type} {k : Scheduler} {g : Graph} {top : Handle} {warp : Bool} {s : Scene σ}
  {r : Scene σ × Turn} {L : Frame} {below inner : List Frame}

/-- A frame is held until the thread moves past its block. -/
theorem Proceeded.holds (hp : Proceeded k g top warp s r) (h : s.thread.Holds L below inner)
    (hstays : inner ≠ [] ∨ s.thread.status ≠ .running) :
    ∃ inner', r.1.thread.Holds L below inner' ∧ (inner = [] → inner' = []) := by
  cases hp with
  | yielded => exact ⟨inner, h.of_same rfl rfl (by simp), id⟩
  | held | elsewhere => exact ⟨inner, h, id⟩
  | empty _ hempty => exact absurd hempty h.ne_nil
  | moved hst _ ha =>
    have hne : inner ≠ [] := hstays.resolve_right fun hr => hr hst
    obtain ⟨memo, hstack⟩ := h.stack
    obtain ⟨x, xs, rfl⟩ := List.exists_cons_of_ne_nil hne
    obtain ⟨inner', hi⟩ := Scheduler.advance_loop k s.world.now g hstack (h.loop hne)
    rw [ha] at hi
    obtain rfl := hi
    refine ⟨inner', ⟨⟨memo, rfl⟩, fun _ => h.loop hne, fun _ hparked => ?_⟩,
      fun hi => absurd hi hne⟩
    cases hst.symm.trans hparked

theorem Proceeded.stack_nil (hp : Proceeded k g top warp s r) (h : s.thread.stack = []) :
    r.1.thread.stack = [] := by
  cases hp with
  | yielded | held | empty | elsewhere => exact h
  | moved _ htop => cases (Thread.topBlock?_nil h).symm.trans htop

end Scene

namespace Execution

open Scene Thread

variable {σ : Type} {e e' : Execution σ} {L f : Frame} {below inner rest : List Frame}
  {s : Scene σ}

/-- How a thread that holds a frame gets past a block. -/
inductive Keeps (e : Execution σ) (L : Frame) (below inner : List Frame) : Prop
  /-- It holds the frame. -/
  | holds {inner' : List Frame} : e.after.2.1.thread.Holds L below inner' →
      (inner = [] → inner' = []) → Keeps e L below inner
  /-- It was asked to start over. -/
  | asked : e.after.2.1.thread.restarting = true → e.after.2.2 = .ends → Keeps e L below inner
  /-- It has ended. -/
  | gone : e.after.2.1.thread.stack = [] → Keeps e L below inner

/-- The primitive of the block takes the frames above some others off the stack, as it leaves the
script. -/
def Drops (e : Execution σ) (below : List Frame) : Prop :=
  ∃ i, e.call? = some i ∧ (i.result e.ext).1.thread.stack = toCall e.graph below

theorem keeps_of_fault {fault : Fault} (hs : e.thread.stack = f :: rest)
    (hx : e.executed = (s, some fault)) : e.Keeps L below inner := by
  obtain ⟨opcode, ha⟩ := after_of_fault hs hx
  exact .gone (by rw [ha]; rfl)

/-- What was asked of a thread meanwhile ends its turn: it starts over, or it has ended. -/
theorem obeyed_cases (hs : e.thread.stack = f :: rest) (hx : e.executed = (s, none))
    (ho : s.obey.2 = true) :
    e.after.2.1.thread.restarting = true ∧ e.after.2.2 = .ends ∨ e.after.2.1.thread.stack = [] := by
  obtain ⟨⟨s₁, asked⟩, he⟩ : ∃ r, s.obey = r := ⟨_, rfl⟩
  rw [he] at ho
  obtain rfl : asked = true := ho
  rw [after_of_obeyed hs hx he]
  cases obeyed_of_obey he with
  | stopped => exact .inr rfl
  | startsOver => exact .inl ⟨rfl, rfl⟩

theorem keeps_of_obeyed (hs : e.thread.stack = f :: rest) (hx : e.executed = (s, none))
    (ho : s.obey.2 = true) : e.Keeps L below inner := by
  rcases obeyed_cases hs hx ho with ⟨hr, hends⟩ | hgone
  · exact .asked hr hends
  · exact .gone hgone

/-- A frame is held until the thread moves past its block. -/
theorem keeps_of_executed (hs : e.thread.stack = f :: rest) (hx : e.executed = (s, none))
    (h : s.thread.Holds L below inner) (hstays : inner ≠ [] ∨ s.thread.status ≠ .running) :
    e.Keeps L below inner := by
  rcases ho : s.obey with ⟨s₁, asked⟩
  cases asked with
  | true => exact keeps_of_obeyed hs hx (by rw [ho])
  | false =>
    cases obey_fst_of_false ho
    obtain ⟨inner', hholds, hi⟩ := (proceeded_after hs hx ho).holds h hstays
    exact .holds hholds hi

/-- A thread that has left its script for good is gone, whatever comes of its block. -/
theorem keeps_of_nil (hs : e.thread.stack = f :: rest) (hx : e.executed = (s, none))
    (h : s.thread.stack = []) : e.Keeps L below inner := by
  rcases ho : s.obey with ⟨s₁, asked⟩
  cases asked with
  | true => exact keeps_of_obeyed hs hx (by rw [ho])
  | false =>
    cases obey_fst_of_false ho
    exact .gone ((proceeded_after hs hx ho).stack_nil h)

end Execution

namespace Scene

variable {σ : Type} {site : Site} {r : Scene σ × Outcome} {base : List Frame}

/-- What the outcome of a command does leaves alone what is below the frames above. -/
theorem over_finish (h : r.1.thread.Over base) (hsite : base.length ≤ site.frame) :
    (finish site r).1.thread.Over base := by
  have hforget : (r.1.forget site.frame).thread.Over base := h.modifyFrame hsite _
  exact finish_cases (P := fun s => s.thread.Over base) (fun _ _ => h.of_stack rfl) hforget
    fun _ _ => hforget.of_stack rfl

theorem stack_finish_nil (site : Site) (h : r.1.thread.stack = []) :
    (finish site r).1.thread.stack = [] := by
  have hforget : (r.1.forget site.frame).thread.stack = [] := by
    rw [forget, Thread.modifyFrame, h, if_neg (by simp)]
    exact h
  exact finish_cases (P := fun s => s.thread.stack = []) (fun _ _ => h) hforget fun _ _ => hforget

end Scene

namespace Execution

open Scene Thread

variable {σ : Type} {e e' : Execution σ} {L f : Frame} {below inner rest : List Frame}
  {s : Scene σ}

/-- Something is above a loop when its block is over. -/
theorem keeps_of_over (hs : e.thread.stack = f :: rest) (hx : e.executed = (s, none))
    {memo : Table Handle Value} (hover : s.thread.Over ({ L with reported := memo } :: below))
    (hloop : L.isLoop = true) : ∃ x xs, e.Keeps L below (x :: xs) := by
  obtain ⟨x, xs, hstack⟩ := hover
  have hholds : s.thread.Holds L below (x :: xs) :=
    ⟨⟨memo, hstack⟩, fun _ => hloop, fun hi => by cases hi⟩
  exact ⟨x, xs, keeps_of_executed hs hx hholds (.inl (by simp))⟩

/-- **Executing what is above a loop leaves its frame alone**, and those below, unless the script is
left: then the thread goes back to the call of the innermost procedure that is below. -/
theorem keeps_above (hext : e.ext.Regular) (hg : e.graph.PlugsValues e.ext)
    (hL : e.graph.opcode? L.block ≠ some (.procedure .call)) (h : e.thread.Holds L below inner)
    (hne : inner ≠ []) : (∃ x xs, e.Keeps L below (x :: xs)) ∨ e.Drops below := by
  obtain ⟨memo, hs⟩ := h.stack
  obtain ⟨x, xs, rfl⟩ := List.exists_cons_of_ne_nil hne
  rw [List.cons_append] at hs
  have hloop := h.loop hne
  have hentered : e.entered.thread.stack = x :: (xs ++ { L with reported := memo } :: below) :=
    stack_entered hs
  obtain ⟨l, -, hgoes⟩ := goes hs
  generalize hx : e.executed = r at hgoes
  generalize hcall : e.call? = call at hgoes
  cases hgoes with
  | gone _ => exact .inl (keeps_of_over hs hx ⟨x, xs, hentered⟩ hloop)
  | failed fault _ => exact .inl ⟨x, xs, keeps_of_fault hs hx⟩
  | parked channel c he =>
    obtain ⟨m, hthread⟩ := he.spares hg (frame_site hs _) hentered
    have hover : (Scene.park _ channel (.reporter c)).thread.Over
        ({ L with reported := memo } :: below) :=
      ⟨{ x with reported := m }, xs, by rw [park, hthread]⟩
    exact .inl (keeps_of_over hs hx hover hloop)
  | @ran l i b he hsite hb hop =>
    obtain ⟨m, hthread⟩ := he.spares hg (frame_site hs _) hentered
    have hworks : Thread.Works i.site i.before.thread (i.result e.ext).1.thread :=
      Primitive.thread_works hext i.opcode i.site i.args i.before
    have hframe : ({ L with reported := memo } :: below : List Frame).length ≤
        (e.site x.block).frame := by
      rw [frame_site hs, List.length_append]
      omega
    have hbefore : i.before.thread.Over ({ L with reported := memo } :: below) :=
      ⟨{ x with reported := m }, xs, by rw [hthread]⟩
    rcases hworks.cases hbefore (hsite ▸ hframe) with hover | hcalled | hgone
    · have hover' := over_finish hover hframe
      cases hf : finish (e.site x.block) (i.result e.ext) with
      | mk s fault =>
        rw [hf] at hx hover'
        cases fault with
        | some fault => exact .inl ⟨x, xs, keeps_of_fault hs hx⟩
        | none => exact .inl (keeps_of_over hs hx hover' hloop)
    · have hskip : (e.site x.block).graph.opcode? L.block ≠ some (.procedure .call) := hL
      refine .inr ⟨i, hcall, hcalled.trans ?_⟩
      rw [hsite]
      exact List.dropWhile_cons_of_pos (by simpa using hskip)
    · have hgone' := stack_finish_nil (e.site x.block) hgone
      cases hf : finish (e.site x.block) (i.result e.ext) with
      | mk s fault =>
        rw [hf] at hx hgone'
        cases fault with
        | some fault => exact .inl ⟨x, xs, keeps_of_fault hs hx⟩
        | none => exact .inl ⟨x, xs, keeps_of_nil hs hx hgone'⟩

/-- A frame is held while its inputs are evaluated. -/
theorem keeps_unrun {memo : Table Handle Value} {op : Opcode}
    (hs : e.thread.stack = { L with reported := memo } :: below)
    (hop : e.graph.opcode? L.block = some op) (hg : e.graph.PlugsValues e.ext)
    (hcall : e.call? = none) :
    e.Keeps L below [] := by
  obtain ⟨l, -, hgoes⟩ := goes hs
  rw [hcall] at hgoes
  generalize hx : e.executed = r at hgoes
  cases hgoes with
  | gone hgone =>
    rw [Graph.opcode?, hgone] at hop
    cases hop
  | failed fault _ => exact keeps_of_fault hs hx
  | parked channel c he =>
    obtain ⟨m, hthread⟩ := he.spares hg (frame_site hs _) (stack_entered hs)
    refine keeps_of_executed hs hx ⟨⟨m, ?_⟩, fun hi => absurd rfl hi, fun _ _ channel' hp => ?_⟩
      (.inr (by simp [park]))
    · rw [park, hthread]
      rfl
    · cases hp

/-! ### The next block -/

/-- How the thread stands when it rests after a block. -/
theorem Next.cases (hn : Next e e') :
    (e'.thread = e.after.2.1.thread ∧ e.after.2.2 = .goesOn ∨
      ∃ t, Rests t.atRest e'.thread ∧ (t = e.after.2.1.thread ∨
        e.after.2.1.thread.topBlock? = none ∧
          t = { e.after.2.1.thread with status := .done })) ∧
    e'.thread.stack ≠ [] := by
  have hne : e'.thread.topBlock?.isSome = true → e'.thread.stack ≠ [] := fun hb hs => by
    rw [topBlock?_nil hs] at hb
    cases hb
  cases hn with
  | goesOn ha _ _ hb =>
    refine ⟨.inl ⟨by rw [ha]; rfl, by rw [ha]⟩, hne hb⟩
  | later hl hbegun =>
    cases hl with
    | ends _ hr => exact ⟨.inr ⟨_, hr, .inl rfl⟩, hne hbegun.block⟩
    | empties hnone hr => exact ⟨.inr ⟨_, hr, .inr ⟨hnone, rfl⟩⟩, hne hbegun.block⟩

/-- While the turn goes on the next block is executed with what this one left behind. -/
theorem Next.of_goesOn {k : Scheduler} {s : Scene σ} (hn : Next e e')
    (ha : e.after = (k, s, .goesOn)) (hs : s.thread.stack = f :: rest) :
    e'.scheduler = k ∧ e'.scene = s := by
  cases hn with
  | goesOn h _ _ _ =>
    cases ha.symm.trans h
    exact ⟨rfl, rfl⟩
  | later hl _ =>
    cases hl with
    | ends he _ =>
      rw [ha] at he
      cases he
    | empties hnone _ =>
      rw [ha, topBlock?_eq hs] at hnone
      cases hnone

/-- A thread that was asked to start over does so before its next block. -/
theorem Next.anew (hn : Next e e') (hr : e.after.2.1.thread.restarting = true)
    (he : e.after.2.2 = .ends) : e'.thread.Anew := by
  obtain ⟨⟨-, hturn⟩ | ⟨t, hrests, ht⟩, hne⟩ := hn.cases
  · cases he.symm.trans hturn
  · have hanew : t.atRest.Anew := anew_atRest (by rcases ht with rfl | ⟨-, rfl⟩ <;> exact hr)
    cases hrests.afresh (.anew hanew) with
    | anew h => exact h
    | gone h => exact absurd h hne

/-- **The next block finds the frame on the stack**, unless the thread has started over. -/
theorem Next.holds (hn : Next e e') (h : e.Keeps L below inner) :
    e'.thread.Anew ∨ ∃ inner', e'.thread.Holds L below inner' ∧ (inner = [] → inner' = []) := by
  cases h with
  | asked hr he => exact .inl (hn.anew hr he)
  | gone h =>
    obtain ⟨⟨ht, -⟩ | ⟨t, hrests, ht⟩, hne⟩ := hn.cases
    · exact absurd (ht ▸ h) hne
    · have hafresh : t.Afresh := .gone (by rcases ht with rfl | ⟨-, rfl⟩ <;> exact h)
      cases hrests.afresh hafresh.atRest with
      | anew h => exact .inl h
      | gone h => exact absurd h hne
  | @holds inner₁ h hi =>
    obtain ⟨⟨ht, -⟩ | ⟨t, hrests, ht⟩, hne⟩ := hn.cases
    · exact .inr ⟨inner₁, ht ▸ h, hi⟩
    · rcases ht with rfl | ⟨hnone, -⟩
      · cases hrests.holds h.atRest with
        | holds h' hi' => exact .inr ⟨_, h', fun he => hi' (hi he)⟩
        | afresh h' =>
          cases h' with
          | anew h => exact .inl h
          | gone h => exact absurd h hne
      · exact absurd (stack_of_topBlock? hnone) h.ne_nil

end Execution

end Stagecraft
