import Stagecraft.Proofs.Schedule.Lifecycle
import Stagecraft.Proofs.Schedule.Standing

/-!
# Warp flags on a stack

A frame takes its warp flag over from the frame below when it is pushed, and two primitives set the
flag of the top frame. Nothing else writes it: a frame that moves on to the next block keeps it. So
from one moment to the next there are three things that can become of the flags of a stack, unless
the thread starts over.

What a primitive does to the thread is a chain of shifts, but that says too little here. Such a
chain may set the flag of a frame and push another one at once, and then it cannot be told later
that the flag was set before the push. A primitive does only one of the three things, and it does
it once.

* `Ascends` : no flag that is set lies directly below one that is not;
* `Shifts` : what becomes of the flags from one moment to the next;
* `Shifts.stays`, `Shifts.take` : a flag stays set, and those below a frame stay as they are;
* `Primitive.shifts_run` : **what a built-in primitive does to the flags**;
* `Scheduler.Advanced.flags`, `Scene.Proceeded.flags` : **the scheduler only takes frames off**;
* `Thread.Recedes.rests` : **so does what happens between turns**, unless the thread starts over.
-/

namespace Stagecraft

/-! ### Rows of flags -/

/-- No flag that is set lies directly below one that is not. Flags are listed bottom first. -/
def Ascends (flags : List Bool) : Prop :=
  flags.IsChain fun below above => below = true → above = true

/-- What becomes of the flags of a stack from one moment to the next, bottom first. -/
inductive Shifts : List Bool → List Bool → Prop
  /-- Frames are popped, or none is. -/
  | leaves {l l' : List Bool} : l' <+: l → Shifts l l'
  /-- A frame is pushed. It is in warp if the one below is. -/
  | enters {l : List Bool} {b : Bool} : (l.getLast? = some true → b = true) → Shifts l (l ++ [b])
  /-- The top frame may enter warp. -/
  | raises {l : List Bool} {b b' : Bool} : (b = true → b' = true) → Shifts (l ++ [b]) (l ++ [b'])

theorem Ascends.of_prefix {l l' : List Bool} (h : Ascends l) (hp : l' <+: l) : Ascends l' :=
  List.IsChain.prefix h hp

theorem Ascends.shifts {l l' : List Bool} (h : Ascends l) (hs : Shifts l l') : Ascends l' := by
  cases hs with
  | leaves hp => exact h.of_prefix hp
  | enters hb =>
    refine List.isChain_append.2 ⟨h, .singleton _, fun x hx y hy hset => ?_⟩
    cases hy
    exact hb (hset ▸ hx)
  | raises hb =>
    obtain ⟨hl, -, hlast⟩ := List.isChain_append.1 h
    refine List.isChain_append.2 ⟨hl, .singleton _, fun x hx y hy hset => ?_⟩
    cases hy
    exact hb (hlast x hx _ rfl hset)

namespace Shifts

variable {l l' : List Bool} {n : Nat}

theorem of_eq (h : l' = l) : Shifts l l' := .leaves (h ▸ List.prefix_refl l)

/-- **A flag stays set** while its frame is on the stack. -/
theorem stays (h : Shifts l l') (hn : n < l'.length) (hset : l[n]? = some true) :
    l'[n]? = some true := by
  cases h with
  | leaves hp =>
    obtain ⟨popped, rfl⟩ := hp
    rwa [List.getElem?_append_left hn] at hset
  | enters =>
    rw [List.getElem?_append_left (List.getElem?_eq_some_iff.1 hset).1]
    exact hset
  | @raises below b b' hb =>
    rcases Nat.lt_or_ge n below.length with hlt | hge
    · rw [List.getElem?_append_left hlt] at hset ⊢
      exact hset
    · obtain rfl : n = below.length := by
        rw [List.length_append, List.length_singleton] at hn
        omega
      rw [List.getElem?_concat_length] at hset ⊢
      rw [hb (Option.some.inj hset)]

/-- **The flags below a frame stay as they are** while it is on the stack. -/
theorem take (h : Shifts l l') (hl : n < l.length) (hl' : n < l'.length) :
    l'.take n = l.take n := by
  cases h with
  | leaves hp =>
    obtain ⟨popped, rfl⟩ := hp
    exact (List.take_append_of_le_length (Nat.le_of_lt hl')).symm
  | enters => exact List.take_append_of_le_length (Nat.le_of_lt hl)
  | raises =>
    rw [List.length_append, List.length_singleton] at hl
    rw [List.take_append_of_le_length (Nat.le_of_lt_succ hl),
      List.take_append_of_le_length (Nat.le_of_lt_succ hl)]

/-- A frame is pushed on the others, which keep their flags. -/
theorem take_of_push (h : Shifts l l') (hl : l.length ≤ n) (hl' : n < l'.length) :
    l'.take n = l := by
  cases h with
  | leaves hp => exact absurd (hp.length_le) (by omega)
  | enters =>
    rw [List.length_append, List.length_singleton] at hl'
    obtain rfl : n = l.length := by omega
    exact List.take_left
  | raises =>
    simp only [List.length_append, List.length_singleton] at hl hl'
    omega

/-- A frame is popped, and those that are left keep their flags. -/
theorem prefix_of_pop (h : Shifts l l') (hl : n < l.length) (hl' : l'.length ≤ n) :
    l' <+: l.take n := by
  cases h with
  | leaves hp => exact List.prefix_take_iff.2 ⟨hp, hl'⟩
  | enters =>
    rw [List.length_append] at hl'
    omega
  | raises =>
    simp only [List.length_append, List.length_singleton] at hl hl'
    omega

end Shifts

/-! ### The flags of a thread -/

/-- The warp flags of the frames of a stack, bottom first. -/
def Frame.flags (stack : List Frame) : List Bool := (stack.map (·.warp)).reverse

/-- Something else is noted on a frame. -/
theorem Frame.flags_modify {F : Frame → Frame} (hF : ∀ f, (F f).warp = f.warp) (stack : List Frame)
    (n : Nat) : flags (stack.modify n F) = flags stack := by
  refine congrArg List.reverse (List.ext_getElem (by simp) fun i _ _ => ?_)
  rw [List.getElem_map, List.getElem_map, List.getElem_modify]
  split
  · exact hF _
  · rfl

/-- Frames are popped. -/
theorem Frame.flags_prefix {stack rest : List Frame} (h : rest <:+ stack) :
    flags rest <+: flags stack :=
  List.reverse_prefix.2 (h.map _)

namespace Thread

variable {t t' t'' : Thread} {f : Frame} {below : List Frame} {F : Frame → Frame}

/-- The warp flags of the frames of a thread, bottom first. -/
def flags (t : Thread) : List Bool := Frame.flags t.stack

/-- Frames inherit warp: no warp frame lies directly below a frame that is not in warp. -/
def Inherits (t : Thread) : Prop := Ascends t.flags

theorem length_flags (t : Thread) : t.flags.length = t.depth := by
  simp [flags, Frame.flags, depth]

theorem flags_of_stack (h : t'.stack = t.stack) : t'.flags = t.flags := by
  rw [flags, h, flags]

theorem flags_cons (hs : t.stack = f :: below) : t.flags = Frame.flags below ++ [f.warp] := by
  rw [flags, hs, Frame.flags, List.map_cons, List.reverse_cons, Frame.flags]

theorem flags_nil (hs : t.stack = []) : t.flags = [] := by
  rw [flags, hs]
  rfl

/-- The last flag is the one of the top frame. -/
theorem inWarp_of_getLast? (h : t.flags.getLast? = some true) : Scheduler.inWarp t = true := by
  cases hs : t.stack with
  | nil =>
    rw [flags_nil hs] at h
    cases h
  | cons f below =>
    rw [flags_cons hs, List.getLast?_concat] at h
    rw [Scheduler.inWarp, hs]
    exact Option.some.inj h

theorem flags_modifyTop (hF : ∀ f, (F f).warp = f.warp) : (t.modifyTop F).flags = t.flags := by
  cases hs : t.stack with
  | nil => rw [modifyTop_nil hs]
  | cons f below =>
    rw [modifyTop_cons hs, flags_cons rfl, hF, flags_cons hs]

theorem flags_modifyFrame (n : Nat) (hF : ∀ f, (F f).warp = f.warp) :
    (t.modifyFrame n F).flags = t.flags := by
  unfold modifyFrame
  split
  · exact Frame.flags_modify hF t.stack _
  · rfl

/-- Frames are popped. -/
theorem flags_of_suffix (h : t'.stack <:+ t.stack) : t'.flags <+: t.flags :=
  Frame.flags_prefix h

/-! ### Entering something -/

/-- One frame is pushed, and it is in warp if the top frame was. -/
def Enters (t t' : Thread) : Prop :=
  ∃ b, (Scheduler.inWarp t = true → b = true) ∧ t'.flags = t.flags ++ [b]

theorem Enters.shifts (h : t.Enters t') : Shifts t.flags t'.flags := by
  obtain ⟨b, hb, hflags⟩ := h
  rw [hflags]
  exact .enters fun hlast => hb (inWarp_of_getLast? hlast)

/-- The top frame runs without yielding from now on. -/
def warped (t : Thread) : Thread := t.modifyTop fun f => { f with warp := true }

theorem shifts_warped (t : Thread) : Shifts t.flags t.warped.flags := by
  unfold warped
  cases hs : t.stack with
  | nil => exact .of_eq (by rw [modifyTop_nil hs])
  | cons f below =>
    rw [modifyTop_cons hs, flags_cons hs, flags_cons rfl]
    exact .raises fun _ => rfl

/-- A frame that was just pushed may enter warp at once. -/
theorem Enters.warped (h : t.Enters t') : t.Enters t'.warped := by
  obtain ⟨b, -, hflags⟩ := h
  refine ⟨true, fun _ => rfl, ?_⟩
  cases hs : t'.stack with
  | nil => simp [flags_nil hs] at hflags
  | cons f below =>
    rw [flags_cons hs] at hflags
    rw [Thread.warped, modifyTop_cons hs, flags_cons rfl, (List.append_inj' hflags rfl).1]

theorem enters_of_push {stack : List Frame} (hs : t'.stack = f :: stack)
    (hstack : Frame.flags stack = t.flags) (hf : f.warp = Scheduler.inWarp t) : t.Enters t' :=
  ⟨f.warp, fun hw => hf.trans hw, by rw [flags_cons hs, hstack]⟩

/-- A stack inside the top block is entered, or there is none. -/
theorem enterBranch_cases (t : Thread) (g : Graph) (n : Nat) (isLoop : Bool) :
    (t.enterBranch g n isLoop).flags = t.flags ∨ t.Enters (t.enterBranch g n isLoop) := by
  unfold enterBranch
  cases hs : t.stack with
  | nil =>
    rw [topBlock?_nil hs]
    exact .inl rfl
  | cons f below =>
    rw [topBlock?_eq hs]
    have hmark : (t.modifyTop fun f => { f with isLoop := isLoop }).flags = t.flags :=
      flags_modifyTop fun _ => rfl
    simp only
    split
    · refine .inr (enters_of_push rfl hmark ?_)
      rw [modifyTop_cons hs, Scheduler.inWarp, hs]
      rfl
    · split
      · exact .inl hmark
      · exact .inl hmark

theorem shifts_enterBranch (t : Thread) (g : Graph) (n : Nat) (isLoop : Bool) :
    Shifts t.flags (t.enterBranch g n isLoop).flags := by
  rcases t.enterBranch_cases g n isLoop with h | h
  · exact .of_eq h
  · exact h.shifts

/-- The body of a procedure is entered. -/
theorem enters_enterProcedure {k : Scheduler} {now : Span} {g : Graph} {code : String}
    {supplied : Table String Value} (h : k.enterProcedure now g t code supplied = (t', .entered)) :
    t.Enters t' := by
  rcases Scheduler.enterProcedure_cases g code supplied with
    hunknown | ⟨definition, arguments, warp, -, henter⟩
  · rw [hunknown] at h
    cases h
  · rw [henter] at h
    split at h
    · cases h
    · have hbody : t.Enters (t.enterBody definition arguments) := enters_of_push rfl rfl rfl
      cases h
      unfold Scheduler.settleCall
      split
      · exact hbody
      · split
        · exact hbody.warped
        · split <;> exact hbody

end Thread

/-! ### Primitives -/

namespace Primitive

open Thread Scene

variable {σ : Type} (site : Site) (args : Args) (s : Scene σ)

theorem flags_keep (p : Progress) : (s.keep site p).thread.flags = s.thread.flags :=
  flags_modifyFrame site.frame fun _ => rfl

theorem shifts_startBranch (n : Nat) (isLoop : Bool) :
    Shifts s.thread.flags (s.startBranch site n isLoop).thread.flags :=
  s.thread.shifts_enterBranch site.graph n isLoop

theorem shifts_loopIf (condition : Bool) :
    Shifts s.thread.flags (loopIf condition site s).thread.flags := by
  unfold loopIf
  split
  · exact shifts_startBranch site s 1 true
  · exact .of_eq rfl

theorem shifts_repeatTimes : Shifts s.thread.flags (repeatTimes site args s).thread.flags := by
  unfold repeatTimes
  split
  · exact .of_eq rfl
  · exact flags_keep site s _ ▸ shifts_loopIf site (s.keep site _) _

theorem flags_wait : (wait site args s).thread.flags = s.thread.flags := by
  unfold wait
  split
  · rfl
  · split <;> rfl
  · exact flags_keep site s _

theorem shifts_stop : Shifts s.thread.flags (stop site s).thread.flags := by
  unfold stop
  split
  · exact .leaves List.nil_prefix
  · exact .leaves (flags_of_suffix (List.dropWhile_suffix _))
  · exact .of_eq rfl
  · exact .of_eq rfl
  · exact .of_eq rfl

theorem shifts_deleteThisClone : Shifts s.thread.flags (deleteThisClone s).thread.flags := by
  unfold deleteThisClone
  split
  · split
    · exact .leaves List.nil_prefix
    · exact .of_eq rfl
  · exact .of_eq rfl

/-- The stack is entered and then in warp, or there is none and the top frame enters warp. -/
theorem shifts_allAtOnce : Shifts s.thread.flags (allAtOnce site s).thread.flags := by
  unfold allAtOnce
  simp only
  split
  · exact shifts_startBranch site s 1 false
  · change Shifts s.thread.flags (s.startBranch site 1 false).thread.warped.flags
    rcases s.thread.enterBranch_cases site.graph 1 false with h | h
    · exact h ▸ shifts_warped (s.startBranch site 1 false).thread
    · exact h.warped.shifts

theorem shifts_control (op : ControlOp) :
    Shifts s.thread.flags (control op site args s).1.thread.flags := by
  unfold control
  cases op with
  | forever => exact shifts_startBranch site s 1 true
  | repeatTimes => exact shifts_repeatTimes site args s
  | repeatUntil | whileTrue => exact shifts_loopIf site s _
  | ifThen =>
    simp only
    split
    · exact shifts_startBranch site s 1 false
    · exact .of_eq rfl
  | ifElse => exact shifts_startBranch site s _ false
  | wait => exact .of_eq (flags_wait site args s)
  | waitUntil =>
    simp only
    split <;> exact .of_eq rfl
  | stop => exact shifts_stop site s
  | createCloneOf =>
    simp only [createCloneOf]
    split <;> exact .of_eq rfl
  | deleteThisClone => exact shifts_deleteThisClone s
  | allAtOnce => exact shifts_allAtOnce site s
  | createCloneOfMenu | startAsClone => exact .of_eq rfl

theorem flags_awaitThreads (threads : List ThreadId) :
    (awaitThreads threads s).thread.flags = s.thread.flags := by
  unfold awaitThreads
  split <;> rfl

theorem flags_event (op : EventOp) : (event op site args s).1.thread.flags = s.thread.flags := by
  unfold event
  cases op with
  | broadcastAndWait =>
    simp only [broadcastAndWait]
    split
    · exact flags_awaitThreads s _
    · exact (flags_awaitThreads _ _).trans (flags_keep site _ _)
  | _ => rfl

theorem shifts_startProcedure (code : String) (supplied : Table String Value) :
    Shifts s.thread.flags (s.startProcedure site code supplied).1.thread.flags := by
  unfold startProcedure
  split
  · rename_i henter
    exact (enters_enterProcedure henter).shifts
  · exact .of_eq rfl
  · exact .of_eq rfl

theorem shifts_procedure (op : ProcedureOp) :
    Shifts s.thread.flags (procedure op site args s).1.thread.flags := by
  cases op with
  | call =>
    unfold procedure call
    simp only
    split
    · exact .of_eq rfl
    · split
      · exact .of_eq rfl
      · exact flags_keep site s .called ▸ shifts_startProcedure site (s.keep site .called) _ _
  | _ => exact .of_eq rfl

/-- **A built-in primitive pops frames, pushes one, or sets the flag of the top frame.** -/
theorem shifts_run (op : Opcode) :
    Shifts s.thread.flags (run .empty op site args s).1.thread.flags := by
  cases op with
  | control op => exact shifts_control site args s op
  | event op => exact .of_eq (flags_event site args s op)
  | data op => exact .of_eq (flags_of_stack (congrArg _ (thread_data site args s op)))
  | operator op => exact .of_eq (flags_of_stack (congrArg _ (thread_operator site args s op)))
  | procedure op => exact shifts_procedure site args s op
  | motion op => exact .of_eq (flags_of_stack (congrArg _ (thread_motion args s op)))
  | looks op => exact .of_eq (flags_of_stack (congrArg _ (thread_looks args s op)))
  | sensing op => exact .of_eq (flags_of_stack (congrArg _ (thread_sensing site args s op)))
  | custom name => exact .of_eq rfl

end Primitive

/-! ### The scheduler -/

namespace Scheduler

open Thread

variable {k : Scheduler} {now : Span} {g : Graph} {t : Thread}

/-- **Moving past a block takes frames off**, and the one that moves on keeps its flag. -/
theorem Advanced.flags {r : Thread × Turn} (h : Advanced k now g t r) : r.1.flags <+: t.flags := by
  cases h with
  | empty => exact List.prefix_refl _
  | next hs => exact (Frame.flags_prefix hs :)
  | loop hs => exact Frame.flags_prefix (hs.trans (List.tail_suffix _))
  | emptied => exact List.nil_prefix

end Scheduler

namespace Scene

open Thread

variable {σ : Type} (s : Scene σ)

theorem flags_remember (frame : Nat) (h : Handle) (v : Value) :
    (s.remember frame h v).thread.flags = s.thread.flags :=
  flags_modifyFrame frame fun _ => rfl

theorem flags_finish (site : Site) (r : Scene σ × Outcome) :
    (finish site r).1.thread.flags = r.1.thread.flags :=
  have hforget : (r.1.forget site.frame).thread.flags = r.1.thread.flags :=
    flags_modifyFrame site.frame fun _ => rfl
  finish_cases (P := fun s => s.thread.flags = r.1.thread.flags) (fun _ _ => rfl) hforget
    fun _ _ => hforget

theorem Obeyed.flags {s : Scene σ} {r : Scene σ × Bool} (h : Obeyed s r) :
    r.1.thread.flags <+: s.thread.flags := by
  cases h with
  | unasked | startsOver => exact List.prefix_refl _
  | stopped => exact List.nil_prefix

theorem Proceeded.flags {s : Scene σ} {k : Scheduler} {g : Graph} {top : Handle} {warp : Bool}
    {r : Scene σ × Turn} (h : Proceeded k g top warp s r) :
    r.1.thread.flags <+: s.thread.flags := by
  cases h with
  | moved _ _ ha => exact (Scheduler.advanced_of_advance ha).flags
  | _ => exact List.prefix_refl _

end Scene

/-! ### Between turns -/

namespace Pass

open Thread

variable {σ : Type} {k : Scheduler} {w : World σ} {t : Thread}

/-- A result has come. -/
theorem TakenIn.flags {slot : Slotting} {v : Value} {r : Thread × Bool}
    (h : TakenIn k w t v slot r) : r.1.flags <+: t.flags := by
  cases h with
  | reporter h =>
    have hnote : (t.awake.modifyTop fun f => { f with reported := f.reported.insert h v }).flags =
        t.flags := flags_modifyTop fun _ => rfl
    exact hnote ▸ List.prefix_refl _
  | retired => exact List.nil_prefix
  | advanced _ ha =>
    have hforgot : (t.awake.modifyTop fun f => { f with reported := .empty }).flags = t.flags :=
      flags_modifyTop fun _ => rfl
    exact hforgot ▸ (Scheduler.advanced_of_advance ha).flags

theorem Woken.flags {r : Scene σ × Bool} (h : Woken k w t r) : r.1.thread.flags <+: t.flags := by
  cases h with
  | free | waits => exact List.prefix_refl _
  | takesIn _ _ htake => exact (takenIn_of_takeIn htake).flags
  | refused => exact List.nil_prefix

end Pass

namespace Thread

variable {t t' t'' : Thread}

theorem flags_due (t : Thread) : t.due.flags = t.flags := by
  unfold Thread.due
  split <;> rfl

/-- A thread starts over, or no frame is pushed and no flag changes. -/
def Recedes (t t' : Thread) : Prop := t'.Anew ∨ t'.flags <+: t.flags

theorem Recedes.of_afresh (h : t'.Afresh) : t.Recedes t' := by
  cases h with
  | anew h => exact .inl h
  | gone h => exact .inr (flags_nil h ▸ List.nil_prefix)

theorem Handled.recedes (h : Handled t t') : t.Recedes t' := by
  cases h with
  | kept => exact .inr (List.prefix_refl _)
  | stopped => exact .of_afresh (.gone rfl)
  | startedOver _ ht => exact .inl ⟨by rw [ht]; rfl, by simp⟩

theorem recedes_atRest (t : Thread) : t.Recedes t.atRest := by
  by_cases hr : t.restarting = true
  · exact .inl (anew_atRest hr)
  · rw [Thread.atRest, if_neg hr]
    exact .inr (List.prefix_refl _)

theorem Rest.recedes (h : Rest t t') : t.Recedes t' := by
  cases h with
  | waited hw =>
    rcases hw with hw | hw
    · exact hw.recedes
    · exact hw.recedes.imp_right fun hp => t.flags_due ▸ hp
  | settled => exact .inr (List.prefix_refl _)
  | woken k w _ => exact .inr (Pass.woken_of_wake rfl).flags
  | retired => exact .of_afresh (.gone rfl)
  | ended ht => exact .of_afresh (Afresh.atRest (.gone (stack_of_topBlock? ht)))

/-- **Between turns frames are only taken off**, unless the thread starts over. -/
theorem Recedes.rests (h : t.Recedes t') (hr : Rests t' t'') : t.Recedes t'' := by
  induction hr with
  | refl => exact h
  | tail _ hrest ih =>
    rcases ih with hanew | hp
    · exact .of_afresh (hrest.rests.afresh (.anew hanew))
    · exact hrest.recedes.imp_right fun hp' => hp'.trans hp

end Thread

end Stagecraft
