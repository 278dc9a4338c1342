import Stagecraft.Proofs.Report.Memos
import Stagecraft.Proofs.Schedule.Laps

/-!
# Straight scripts

A script whose blocks only follow each other takes one block at a time, and its thread ends with the
last of them. Most primitives leave the stack and the status of their thread alone whatever they are
given. The others are control, events, calls, questions and what the host adds: for each of them it
is said here when it does so too. Then executing a block leaves the thread where it is, and moving
past the block leads to the next one.

* `Scene.Stays` : the thread stays at its blocks, and nothing is asked of it;
* `Invocation.Straight` : a primitive neither branches nor calls, yields, parks, stops or starts its
  own script;
* `Invocation.Straight.stays` : **such a primitive leaves stack and status alone**;
* `Execution.Straight` : a block does none of this, nor do its reporters, and it does not fail;
* `Execution.straight_of_chain` : **a straight script takes one step per block**, and one turn.
-/

namespace Stagecraft

/-! ### Scenes in which nothing happens to the thread -/

namespace Scene

variable {σ : Type} {s s' s'' : Scene σ}

/-- The thread stays at its blocks with its status, and nothing is asked of it. -/
structure Stays (s s' : Scene σ) : Prop where
  id : s'.thread.id = s.thread.id
  actor : s'.thread.actor = s.thread.actor
  top : s'.thread.top = s.thread.top
  blocks : s'.thread.stack.map (·.block) = s.thread.stack.map (·.block)
  status : s'.thread.status = s.thread.status
  current : s'.world.current = s.world.current

/-- If anyone is on stage, it is the thread, and nothing has been asked of it. -/
def Undisturbed (s : Scene σ) : Prop :=
  ∀ c, s.world.current = some c → c = ⟨s.thread.id, s.thread.actor, s.thread.top, false, false⟩

namespace Stays

theorem refl (s : Scene σ) : Stays s s := ⟨rfl, rfl, rfl, rfl, rfl, rfl⟩

theorem trans (h : Stays s s') (h' : Stays s' s'') : Stays s s'' :=
  ⟨h'.id.trans h.id, h'.actor.trans h.actor, h'.top.trans h.top, h'.blocks.trans h.blocks,
    h'.status.trans h.status, h'.current.trans h.current⟩

/-- The thread is left alone altogether. -/
theorem of_thread (ht : s'.thread = s.thread) (hc : s'.world.current = s.world.current) :
    Stays s s' := by
  refine ⟨?_, ?_, ?_, ?_, ?_, hc⟩ <;> rw [ht]

/-- Something is noted on its frames. -/
theorem of_stack (s : Scene σ) {stack : List Frame}
    (h : stack.map (·.block) = s.thread.stack.map (·.block)) :
    Stays s { s with thread := { s.thread with stack := stack } } :=
  ⟨rfl, rfl, rfl, h, rfl, rfl⟩

theorem modifyFrame (s : Scene σ) (i : Nat) {f : Frame → Frame}
    (hf : ∀ x, (f x).block = x.block) :
    Stays s { s with thread := s.thread.modifyFrame i f } := by
  unfold Thread.modifyFrame
  split
  · refine .of_stack s (List.ext_getElem (by simp) fun j hj hj' => ?_)
    simp only [List.getElem_map, List.getElem_modify]
    split
    · exact hf _
    · rfl
  · exact .refl s

theorem modifyTop (s : Scene σ) {f : Frame → Frame} (hf : ∀ x, (f x).block = x.block) :
    Stays s { s with thread := s.thread.modifyTop f } := by
  unfold Thread.modifyTop
  split
  · rename_i top rest hs
    exact .of_stack s (by rw [hs, List.map_cons, List.map_cons, hf])
  · exact .refl s

theorem keep (s : Scene σ) (site : Site) (p : Progress) : Stays s (s.keep site p) :=
  modifyFrame s _ fun _ => rfl

theorem depth (h : Stays s s') : s'.thread.depth = s.thread.depth := by
  have hlength := congrArg List.length h.blocks
  rwa [List.length_map, List.length_map] at hlength

theorem undisturbed (h : Stays s s') (hs : s.Undisturbed) : s'.Undisturbed := by
  intro c hc
  rw [h.id, h.actor, h.top]
  exact hs c (h.current ▸ hc)

end Stays

/-- Nothing that was asked has to be obeyed. -/
theorem Undisturbed.obey (h : s.Undisturbed) : s.obey = (s, false) := by
  generalize ho : s.obey = r
  cases obeyed_of_obey ho with
  | unasked => rfl
  | stopped hc hretire =>
    obtain rfl := h _ hc
    cases hretire
  | startsOver hc _ hrestart =>
    obtain rfl := h _ hc
    cases hrestart

end Scene

/-! ### Starting the scripts of others -/

namespace World

variable {σ : Type} {w w' : World σ}

theorem current_lookupVariable (w : World σ) (actor : ActorId) (id : Option String) (name : String)
    (kind : VariableKind) : (w.lookupVariable actor id name kind).1.current = w.current := by
  unfold lookupVariable
  split
  · rfl
  · split <;> rfl

theorem currentRuns_of_current (h : w'.current = w.current) (actor : ActorId) (top : Handle) :
    w'.currentRuns actor top = w.currentRuns actor top := by
  unfold currentRuns
  rw [h]

theorem current_startScript (restarts : Bool) {actor : ActorId} {top : Handle}
    (h : w.currentRuns actor top = false) :
    (w.startScript restarts actor top).1.current = w.current := by
  unfold startScript
  rw [h, if_neg Bool.false_ne_true]
  split
  · split
    · unfold modifyRunning
      split <;> rfl
    · rfl
  · exact current_pushThread w actor top

/-- Nothing is asked of the thread on stage when the scripts are those of others. -/
theorem current_startScripts (restarts : Bool) (scripts : List (ActorId × Handle)) :
    ∀ w : World σ, (∀ x ∈ scripts, w.currentRuns x.1 x.2 = false) →
      (startScripts restarts scripts w).1.current = w.current := by
  induction scripts with
  | nil => exact fun _ _ => rfl
  | cons script rest ih =>
    intro w h
    have hfirst := current_startScript restarts (h script List.mem_cons_self)
    have hrest : ∀ x ∈ rest,
        (w.startScript restarts script.1 script.2).1.currentRuns x.1 x.2 = false := fun x hx =>
      (currentRuns_of_current hfirst x.1 x.2).trans (h x (List.mem_cons_of_mem _ hx))
    rw [startScripts]
    exact (ih _ hrest).trans hfirst

theorem current_startHats (hat : Opcode) (fields : List (String × String))
    (only : Option ActorId)
    (h : ∀ x ∈ w.matchingScripts hat fields only, w.currentRuns x.1 x.2 = false) :
    (w.startHats hat fields only).1.current = w.current := by
  unfold startHats
  split
  · rfl
  · exact current_startScripts _ _ w h

/-- Scripts of one actor only are started. -/
theorem fst_of_mem_matchingScripts {hat : Opcode} {fields : List (String × String)} {id : ActorId}
    {x : ActorId × Handle} (h : x ∈ w.matchingScripts hat fields (some id)) : x.1 = id := by
  obtain ⟨a, ha, hx⟩ := List.mem_flatMap.1 h
  have hid : a.id = id := (beq_iff_eq.1 (List.mem_filter.1 ha).2).symm
  split at hx
  · cases hx
  · obtain ⟨top, -, htop⟩ := List.mem_filterMap.1 hx
    split at htop
    · split at htop
      · obtain rfl := Option.some.inj htop
        exact hid
      · cases htop
    · cases htop

/-- Cloning asks nothing of a thread that is not the clone's. -/
theorem current_createClone (source : ActorId)
    (h : ∀ c, w.current = some c → c.actor ≠ w.nextActor) :
    (w.createClone source).1.current = w.current := by
  unfold createClone
  split
  · rfl
  · split
    · rfl
    · split
      · rfl
      · refine current_startHats _ _ _ fun x hx => ?_
        rw [fst_of_mem_matchingScripts hx]
        unfold currentRuns
        simp only
        split
        · rename_i c hc
          simp [h c hc]
        · rfl

/-- Stopping the others asks nothing of the thread that is kept. -/
theorem current_stopActor (actor : ActorId) (id : ThreadId)
    (h : ∀ c, w.current = some c → c.id = id) :
    (w.stopActor actor (some id)).current = w.current := by
  have hretire : (w.current.map fun c => if (c.actor == actor && some c.id != some id) = true then
      { c with retire := true } else c) = w.current := by
    cases hc : w.current with
    | none => rfl
    | some c => simp [h c hc]
  unfold stopActor dropFinished
  simp only
  split <;> exact hretire

end World

/-! ### Primitives that leave the thread where it is -/

namespace Primitive

open Scene

variable {σ : Type} (site : Site) (args : Args) (s : Scene σ)

@[simp] theorem current_lookup (field : String) (kind : VariableKind) :
    (lookup site s field kind).1.world.current = s.world.current :=
  s.world.current_lookupVariable _ _ _ _

@[simp] theorem current_draw : (draw s).1.world.current = s.world.current :=
  s.world.offstage_draw.current

theorem current_writeVariable (update : Value → Value) :
    (writeVariable site s update).world.current = s.world.current := by
  unfold writeVariable
  simp only
  split
  · exact current_lookup site s _ _
  · split
    · exact current_lookup site s _ _
    · split
      · exact current_lookup site s "VARIABLE" .scalar
      · exact current_lookup site s "VARIABLE" .scalar

theorem current_editList (f : List Value → List Value) :
    (editList site s f).world.current = s.world.current := by
  unfold editList
  simp only
  split <;> exact current_lookup site s "LIST" .list

theorem current_readVariable : (readVariable site s).1.world.current = s.world.current := by
  unfold readVariable
  simp only
  split <;> exact current_lookup site s _ _

theorem current_data (op : DataOp) : (data op site args s).1.world.current = s.world.current := by
  unfold data
  cases op with
  | setVariable | changeVariable => exact current_writeVariable site s _
  | addToList | deleteAllOfList => exact current_editList site s _
  | deleteOfList | insertAtList | replaceItemOfList =>
    exact (current_editList site _ _).trans (current_draw s)
  | itemOfList => exact (current_lookup site _ "LIST" .list).trans (current_draw s)
  | listContents | lengthOfList | listContainsItem => exact current_lookup site s "LIST" .list
  | _ => exact current_readVariable site s

theorem current_moveTo (path : Float → Float → Float × Float) :
    (moveTo s path).world.current = s.world.current := by
  unfold moveTo
  split
  · rfl
  · simp only
    split <;> rfl

theorem current_restyle (f : Actor → Actor) :
    (restyle s f).world.current = s.world.current := by
  unfold restyle
  split <;> rfl

/-- **Variables, lists, operators, motion and looks leave the thread where it is**, and so does
sensing. -/
theorem stays_data (op : DataOp) : Stays s (data op site args s).1 :=
  .of_thread (thread_data site args s op) (current_data site args s op)

theorem stays_operator (op : OperatorOp) : Stays s (operator op site args s).1 := by
  refine .of_thread (thread_operator site args s op) ?_
  cases op with
  | random => exact current_draw s
  | _ => rfl

theorem stays_motion (op : MotionOp) : Stays s (motion op args s).1 := by
  refine .of_thread (thread_motion args s op) ?_
  unfold motion
  cases op with
  | xPosition | yPosition => rfl
  | _ =>
    simp only
    exact current_moveTo s _

theorem stays_looks (op : LooksOp) : Stays s (looks op args s).1 := by
  refine .of_thread (thread_looks args s op) ?_
  unfold looks
  cases op <;> exact current_restyle s _

theorem stays_sensing (op : SensingOp) : Stays s (sensing op site args s).1 := by
  refine .of_thread (thread_sensing site args s op) ?_
  cases op <;> rfl

end Primitive

/-! ### Primitives that do so under a condition -/

/-- The result does not come later. -/
def Outcome.AtOnce (o : Outcome) : Prop := ∀ channel, o ≠ .deferred channel

namespace Invocation

variable {σ : Type} (ext : Extensions σ) (i : Invocation σ)

/-- No stack stands there that could be entered. -/
def Branchless (n : Nat) : Prop :=
  ∀ h, i.before.thread.topBlock? = some h → i.site.graph.branch? h n = none

/-- An event starts the script of the thread. -/
def Summons (e : Event) : Prop :=
  ∃ x ∈ i.before.world.matchingScripts e.hat e.fields e.actor,
    x.1 = i.before.thread.actor ∧ i.before.thread.top = some x.2

/-- A control primitive neither enters a stack nor yields, and it does not stop its script or start
it. -/
def StraightControl : ControlOp → Prop
  | .forever => False
  | .repeatTimes => ∀ p, i.before.progress? i.site = some p →
      p.remaining (Primitive.roundedCount (i.args.number "TIMES")) - 1 < 0
  | .repeatUntil => i.args.flag "CONDITION" = true
  | .whileTrue => i.args.flag "CONDITION" = false
  | .ifThen => i.args.flag "CONDITION" = true → i.Branchless 1
  | .ifElse => i.Branchless (if i.args.flag "CONDITION" then 1 else 2)
  | .wait => ∀ p, i.before.progress? i.site = some p → ∃ started duration,
      p = .timing started duration ∧ duration ≤ i.before.world.now - started
  | .waitUntil => i.args.flag "CONDITION" = true
  | .stop => (i.site.field? "STOP_OPTION").getD "all" ∉ ["all", "this script"]
  | .createCloneOf => i.before.thread.actor ≠ i.before.world.nextActor
  | .createCloneOfMenu => True
  | .deleteThisClone => ∀ a, i.before.actor? = some a → a.isClone = false
  | .startAsClone => True
  | .allAtOnce => i.Branchless 1

/-- An event primitive neither starts its own script nor waits for one that it started. -/
def StraightEvent : EventOp → Prop
  | .broadcast => ¬ i.Summons (.broadcast (i.args.text "BROADCAST_INPUT"))
  | .broadcastAndWait =>
    match i.before.progress? i.site with
    | some (.awaiting threads) => threads.any i.before.world.isActive = false
    | _ =>
      let message := i.args.text "BROADCAST_INPUT"
      let (w, started) := i.before.world.broadcast message
      ¬ i.Summons (.broadcast message) ∧ started.any w.isActive = false
  | _ => True

/-- A procedure primitive enters no procedure: it has done so already, it does not know the
procedure, or the stack is too deep. -/
def StraightCall : ProcedureOp → Prop
  | .call => i.before.progress? i.site ≠ some .called →
      ∀ signature, i.site.block?.bind (·.signature) = some signature →
        i.site.graph.definition? signature.code = none ∨
          i.site.scheduler.maxCallDepth ≤ i.before.thread.depth
  | _ => True

/-- A primitive neither branches nor calls, yields, parks, stops or starts its own script. Of the
host's primitives this is said by what they leave behind. -/
def Straight : Prop :=
  match i.opcode with
  | .control op => i.StraightControl op
  | .event op => i.StraightEvent op
  | .procedure op => i.StraightCall op
  | .sensing op => op ≠ .askAndWait
  | .custom _ => Scene.Stays i.before (i.result ext).1 ∧ (i.result ext).2.AtOnce
  | _ => True

end Invocation

namespace Primitive

open Scene

variable {σ : Type} {ext : Extensions σ} {i : Invocation σ}

/-- A stack that is not there is not entered. -/
theorem stays_startBranch {n : Nat} (h : i.Branchless n) :
    Stays i.before (i.before.startBranch i.site n false) := by
  unfold Scene.startBranch Thread.enterBranch
  split
  · exact .refl _
  · rename_i b hb
    simp only [h b hb]
    exact .modifyTop _ fun _ => rfl

theorem loopIf_false (site : Site) (s : Scene σ) : loopIf false site s = s := rfl

theorem stays_repeatTimes (h : i.StraightControl .repeatTimes) :
    Stays i.before (repeatTimes i.site i.args i.before) := by
  unfold repeatTimes
  split
  · exact .refl _
  · rename_i p hp
    have hnone : ¬ 0 ≤ p.remaining (roundedCount (i.args.number "TIMES")) - 1 :=
      Int64.not_le.2 (h p hp)
    have hloop : decide (0 ≤ p.remaining (roundedCount (i.args.number "TIMES")) - 1) = false :=
      decide_eq_false hnone
    change Stays i.before (loopIf (decide (0 ≤ p.remaining _ - 1)) i.site _)
    rw [hloop, loopIf_false]
    exact .keep _ _ _

theorem stays_wait (h : i.StraightControl .wait) :
    Stays i.before (wait i.site i.args i.before) := by
  unfold wait
  split
  · exact .refl _
  · rename_i started duration hp
    obtain ⟨s, d, heq, hover⟩ := h _ hp
    cases heq
    rw [if_neg (Nat.not_lt.mpr hover)]
    exact .refl _
  · rename_i p hfresh hp
    obtain ⟨s, d, rfl, -⟩ := h _ hp
    exact absurd rfl (hfresh s d)

theorem stays_stop (hs : i.before.Undisturbed) (h : i.StraightControl .stop) :
    Stays i.before (stop i.site i.before) := by
  simp only [Invocation.StraightControl, List.mem_cons, List.not_mem_nil, or_false, not_or] at h
  have hothers : Stays i.before { i.before with
      world := i.before.world.stopActor i.before.thread.actor (some i.before.thread.id) } :=
    .of_thread rfl (World.current_stopActor _ _ fun c hc => by rw [hs c hc])
  unfold stop
  split
  · exact absurd ‹_› h.1
  · exact absurd ‹_› h.2
  · exact hothers
  · exact hothers
  · exact .refl _

theorem stays_createCloneOf (hs : i.before.Undisturbed) (h : i.StraightControl .createCloneOf) :
    Stays i.before (createCloneOf i.args i.before) := by
  unfold createCloneOf
  simp only
  split
  · exact .of_thread rfl (World.current_createClone _ fun c hc => by rw [hs c hc]; exact h)
  · exact .refl _

theorem stays_deleteThisClone (h : i.StraightControl .deleteThisClone) :
    Stays i.before (deleteThisClone i.before) := by
  unfold deleteThisClone
  split
  · rename_i a ha
    rw [h a ha, if_neg Bool.false_ne_true]
    exact .refl _
  · exact .refl _

theorem stays_allAtOnce (h : i.StraightControl .allAtOnce) :
    Stays i.before (allAtOnce i.site i.before) := by
  have hbranch := stays_startBranch h
  unfold allAtOnce
  simp only
  split
  · exact hbranch
  · exact hbranch.trans (.modifyTop _ fun _ => rfl)

theorem stays_control (hs : i.before.Undisturbed) {op : ControlOp} (h : i.StraightControl op) :
    Stays i.before (control op i.site i.args i.before).1 := by
  cases op with
  | forever => exact h.elim
  | repeatTimes => exact stays_repeatTimes h
  | repeatUntil | whileTrue =>
    simp only [Invocation.StraightControl] at h
    simp only [control, h]
    exact .refl _
  | ifThen =>
    simp only [control]
    split
    · exact stays_startBranch (h ‹_›)
    · exact .refl _
  | ifElse => exact stays_startBranch h
  | wait => exact stays_wait h
  | waitUntil =>
    simp only [Invocation.StraightControl] at h
    simp only [control, h, if_true]
    exact .refl _
  | stop => exact stays_stop hs h
  | createCloneOf => exact stays_createCloneOf hs h
  | createCloneOfMenu | startAsClone => exact .refl _
  | deleteThisClone => exact stays_deleteThisClone h
  | allAtOnce => exact stays_allAtOnce h

/-- An event that does not start the script of the thread asks nothing of it. -/
theorem stays_broadcast (hs : i.before.Undisturbed) {message : String}
    (h : ¬ i.Summons (.broadcast message)) :
    Stays i.before { i.before with world := (i.before.world.broadcast message).1 } := by
  refine .of_thread rfl (World.current_startHats _ _ _ fun x hx => ?_)
  unfold World.currentRuns
  split
  · rename_i c hc
    obtain rfl := hs c hc
    have hother : ¬ (x.1 = i.before.thread.actor ∧ i.before.thread.top = some x.2) :=
      fun he => h ⟨x, hx, he⟩
    simp only [Bool.not_false, Bool.and_true, Bool.and_eq_false_iff, beq_eq_false_iff_ne]
    exact (not_and_or.mp hother).imp_left fun hne he => hne he.symm
  · rfl

theorem stays_event (hs : i.before.Undisturbed) {op : EventOp} (h : i.StraightEvent op) :
    Stays i.before (event op i.site i.args i.before).1 := by
  cases op with
  | broadcast => exact stays_broadcast hs h
  | broadcastAndWait =>
    change Stays i.before (broadcastAndWait i.site i.args i.before)
    simp only [Invocation.StraightEvent] at h
    unfold broadcastAndWait
    split
    · rename_i threads hp
      rw [hp] at h
      rw [awaitThreads, h, if_neg Bool.false_ne_true]
      exact .refl _
    · rename_i hp
      split at h
      · exact absurd ‹_› (hp _)
      · simp only at h ⊢
        rw [awaitThreads]
        change Stays i.before (if (_ : List ThreadId).any
          (i.before.world.broadcast _).1.isActive = true then _ else _)
        rw [h.2, if_neg Bool.false_ne_true]
        exact (stays_broadcast hs h.1).trans (.keep _ _ _)
  | _ => exact .refl _

theorem stays_procedure {op : ProcedureOp} (h : i.StraightCall op) :
    Stays i.before (procedure op i.site i.args i.before).1 := by
  cases op with
  | call =>
    change Stays i.before (call i.site i.args i.before)
    unfold call
    split
    · exact .refl _
    · rename_i hcalled
      split
      · exact .refl _
      · rename_i signature hsignature
        have hkeep := Stays.keep i.before i.site .called
        refine hkeep.trans ?_
        unfold Scene.startProcedure Scheduler.enterProcedure
        rcases h hcalled signature hsignature with hnone | hdeep
        · rw [hnone]
          exact .refl _
        · rw [← hkeep.depth] at hdeep
          split
          · rename_i he
            split at he
            · cases he
            · rw [if_pos hdeep] at he
              cases he
          · exact .refl _
          · exact .of_thread rfl rfl
  | _ => exact .refl _

end Primitive

namespace Invocation

open Primitive Scene

variable {σ : Type} {ext : Extensions σ} {i : Invocation σ}

/-- **Such a primitive leaves stack and status alone**, and it asks nothing of the thread. -/
theorem Straight.stays (h : i.Straight ext) (hs : i.before.Undisturbed) :
    Stays i.before (i.result ext).1 := by
  unfold Straight at h
  unfold result
  cases hop : i.opcode with
  | control op =>
    rw [hop] at h
    exact stays_control hs h
  | event op =>
    rw [hop] at h
    exact stays_event hs h
  | procedure op =>
    rw [hop] at h
    exact stays_procedure h
  | data op => exact stays_data _ _ _ op
  | operator op => exact stays_operator _ _ _ op
  | motion op => exact stays_motion _ _ op
  | looks op => exact stays_looks _ _ op
  | sensing op => exact stays_sensing _ _ _ op
  | custom name =>
    rw [hop] at h
    rw [result, hop] at h
    exact h.1

/-- Its result does not come later. -/
theorem Straight.atOnce (h : i.Straight ext) : (i.result ext).2.AtOnce := by
  unfold Straight at h
  unfold result
  cases hop : i.opcode with
  | sensing op =>
    rw [hop] at h
    cases op with
    | askAndWait => exact absurd rfl h
    | _ => exact fun _ he => by cases he
  | custom name =>
    rw [hop] at h
    rw [result, hop] at h
    exact h.2
  | control op | event op | procedure op | data op | operator op | motion op | looks op =>
    cases op <;> exact fun _ he => by cases he

end Invocation

/-! ### Executing a block -/

namespace Scene

variable {σ : Type} {ext : Extensions σ} {site : Site} {s s' : Scene σ} {l : List (Invocation σ)}

/-- Reporters that leave the thread where it is do so one after the other. -/
theorem Evaluates.stays (h : Evaluates ext site s l s') (hs : s.Undisturbed) :
    (∀ i ∈ l, i.Straight ext) → Stays s s' := by
  induction h with
  | nil => exact fun _ => .refl s
  | remember h v _ ih => exact fun hl => (ih hl).trans (.modifyFrame _ _ fun _ => rfl)
  | @report l i _ hi _ ih =>
    intro hl
    have hbefore := ih fun i hi => hl i (List.mem_append_left _ hi)
    exact hbefore.trans
      ((hl i (List.mem_append_right _ List.mem_cons_self)).stays (hbefore.undisturbed hs))

theorem unparked_gather {report : Handle → Scene σ → Scene σ × Evaluation Value}
    {calls : Handle → Scene σ → List (Invocation σ)}
    (hreport : ∀ h s, (∀ i ∈ calls h s, (i.result ext).2.AtOnce) → (report h s).2 ≠ .parked)
    (inputs : List (String × Input)) : ∀ (done : List (String × Value)) (s : Scene σ),
      (∀ i ∈ gatherCalls report calls inputs s, (i.result ext).2.AtOnce) →
        (gather report inputs done s).2 ≠ .parked := by
  induction inputs with
  | nil => exact fun _ _ _ he => by cases he
  | cons e rest ih =>
    intro done s hcalls
    obtain ⟨name, input⟩ := e
    cases input with
    | literal v => exact ih _ s hcalls
    | branch h => exact ih _ s hcalls
    | reporter h =>
      rw [gatherCalls] at hcalls
      have hr := hreport h s fun i hi => hcalls i (List.mem_append_left _ hi)
      rw [gather]
      rcases hh : report h s with ⟨s₁, r⟩
      rw [hh] at hcalls hr
      cases r with
      | value v => exact ih _ s₁ fun i hi => hcalls i (List.mem_append_right _ hi)
      | parked => exact absurd rfl hr
      | failed fault => exact fun he => by cases he

theorem unparked_settle {h : Handle} {op : Opcode} {r : Scene σ × Evaluation Args}
    (hr : r.2 ≠ .parked) (hcalls : ∀ i ∈ ownCall site h op r, (i.result ext).2.AtOnce) :
    (settle ext site h op r).2 ≠ .parked := by
  obtain ⟨s, r⟩ := r
  cases r with
  | parked => exact absurd rfl hr
  | failed fault => exact fun he => by cases he
  | value args =>
    have hown := hcalls _ List.mem_cons_self
    rw [settle]
    split
    · exact fun he => by cases he
    · exact fun he => by cases he
    · rename_i channel ho
      exact absurd (congrArg Prod.snd ho) (hown channel)
    · exact fun he => by cases he

/-- A reporter does not park the thread where no result comes later, by induction on the room that
is left. -/
theorem unparked_report (room : Nat) : ∀ (h : Handle) (s : Scene σ),
    (∀ i ∈ reportCalls ext site room h s, (i.result ext).2.AtOnce) →
      (report ext site room h s).2 ≠ .parked := by
  induction room with
  | zero =>
    intro h s _
    rw [report]
    split
    · exact fun he => by cases he
    · split
      · exact fun he => by cases he
      · split <;> exact fun he => by cases he
  | succ room ih =>
    intro h s hcalls
    rw [reportCalls] at hcalls
    rw [report]
    split
    · exact fun he => by cases he
    · rename_i hmemo
      split
      · exact fun he => by cases he
      · rename_i b hb
        split
        · exact fun he => by cases he
        · rename_i hmenu
          simp only [hmemo, hb, hmenu, Bool.false_eq_true, if_false] at hcalls
          exact unparked_settle
            (unparked_gather ih _ [] s fun i hi => hcalls i (List.mem_append_left _ hi))
            fun i hi => hcalls i (List.mem_append_right _ hi)

/-- The thread stands at a block, on its only frame, and nothing is asked of it. -/
structure StandsAt (s : Scene σ) (h : Handle) : Prop where
  blocks : s.thread.stack.map (·.block) = [h]
  status : s.thread.status = .running
  undisturbed : s.Undisturbed

theorem StandsAt.stays {h : Handle} (hs : s.StandsAt h) (hst : Stays s s') : s'.StandsAt h :=
  ⟨hst.blocks.trans hs.blocks, hst.status.trans hs.status, hst.undisturbed hs.undisturbed⟩

theorem stays_entered (s : Scene σ) : Stays s s.entered := by
  unfold entered startWarp
  split <;> exact ⟨rfl, rfl, rfl, rfl, rfl, rfl⟩

end Scene

namespace Execution

open Scene Thread

variable {σ : Type} {e : Execution σ} {h n : Handle}

/-- The block neither branches nor calls, yields, parks, stops or starts its own script, nor does a
reporter in its inputs; and it does not fail. -/
structure Straight (e : Execution σ) : Prop where
  calls : ∀ i ∈ e.calls, i.Straight e.ext
  fault : e.executed.2 = none

/-- The thread is running, and it executes a block: the primitive of the block is run. -/
structure Executes (e : Execution σ) (h : Handle) : Prop where
  running : e.thread.status = .running
  top : e.thread.topBlock? = some h
  call : ∃ i, e.call? = some i ∧ i.block = h ∧ e.graph.opcode? h = some i.opcode

/-- What stands at the place of the block afterwards. -/
def succ (e : Execution σ) : Execution σ := ⟨e.ext, e.after.1, e.graph, e.after.2.1⟩

/-- The primitive of a block that is executed straight is run. -/
theorem Straight.call (hx : e.Straight) {f : Frame} (hs : e.thread.stack = [f])
    (hlive : e.graph.contains f.block = true) : ∃ i, e.call? = some i := by
  have htop : e.thread.topBlock? = some f.block := topBlock?_eq hs
  have htop' : e.entered.thread.topBlock? = some f.block := topBlock?_eq (stack_entered hs)
  obtain ⟨b, hb⟩ := Option.isSome_iff_exists.1 hlive
  have hcalls : e.calls =
      gatherCalls (report e.ext (e.site f.block) e.scheduler.countBlock.maxReporterDepth)
        (reportCalls e.ext (e.site f.block) e.scheduler.countBlock.maxReporterDepth)
        b.inputs.entries e.entered ++ ownCall (e.site f.block) f.block b.opcode
          (e.gathered f.block b) := by
    simp only [Execution.calls, invocations, htop', hb]
    rfl
  have hunparked : (e.gathered f.block b).2 ≠ .parked :=
    unparked_gather (unparked_report _) _ [] e.entered fun i hi =>
      (hx.calls i (hcalls ▸ List.mem_append_left _ hi)).atOnce
  have hgather : gather (report e.ext ⟨e.scheduler.countBlock, e.graph, f.block,
      e.entered.thread.depth - 1⟩ e.scheduler.countBlock.maxReporterDepth) b.inputs.entries []
      e.entered = e.gathered f.block b := rfl
  have hfault := hx.fault
  simp only [Execution.executed, execute, htop', hb, hgather] at hfault
  rw [call?, htop, Option.bind_some, hb, Option.bind_some]
  rcases hr : e.gathered f.block b with ⟨s, r⟩
  rw [hr] at hunparked hfault
  cases r with
  | value args => exact ⟨_, rfl⟩
  | parked => exact absurd rfl hunparked
  | failed fault => cases hfault

/-- What follows the primitive leaves the thread where it is. -/
theorem stays_finish {site : Site} {r : Scene σ × Outcome} (h : r.2.AtOnce) :
    Stays r.1 (finish site r).1 := by
  have hforget : Stays r.1 (r.1.forget site.frame) := .modifyFrame r.1 _ fun _ => rfl
  exact finish_cases (P := Stays r.1) (fun channel hr => absurd hr (h channel)) hforget
    fun _ _ => hforget.trans ⟨rfl, rfl, rfl, rfl, rfl, rfl⟩

/-- **A block that is executed straight leaves its thread where it is.** -/
theorem Straight.executed (hx : e.Straight) (hs : e.scene.StandsAt h)
    (hlive : e.graph.contains h = true) :
    e.Executes h ∧ ∃ s, e.executed = (s, none) ∧ s.StandsAt h := by
  obtain ⟨f, hstack, rfl⟩ := List.map_eq_singleton_iff.1 hs.blocks
  obtain ⟨i, hcall⟩ := hx.call hstack hlive
  have hran := ran_of_call hstack hcall
  have hblock : i.block = f.block := by rw [Invocation.block, hran.site]; rfl
  refine ⟨⟨hs.status, topBlock?_eq hstack, i, hcall, hblock, hran.opcode⟩, ?_⟩
  obtain ⟨l, hcalls, hinputs⟩ := hran.inputs
  have hentered : e.entered.StandsAt f.block := hs.stays (stays_entered _)
  have hall : ∀ j ∈ l ++ [i], j.Straight e.ext := fun j hj => hx.calls j (hcalls ▸ hj)
  have hbefore : Stays e.entered i.before :=
    hinputs.stays hentered.undisturbed fun j hj => hall j (List.mem_append_left _ hj)
  have hown := hall i (List.mem_append_right _ List.mem_cons_self)
  have hafter : Stays i.before e.executed.1 := by
    rw [hran.executed]
    exact (hown.stays (hbefore.undisturbed hentered.undisturbed)).trans (stays_finish hown.atOnce)
  exact ⟨e.executed.1, Prod.ext rfl hx.fault, hentered.stays (hbefore.trans hafter)⟩

/-- Between two blocks the thread goes on at the second one. -/
theorem Straight.next (hx : e.Straight) (hs : e.scene.StandsAt h)
    (hlive : e.graph.contains h = true) (hnext : e.graph.next? h = some n) :
    e.Executes h ∧ e.after.2.2 = .goesOn ∧ e.succ.scene.StandsAt n := by
  obtain ⟨hexec, s, hs', hstands⟩ := hx.executed hs hlive
  obtain ⟨f, hstack, hf⟩ := List.map_eq_singleton_iff.1 hs.blocks
  obtain ⟨f', hstack', rfl⟩ := List.map_eq_singleton_iff.1 hstands.blocks
  have hpast := movesPast_of_executed hstack hs' hstands.status
    (by rw [hf]; exact topBlock?_eq hstack')
  have hafter := hpast (by rw [hs', hstands.undisturbed.obey])
  simp only [hs', Scheduler.advance, hstack', hnext] at hafter
  refine ⟨hexec, by rw [hafter], ?_⟩
  rw [succ, hafter]
  exact ⟨rfl, hstands.status, hstands.undisturbed⟩

/-- At the end of the script the thread ends. -/
theorem Straight.last (hx : e.Straight) (hs : e.scene.StandsAt h)
    (hlive : e.graph.contains h = true) (hnext : e.graph.next? h = none) :
    e.Executes h ∧ e.after.2.2 = .ends ∧ e.succ.thread.status = .done ∧
      e.succ.thread.stack = [] := by
  obtain ⟨hexec, s, hs', hstands⟩ := hx.executed hs hlive
  obtain ⟨f, hstack, hf⟩ := List.map_eq_singleton_iff.1 hs.blocks
  obtain ⟨f', hstack', rfl⟩ := List.map_eq_singleton_iff.1 hstands.blocks
  have hpast := movesPast_of_executed hstack hs' hstands.status
    (by rw [hf]; exact topBlock?_eq hstack')
  have hafter := hpast (by rw [hs', hstands.undisturbed.obey])
  simp only [hs', Scheduler.advance, hstack', hnext, Scheduler.unwind] at hafter
  refine ⟨hexec, by rw [hafter], ?_⟩
  rw [succ, thread, hafter]
  exact ⟨rfl, rfl⟩

end Execution

/-! ### The result -/

/-- Live blocks, each with the one after it as its successor; the last one has none. -/
inductive Graph.Line (g : Graph) : List Handle → Prop
  | last {h : Handle} : g.contains h = true → g.next? h = none → Line g [h]
  | link {h n : Handle} {rest : List Handle} :
      g.contains h = true → g.next? h = some n → Line g (n :: rest) → Line g (h :: n :: rest)

namespace Execution

open Scene

variable {σ : Type} {e : Execution σ}

/-- Blocks that are executed straight, one after the other, and the last of them ends the thread. -/
structure Follows (e : Execution σ) (chain : List Handle) : Prop where
  executes : ∀ i h, chain[i]? = some h →
    (succ^[i] e).Executes h ∧ ((succ^[i] e).after.2.2 = .ends ↔ i + 1 = chain.length)
  status : (succ^[chain.length] e).thread.status = .done
  stack : (succ^[chain.length] e).thread.stack = []
  turn : ∀ fuel, chain.length ≤ fuel →
    executions e.ext e.graph fuel e.scheduler e.scene =
        (List.range chain.length).map (succ^[·] e) ∧
      takeTurn e.ext e.graph fuel e.scheduler e.scene =
        some ((succ^[chain.length] e).scheduler, (succ^[chain.length] e).scene)

theorem Follows.one {h : Handle} (hexec : e.Executes h) (hends : e.after.2.2 = .ends)
    (hst : e.succ.thread.status = .done) (hs : e.succ.thread.stack = []) : e.Follows [h] where
  executes i h' hi := by
    cases i with
    | zero =>
      obtain rfl := Option.some.inj hi
      exact ⟨hexec, fun _ => rfl, fun _ => hends⟩
    | succ i => cases hi
  status := hst
  stack := hs
  turn fuel hfuel := by
    obtain ⟨fuel, rfl⟩ : ∃ k, fuel = k + 1 := Nat.exists_eq_add_of_le' hfuel
    have hstep : e.scene.stepBlock e.ext e.graph e.scheduler = (e.after.1, e.after.2.1, .ends) :=
      Prod.ext rfl (Prod.ext rfl hends)
    have htop : e.scene.thread.topBlock? = some h := hexec.top
    rw [executions, takeTurn, hstep, htop]
    exact ⟨rfl, rfl⟩

theorem Follows.cons {h : Handle} {chain : List Handle} (hexec : e.Executes h)
    (hgoes : e.after.2.2 = .goesOn) (hne : chain ≠ []) (hrest : e.succ.Follows chain) :
    e.Follows (h :: chain) where
  executes i h' hi := by
    cases i with
    | zero =>
      obtain rfl := Option.some.inj hi
      have hlen : chain.length ≠ 0 := fun h => hne (List.length_eq_zero_iff.1 h)
      refine ⟨hexec, fun he => ?_, fun he => ?_⟩
      · rw [Function.iterate_zero_apply, hgoes] at he
        cases he
      · rw [List.length_cons] at he
        omega
    | succ i =>
      obtain ⟨hexec', hends⟩ := hrest.executes i h' hi
      refine ⟨hexec', hends.trans ?_⟩
      rw [List.length_cons]
      omega
  status := hrest.status
  stack := hrest.stack
  turn fuel hfuel := by
    obtain ⟨fuel, rfl⟩ : ∃ k, fuel = k + 1 :=
      Nat.exists_eq_add_of_le' ((Nat.succ_le_succ (Nat.zero_le _)).trans hfuel)
    obtain ⟨hlist, hturn⟩ := hrest.turn fuel (Nat.le_of_succ_le_succ hfuel)
    have hstep : e.scene.stepBlock e.ext e.graph e.scheduler =
        (e.succ.scheduler, e.succ.scene, .goesOn) :=
      Prod.ext rfl (Prod.ext rfl hgoes)
    have htop : e.scene.thread.topBlock? = some h := hexec.top
    rw [executions, takeTurn, hstep, htop]
    refine ⟨?_, hturn⟩
    rw [List.length_cons, List.range_succ_eq_map, List.map_cons, List.map_map]
    exact congrArg (e :: ·) hlist

/-- **A straight script takes one step per block**, whatever its blocks are, by induction on them:
each is executed in its turn, the thread does not end before the last one, and it has ended with
nothing left on its stack right after it. One turn executes them all. -/
theorem straight_of_chain {first : Handle} {rest : List Handle}
    (hchain : e.graph.Line (first :: rest)) (hs : e.scene.StandsAt first)
    (hstraight : ∀ i, i < (first :: rest).length → (succ^[i] e).Straight) :
    e.Follows (first :: rest) := by
  induction rest generalizing e first with
  | nil =>
    cases hchain with
    | last hlive hnext =>
      obtain ⟨hexec, hends, hst, hempty⟩ :=
        (hstraight 0 (Nat.zero_lt_succ _)).last hs hlive hnext
      exact .one hexec hends hst hempty
  | cons n rest ih =>
    cases hchain with
    | link hlive hnext hlinks =>
      obtain ⟨hexec, hgoes, hs'⟩ := (hstraight 0 (Nat.zero_lt_succ _)).next hs hlive hnext
      exact .cons hexec hgoes (List.cons_ne_nil _ _)
        (ih (e := e.succ) hlinks hs' fun i hi => hstraight (i + 1) (Nat.succ_lt_succ hi))

/-- A hat, a greeting, and a condition that does not hold around a block. -/
def greeting : Graph :=
  (Graph.empty.run
    [.create { Block.detached "flag" (.event .whenFlagClicked) with
        next := some ⟨1, 0⟩
        topLevel := true },
      .create { Block.detached "say" (.looks .say) with
        inputs := Table.empty.insert "MESSAGE" (.literal (.text "Hi"))
        next := some ⟨2, 0⟩
        parent := some ⟨0, 0⟩ },
      .create { Block.detached "if" (.control .ifThen) with
        inputs := (Table.empty.insert "CONDITION" (.literal (.flag false))).insert "SUBSTACK"
          (.branch ⟨3, 0⟩)
        parent := some ⟨1, 0⟩ },
      .create { Block.detached "hide" (.looks .hide) with parent := some ⟨2, 0⟩ }]).indexed

/-- A block without reporters is judged by its own primitive. -/
theorem straight_of_calls {op : Opcode} {args : Args}
    (hcalls : e.calls.map (fun i => (i.opcode, i.args)) = [(op, args)])
    (hi : ∀ i : Invocation σ, i.opcode = op → i.args = args → i.Straight e.ext)
    (hfault : e.executed.2 = none) : e.Straight := by
  obtain ⟨i, hlist, heq⟩ := List.map_eq_singleton_iff.1 hcalls
  obtain ⟨hop, hargs⟩ := Prod.mk.inj heq
  refine ⟨fun j hj => ?_, hfault⟩
  rw [hlist, List.mem_singleton] at hj
  exact hj ▸ hi i hop hargs

/-- Its thread has its turn. -/
def greeter : Execution Unit :=
  let t := Thread.start 1 0 ⟨0, 0⟩
  ⟨.empty, .create .standard, greeting,
    ⟨Pass.onStage ((World.blank .standard ()).addSprite "Cat" greeting).1 t, t⟩⟩

/-- Three steps, and the stack inside the condition is not entered. -/
theorem straight_of_chain_greeting :
    greeter.graph.Line [⟨0, 0⟩, ⟨1, 0⟩, ⟨2, 0⟩] ∧ greeter.scene.StandsAt ⟨0, 0⟩ ∧
      (∀ i, i < 3 → (succ^[i] greeter).Straight) ∧
      greeter.Follows [⟨0, 0⟩, ⟨1, 0⟩, ⟨2, 0⟩] := by
  have hchain : greeter.graph.Line [⟨0, 0⟩, ⟨1, 0⟩, ⟨2, 0⟩] :=
    .link (by decide +kernel) (by decide +kernel)
      (.link (by decide +kernel) (by decide +kernel)
        (.last (by decide +kernel) (by decide +kernel)))
  have hs : greeter.scene.StandsAt ⟨0, 0⟩ := by
    refine ⟨rfl, rfl, fun c hc => ?_⟩
    exact (Option.some.inj hc).symm
  have hflag : (succ^[0] greeter).calls.map (fun i => (i.opcode, i.args)) =
      [(.event .whenFlagClicked, ⟨[]⟩)] := by decide +kernel
  have hsay : (succ^[1] greeter).calls.map (fun i => (i.opcode, i.args)) =
      [(.looks .say, ⟨[("MESSAGE", .text "Hi")]⟩)] := by decide +kernel
  have hif : (succ^[2] greeter).calls.map (fun i => (i.opcode, i.args)) =
      [(.control .ifThen, ⟨[("CONDITION", .flag false)]⟩)] := by decide +kernel
  have hstraight : ∀ i, i < 3 → (succ^[i] greeter).Straight := by
    intro n hn
    have hcases : n = 0 ∨ n = 1 ∨ n = 2 := by omega
    rcases hcases with rfl | rfl | rfl
    · refine straight_of_calls hflag (fun i hop _ => ?_) (by decide +kernel)
      rw [Invocation.Straight, hop]
      trivial
    · refine straight_of_calls hsay (fun i hop _ => ?_) (by decide +kernel)
      rw [Invocation.Straight, hop]
      trivial
    · refine straight_of_calls hif (fun i hop hargs => ?_) (by decide +kernel)
      rw [Invocation.Straight, hop]
      intro hflag
      rw [hargs] at hflag
      exact absurd hflag (by decide)
  exact ⟨hchain, hs, hstraight, straight_of_chain hchain hs hstraight⟩

end Execution

end Stagecraft
