import Stagecraft.Primitive.Run
import Stagecraft.Proofs.Pace.Script

/-!
# What does not tell the time

The clock, the settings that pace a run and what the scheduler counts are read in few places. Taken
out of a scene, they leave its timeless part, and two scenes with the same timeless part are alike.
A primitive makes alike scenes alike again, unless it reads the time: a wait, the timer, and a call,
which yields when a warp frame is out of time.

* `Scene.Alike` : two scenes differ in nothing but time;
* `Scene.Alike.map`, `Scene.Alike.read` : what commutes with the timeless part keeps scenes alike,
  and what depends on it alone is the same in both;
* `Primitive.agree_run` : **a primitive that does not read the time agrees on alike scenes**.
-/

namespace Stagecraft

/-! ### Timeless parts -/

/-- Settings without those that pace a run. -/
def Settings.timeless (s : Settings) : Settings :=
  { s with
    framerate := 0
    workFraction := 0.0
    warpTimeMs := 0
    turboMode := false
    repeatUntilRedraw := false }

/-- The limits of a scheduler on stacks and reporters, which no reading of the clock changes. -/
def Scheduler.timeless (s : Scheduler) : Scheduler where
  workTime := 0
  warpTime := 0
  maxCallDepth := s.maxCallDepth
  maxReporterDepth := s.maxReporterDepth
  repeatUntilRedraw := false
  turboMode := false
  passStarted := none
  resumeAt := none
  stats := ⟨0, 0, 0, 0, false⟩

/-- The limits that settings put on stacks and reporters. -/
def Settings.limits (s : Settings) : Scheduler where
  workTime := 0
  warpTime := 0
  maxCallDepth := s.maxCallDepth
  maxReporterDepth := s.reporterDepth
  repeatUntilRedraw := false
  turboMode := false
  passStarted := none
  resumeAt := none
  stats := ⟨0, 0, 0, 0, false⟩

/-- A thread without the time at which it entered a warp frame. -/
def Thread.timeless (t : Thread) : Thread := { t with warpSince := none }

/-- A world without its clock and all that is set by it or paces a run. -/
def World.timeless {σ : Type} (w : World σ) : World σ :=
  { w with
    settings := w.settings.timeless
    clock := 0
    drift := fun _ => 0
    drifted := 0
    scheduler := w.scheduler.map Scheduler.timeless
    timer := .start 0
    cloud := .create 0 0
    redraw := false }

/-- The timeless part of a scene. -/
def Scene.timeless {σ : Type} (s : Scene σ) : Scene σ := ⟨s.world.timeless, s.thread.timeless⟩

/-! ### Threads and worlds -/

namespace Thread

variable (t : Thread)

theorem timeless_modifyTop (f : Frame → Frame) :
    (t.modifyTop f).timeless = t.timeless.modifyTop f := by
  obtain ⟨_, _, _, stack, _⟩ := t
  cases stack <;> rfl

theorem timeless_modifyFrame (i : Nat) (f : Frame → Frame) :
    (t.modifyFrame i f).timeless = t.timeless.modifyFrame i f :=
  apply_ite timeless _ _ _

theorem timeless_enterBranch (g : Graph) (n : Nat) (isLoop : Bool) :
    (t.enterBranch g n isLoop).timeless = t.timeless.enterBranch g n isLoop := by
  obtain ⟨_, _, _, stack, _⟩ := t
  cases stack with
  | nil => rfl
  | cons f rest =>
    simp only [enterBranch, topBlock?, timeless, modifyTop, List.head?_cons, Option.map_some]
    cases g.branch? f.block n with
    | some first => rfl
    | none => cases isLoop <;> rfl

end Thread

namespace World

variable {σ : Type} (w : World σ)

@[simp] theorem inPass_timeless : w.timeless.inPass = w.inPass := Option.isNone_map

theorem timeless_dropFinished : w.dropFinished.timeless = w.timeless.dropFinished := by
  unfold dropFinished
  rw [inPass_timeless]
  split <;> rfl

theorem timeless_stopActor (actor : ActorId) (keep : Option ThreadId) :
    (w.stopActor actor keep).timeless = w.timeless.stopActor actor keep :=
  timeless_dropFinished _

theorem timeless_lookupVariable (actor : ActorId) (id : Option String) (name : String)
    (kind : VariableKind) :
    w.timeless.lookupVariable actor id name kind =
      ((w.lookupVariable actor id name kind).1.timeless,
        (w.lookupVariable actor id name kind).2) := by
  have hlocate : w.timeless.locate? actor id name kind = w.locate? actor id name kind := rfl
  have hactor : w.timeless.actor? actor = w.actor? actor := rfl
  unfold lookupVariable
  rw [hlocate, hactor]
  cases w.locate? actor id name kind with
  | some found => rfl
  | none => cases w.actor? actor <;> rfl

end World

/-! ### Alike scenes -/

namespace Scene

variable {σ α : Type} {s s' : Scene σ}

/-- The scenes differ in nothing but time. -/
def Alike (s s' : Scene σ) : Prop := s.timeless = s'.timeless

/-- The results are alike scenes with the same answer. -/
structure Agree (r r' : Scene σ × α) : Prop where
  alike : Alike r.1 r'.1
  answer : r.2 = r'.2

namespace Alike

theorem symm (h : Alike s s') : Alike s' s := Eq.symm h

theorem world (h : Alike s s') : s.world.timeless = s'.world.timeless := congrArg Scene.world h

theorem thread (h : Alike s s') : s.thread.timeless = s'.thread.timeless :=
  congrArg Scene.thread h

theorem mk (hw : s.world.timeless = s'.world.timeless)
    (ht : s.thread.timeless = s'.thread.timeless) : Alike s s' := by
  rw [Alike, timeless, timeless, hw, ht]

/-- What depends on the timeless part alone is the same in alike scenes. -/
theorem read {F : Scene σ → α} (hF : ∀ s, F s.timeless = F s) (h : Alike s s') : F s = F s' := by
  rw [← hF s, ← hF s', h]

/-- What commutes with the timeless part keeps scenes alike. -/
theorem map {F : Scene σ → Scene σ} (hF : ∀ s, (F s).timeless = F s.timeless) (h : Alike s s') :
    Alike (F s) (F s') := by
  rw [Alike, hF s, hF s', h]

theorem progress? (h : Alike s s') (site : Site) : s.progress? site = s'.progress? site :=
  h.read (F := fun s => s.progress? site) fun _ => rfl

theorem topBlock? (h : Alike s s') : s.thread.topBlock? = s'.thread.topBlock? :=
  h.read (F := fun s => s.thread.topBlock?) fun _ => rfl

theorem stack (h : Alike s s') : s.thread.stack = s'.thread.stack :=
  h.read (F := fun s => s.thread.stack) fun _ => rfl

theorem status (h : Alike s s') : s.thread.status = s'.thread.status :=
  h.read (F := fun s => s.thread.status) fun _ => rfl

theorem modifyFrame (h : Alike s s') (i : Nat) (f : Frame → Frame) :
    Alike { s with thread := s.thread.modifyFrame i f }
      { s' with thread := s'.thread.modifyFrame i f } :=
  h.map (F := fun s => { s with thread := s.thread.modifyFrame i f }) fun s =>
    congrArg (Scene.mk s.world.timeless) (s.thread.timeless_modifyFrame i f)

theorem keep (h : Alike s s') (site : Site) (p : Progress) :
    Alike (s.keep site p) (s'.keep site p) := h.modifyFrame _ _

theorem yield (h : Alike s s') : Alike s.yield s'.yield := h.map fun _ => rfl

theorem startBranch (h : Alike s s') (site : Site) (n : Nat) (isLoop : Bool) :
    Alike (s.startBranch site n isLoop) (s'.startBranch site n isLoop) :=
  h.map (F := fun s => s.startBranch site n isLoop) fun s =>
    congrArg (Scene.mk s.world.timeless) (s.thread.timeless_enterBranch site.graph n isLoop)

theorem requestRedraw (h : Alike s s') : Alike s.requestRedraw s'.requestRedraw := h

theorem modifyActor (h : Alike s s') (f : Actor → Actor) :
    Alike (s.modifyActor f) (s'.modifyActor f) :=
  h.map (F := fun s => s.modifyActor f) fun _ => rfl

theorem agree (h : Alike s s') (a : α) : Agree (s, a) (s', a) := ⟨h, rfl⟩

end Alike

end Scene

/-! ### Primitives -/

namespace Primitive

open Scene

variable {σ : Type} {s s' : Scene σ} (site : Site) (args : Args)

theorem alike_loopIf (h : Alike s s') (condition : Bool) :
    Alike (loopIf condition site s) (loopIf condition site s') := by
  unfold loopIf
  split
  · exact h.startBranch site 1 true
  · exact h

theorem alike_repeatTimes (h : Alike s s') :
    Alike (repeatTimes site args s) (repeatTimes site args s') := by
  unfold repeatTimes
  rw [h.progress? site]
  split
  · exact h
  · exact alike_loopIf site (h.keep site _) _

theorem alike_allAtOnce (h : Alike s s') : Alike (allAtOnce site s) (allAtOnce site s') := by
  have hbranch := h.startBranch site 1 false
  unfold allAtOnce
  simp only
  rw [hbranch.topBlock?]
  split
  · exact hbranch
  · exact hbranch.map (F := fun s =>
      { s with thread := s.thread.modifyTop fun f => { f with warp := true } }) fun s =>
        congrArg (Scene.mk s.world.timeless) (s.thread.timeless_modifyTop _)

/-- Stopping everything is the one option that is left out. -/
theorem alike_stop (h : Alike s s') (hoption : (site.field? "STOP_OPTION").getD "all" ≠ "all") :
    Alike (stop site s) (stop site s') := by
  have hothers : Alike { s with world := s.world.stopActor s.thread.actor (some s.thread.id) }
      { s' with world := s'.world.stopActor s'.thread.actor (some s'.thread.id) } :=
    h.map (F := fun s => { s with world := s.world.stopActor s.thread.actor (some s.thread.id) })
      fun s => congrArg (fun w => Scene.mk w s.thread.timeless) (s.world.timeless_stopActor _ _)
  unfold stop
  split
  · rename_i hall
    exact absurd hall hoption
  · exact h.map (F := fun s => { s with thread := s.thread.stopScript site.graph }) fun _ => rfl
  · exact hothers
  · exact hothers
  · exact h

theorem agree_lookup (h : Alike s s') (field : String) (kind : VariableKind) :
    Agree (lookup site s field kind) (lookup site s' field kind) := by
  have hlookup : ∀ s : Scene σ, lookup site s.timeless field kind =
      ((lookup site s field kind).1.timeless, (lookup site s field kind).2) := by
    intro s
    simp only [lookup, Scene.timeless, World.timeless_lookupVariable]
    rfl
  exact ⟨h.map (F := fun s => (lookup site s field kind).1) fun s =>
      (congrArg Prod.fst (hlookup s)).symm,
    h.read (F := fun s => (lookup site s field kind).2) fun s =>
      (congrArg Prod.snd (hlookup s) :)⟩

theorem agree_readVariable (h : Alike s s') :
    Agree (readVariable site s) (readVariable site s') := by
  obtain ⟨halike, hfound⟩ := agree_lookup site h "VARIABLE" .scalar
  unfold readVariable
  simp only
  rw [hfound, halike.read (F := fun s => s.world.variableAt?) fun _ => rfl]
  split <;> exact halike.agree _

theorem alike_writeVariable (h : Alike s s') (update : Value → Value) :
    Alike (writeVariable site s update) (writeVariable site s' update) := by
  obtain ⟨halike, hfound⟩ := agree_lookup site h "VARIABLE" .scalar
  unfold writeVariable
  simp only
  rw [hfound, halike.read (F := fun s => s.world.variableAt?) fun _ => rfl]
  split
  · exact halike
  · split
    · exact halike
    · rename_i place _ _ v _
      -- requests to the provider of shared variables are left out of the timeless part
      have hwrite := halike.map (F := fun s =>
        { s with world := s.world.modifyVariable place (·.set (update v.get)) }) fun _ => rfl
      split <;> exact hwrite

theorem agree_readList (h : Alike s s') : Agree (readList site s) (readList site s') := by
  obtain ⟨halike, hfound⟩ := agree_lookup site h "LIST" .list
  unfold readList
  simp only
  rw [hfound, halike.read (F := fun s => s.world.variableAt?) fun _ => rfl]
  exact halike.agree _

theorem alike_editList (h : Alike s s') (f : List Value → List Value) :
    Alike (editList site s f) (editList site s' f) := by
  obtain ⟨halike, hfound⟩ := agree_lookup site h "LIST" .list
  unfold editList
  simp only
  rw [hfound]
  split
  · rename_i place _
    exact halike.map (F := fun s =>
      { s with world := s.world.modifyVariable place (·.modifyItems f) }) fun _ => rfl
  · exact halike

theorem agree_draw (h : Alike s s') : Agree (draw s) (draw s') := by
  have hnumber : (draw s).2 = (draw s').2 := h.read (F := fun s => (draw s).2) fun _ => rfl
  exact ⟨h.map (F := fun s => (draw s).1) fun _ => rfl, hnumber⟩

theorem agree_data (h : Alike s s') (op : DataOp) :
    Agree (data op site args s) (data op site args s') := by
  obtain ⟨hdrawn, hdraw⟩ := agree_draw h
  unfold data
  cases op with
  | setVariable | changeVariable => exact (alike_writeVariable site h _).agree _
  | addToList | deleteAllOfList => exact (alike_editList site h _).agree _
  | deleteOfList | insertAtList | replaceItemOfList =>
    simp only
    rw [hdraw]
    exact (alike_editList site hdrawn _).agree _
  | itemOfList =>
    obtain ⟨halike, hitems⟩ := agree_readList site hdrawn
    simp only
    rw [hdraw, hitems]
    exact halike.agree _
  | listContents | lengthOfList | listContainsItem =>
    obtain ⟨halike, hitems⟩ := agree_readList site h
    simp only
    rw [hitems]
    exact halike.agree _
  | _ =>
    obtain ⟨halike, hvalue⟩ := agree_readVariable site h
    exact ⟨halike, congrArg Outcome.value hvalue⟩

theorem performer?_eq (h : Alike s s') : performer? s = performer? s' := h.read fun _ => rfl

theorem alike_moveTo (h : Alike s s') (path : Float → Float → Float × Float) :
    Alike (moveTo s path) (moveTo s' path) := by
  unfold moveTo
  rw [performer?_eq h]
  split
  · exact h
  · simp only
    split
    · exact (h.modifyActor _).requestRedraw
    · exact h.modifyActor _

theorem alike_restyle (h : Alike s s') (f : Actor → Actor) :
    Alike (restyle s f) (restyle s' f) := by
  unfold restyle
  rw [performer?_eq h]
  split
  · exact h
  · exact (h.modifyActor f).requestRedraw

theorem agree_control (h : Alike s s') {b : Block} {op : ControlOp} (hb : site.block? = some b)
    (hop : b.opcode = .control op) (hplain : b.isPlain = true) :
    Agree (control op site args s) (control op site args s') := by
  rw [Block.isPlain, hop] at hplain
  cases op with
  | forever => exact (h.startBranch site 1 true).agree _
  | repeatTimes => exact (alike_repeatTimes site args h).agree _
  | repeatUntil | whileTrue => exact (alike_loopIf site h _).agree _
  | ifThen =>
    refine Alike.agree ?_ _
    split
    · exact h.startBranch site 1 false
    · exact h
  | ifElse => exact (h.startBranch site _ false).agree _
  | waitUntil =>
    refine Alike.agree ?_ _
    split
    · exact h
    · exact h.yield
  | stop =>
    refine (alike_stop site h ?_).agree _
    rw [Site.field?, hb]
    simpa using hplain
  | allAtOnce => exact (alike_allAtOnce site h).agree _
  | createCloneOfMenu | startAsClone => exact h.agree _
  | wait | createCloneOf | deleteThisClone => cases hplain

theorem agree_event (h : Alike s s') {b : Block} {op : EventOp} (hop : b.opcode = .event op)
    (hplain : b.isPlain = true) : Agree (event op site args s) (event op site args s') := by
  rw [Block.isPlain, hop] at hplain
  cases op with
  | broadcast | broadcastAndWait => cases hplain
  | _ => exact h.agree _

theorem agree_operator (h : Alike s s') (op : OperatorOp) :
    Agree (operator op site args s) (operator op site args s') := by
  cases op with
  | random =>
    obtain ⟨halike, hdraw⟩ := agree_draw h
    unfold operator
    simp only
    rw [hdraw]
    exact halike.agree _
  | _ => exact h.agree _

theorem agree_procedure (h : Alike s s') {op : ProcedureOp} (hop : op ≠ .call) :
    Agree (procedure op site args s) (procedure op site args s') := by
  have hargument : argument? site s = argument? site s' :=
    h.read (F := fun s => argument? site s) fun _ => rfl
  cases op with
  | call => exact absurd rfl hop
  | argumentText | argumentFlag =>
    unfold procedure
    simp only
    rw [hargument]
    exact h.agree _
  | _ => exact h.agree _

theorem agree_motion (h : Alike s s') (op : MotionOp) :
    Agree (motion op args s) (motion op args s') := by
  cases op with
  | xPosition | yPosition =>
    unfold motion coordinate
    simp only
    rw [performer?_eq h]
    exact h.agree _
  | _ => exact (alike_moveTo h _).agree _

theorem agree_looks (h : Alike s s') (op : LooksOp) :
    Agree (looks op args s) (looks op args s') := by
  cases op <;> exact (alike_restyle h _).agree _

theorem agree_sensing (h : Alike s s') {b : Block} {op : SensingOp}
    (hop : b.opcode = .sensing op) (hplain : b.isPlain = true) :
    Agree (sensing op site args s) (sensing op site args s') := by
  rw [Block.isPlain, hop] at hplain
  cases op with
  | timer | askAndWait => cases hplain
  | resetTimer => exact ⟨h, rfl⟩
  | keyPressed | keyOptions | mouseX | mouseY | mouseDown | username | answer =>
    exact ⟨h, h.read (F := fun s => (sensing _ site args s).2) fun _ => rfl⟩

/-- **Plain blocks other than calls do not tell the time**, nor which limits of time there are. -/
theorem agree_run (h : Alike s s') {b : Block} (hb : site.block? = some b)
    (hplain : b.isPlain = true) (hcall : b.opcode ≠ .procedure .call) (k : Scheduler) :
    Agree (run .empty b.opcode site args s)
      (run .empty b.opcode { site with scheduler := k } args s') := by
  have hsite : ∀ op : Opcode, op ≠ .procedure .call →
      run .empty op { site with scheduler := k } args s' = run .empty op site args s' := by
    intro op hop
    cases op with
    | control op => cases op <;> rfl
    | event op => cases op <;> rfl
    | data op => cases op <;> rfl
    | operator op => cases op <;> rfl
    | procedure op =>
      cases op with
      | call => exact absurd rfl hop
      | _ => rfl
    | sensing op => cases op <;> rfl
    | _ => rfl
  rw [hsite _ hcall]
  cases hop : b.opcode with
  | control op => exact agree_control site args h hb hop hplain
  | event op => exact agree_event site args h hop hplain
  | data op => exact agree_data site args h op
  | operator op => exact agree_operator site args h op
  | procedure op => exact agree_procedure site args h fun he => hcall (he ▸ hop)
  | motion op => exact agree_motion args h op
  | looks op => exact agree_looks args h op
  | sensing op => exact agree_sensing site args h hop hplain
  | custom name => exact h.agree _

end Primitive

end Stagecraft
