import Stagecraft.Proofs.Flag.Past
import Stagecraft.Proofs.Pace.Timeless

/-!
# Turns behind a past

No primitive looks at the number of a result, and a thread only hands the number of its own result
to the world. So threads take the same turns behind a past: they execute the same blocks, with the
same outcomes, and what becomes of the world is what becomes of it without a past, put behind it.

* `Extensions.Portable` : the host's primitives do not look at the numbers of results either;
* `Primitive.upon_run` : **primitives do the same behind a past**;
* `Scene.upon_stepBlock`, `Pass.upon_visitAt` : so do blocks and turns;
* `World.upon_step` : **and a step**, which also forgets where a pass was cut short.
-/

namespace Stagecraft

/-- A scene behind a past. -/
def Scene.upon {σ : Type} (p : Past σ) (s : Scene σ) : Scene σ :=
  ⟨s.world.upon p, s.thread.upon p.next⟩

/-- A result that comes later has its number behind a past. -/
def Outcome.upon (n : Nat) : Outcome → Outcome
  | .deferred channel => .deferred (n + channel)
  | .done => .done
  | .value v => .value v
  | .failed fault => .failed fault

/-- So it has in what an extension answers. -/
def Response.upon (n : Nat) : Response → Response
  | .outcome o => .outcome (o.upon n)
  | .crashed message => .crashed message

/-- The host's primitives do the same behind a past. -/
def Extensions.Portable {σ : Type} (p : Past σ) (ext : Extensions σ) : Prop :=
  ∀ (name : String) (handler : Extension σ), ext.get? name = some handler →
    ∀ (site : Site) (args : Args) (s : Scene σ),
      handler site args (s.upon p) =
        ((handler site args s).1.upon p, (handler site args s).2.upon p.next)

theorem portable_empty {σ : Type} (p : Past σ) :
    Extensions.Portable p (Table.empty : Extensions σ) := by
  intro name handler hget
  cases hget

/-! ### What primitives are made of -/

namespace World

variable {σ : Type} (p : Past σ) (w : World σ)

theorem upon_lookupVariable (actor : ActorId) (id : Option String) (name : String)
    (kind : VariableKind) : (w.upon p).lookupVariable actor id name kind =
      ((w.lookupVariable actor id name kind).1.upon p,
        (w.lookupVariable actor id name kind).2) := by
  have hlocate : (w.upon p).locate? actor id name kind = w.locate? actor id name kind := rfl
  have hactor : (w.upon p).actor? actor = w.actor? actor := rfl
  unfold lookupVariable
  rw [hlocate, hactor]
  cases w.locate? actor id name kind with
  | some found => rfl
  | none => cases w.actor? actor <;> rfl

end World

namespace Scene

variable {σ : Type} (p : Past σ) (s : Scene σ) (site : Site)

theorem upon_modifyFrame (i : Nat) (f : Frame → Frame) :
    ({ s.upon p with thread := (s.upon p).thread.modifyFrame i f } : Scene σ) =
      ({ s with thread := s.thread.modifyFrame i f } : Scene σ).upon p :=
  congrArg (Scene.mk (s.world.upon p)) (Thread.upon_modifyFrame p.next s.thread i f)

theorem upon_keep (progress : Progress) :
    (s.upon p).keep site progress = (s.keep site progress).upon p := upon_modifyFrame p s _ _

theorem upon_startBranch (n : Nat) (isLoop : Bool) :
    (s.upon p).startBranch site n isLoop = (s.startBranch site n isLoop).upon p :=
  congrArg (Scene.mk (s.world.upon p))
    (Thread.upon_enterBranch p.next s.thread site.graph n isLoop)

theorem upon_startProcedure (code : String) (supplied : Table String Value) :
    (s.upon p).startProcedure site code supplied =
      ((s.startProcedure site code supplied).1.upon p,
        (s.startProcedure site code supplied).2) := by
  have henter := site.scheduler.upon_enterProcedure s.world.now site.graph p.next s.thread code
    supplied
  unfold startProcedure
  rw [show (s.upon p).thread = s.thread.upon p.next from rfl,
    show (s.upon p).world.now = s.world.now from rfl, henter]
  rcases site.scheduler.enterProcedure s.world.now site.graph s.thread code supplied with
    ⟨t, outcome⟩
  cases outcome <;> rfl

end Scene

/-! ### Primitives -/

namespace Primitive

open Scene

variable {σ : Type} (p : Past σ) (site : Site) (args : Args) (s : Scene σ)

theorem upon_loopIf (condition : Bool) :
    loopIf condition site (s.upon p) = (loopIf condition site s).upon p := by
  unfold loopIf
  split
  · exact upon_startBranch p s site 1 true
  · rfl

theorem upon_repeatTimes :
    repeatTimes site args (s.upon p) = (repeatTimes site args s).upon p := by
  have hprogress : (s.upon p).progress? site = s.progress? site := rfl
  unfold repeatTimes
  rw [hprogress]
  cases s.progress? site with
  | none => rfl
  | some progress =>
    simp only
    rw [upon_keep, upon_loopIf]

theorem upon_wait : wait site args (s.upon p) = (wait site args s).upon p := by
  have hprogress : (s.upon p).progress? site = s.progress? site := rfl
  have hnow : (s.upon p).world.now = s.world.now := rfl
  unfold wait
  rw [hprogress, hnow]
  cases s.progress? site with
  | none => rfl
  | some progress =>
    cases progress with
    | timing started duration =>
      simp only
      split <;> rfl
    | fresh | counting | awaiting | called =>
      simp only
      rw [upon_keep]
      rfl

theorem upon_stop : stop site (s.upon p) = (stop site s).upon p := by
  have hall := World.upon_stopAll p s.world
  have hothers := World.upon_stopActor p s.world s.thread.actor (some s.thread.id)
  unfold stop
  split
  · exact congrArg (fun w => Scene.mk w (s.thread.upon p.next).retire) hall
  · rfl
  · exact congrArg (fun w => Scene.mk w (s.thread.upon p.next)) hothers
  · exact congrArg (fun w => Scene.mk w (s.thread.upon p.next)) hothers
  · rfl

theorem upon_createCloneOf : createCloneOf args (s.upon p) = (createCloneOf args s).upon p := by
  have hsource : (s.upon p).world.actorByName? (args.text "CLONE_OPTION") =
      s.world.actorByName? (args.text "CLONE_OPTION") := rfl
  have hactor : (s.upon p).thread.actor = s.thread.actor := rfl
  unfold createCloneOf
  simp only
  rw [hsource, hactor]
  split
  · rename_i id _
    exact congrArg (fun r => Scene.mk r.1 (s.thread.upon p.next))
      (World.upon_createClone p s.world id)
  · rfl

theorem upon_deleteThisClone : deleteThisClone (s.upon p) = (deleteThisClone s).upon p := by
  have hactor : (s.upon p).actor? = s.actor? := rfl
  unfold deleteThisClone
  rw [hactor]
  cases s.actor? with
  | none => rfl
  | some a =>
    simp only
    split
    · exact congrArg (fun r => Scene.mk r.1 (s.thread.upon p.next).retire)
        (World.upon_deleteClone p s.world s.thread.actor)
    · rfl

theorem upon_allAtOnce : allAtOnce site (s.upon p) = (allAtOnce site s).upon p := by
  have htop : ((s.startBranch site 1 false).upon p).thread.topBlock? =
      (s.startBranch site 1 false).thread.topBlock? := rfl
  unfold allAtOnce
  simp only
  rw [upon_startBranch, htop]
  split
  · rfl
  · exact congrArg (Scene.mk (s.world.upon p)) (Thread.upon_modifyTop p.next _ _)

theorem upon_control (op : ControlOp) : control op site args (s.upon p) =
    ((control op site args s).1.upon p, (control op site args s).2.upon p.next) := by
  cases op with
  | forever => exact congrArg (·, Outcome.done) (upon_startBranch p s site 1 true)
  | repeatTimes => exact congrArg (·, Outcome.done) (upon_repeatTimes p site args s)
  | repeatUntil | whileTrue => exact congrArg (·, Outcome.done) (upon_loopIf p site s _)
  | ifThen =>
    cases hflag : args.flag "CONDITION" with
    | true =>
      simp only [control, hflag, if_true, upon_startBranch]
      rfl
    | false =>
      simp only [control, hflag]
      rfl
  | ifElse => exact congrArg (·, Outcome.done) (upon_startBranch p s site _ false)
  | wait => exact congrArg (·, Outcome.done) (upon_wait p site args s)
  | waitUntil =>
    cases hflag : args.flag "CONDITION" with
    | true | false =>
      simp only [control, hflag]
      rfl
  | stop => exact congrArg (·, Outcome.done) (upon_stop p site s)
  | createCloneOf => exact congrArg (·, Outcome.done) (upon_createCloneOf p args s)
  | deleteThisClone => exact congrArg (·, Outcome.done) (upon_deleteThisClone p s)
  | allAtOnce => exact congrArg (·, Outcome.done) (upon_allAtOnce p site s)
  | createCloneOfMenu | startAsClone => rfl

theorem upon_awaitThreads (threads : List ThreadId) :
    awaitThreads threads (s.upon p) = (awaitThreads threads s).upon p := by
  have hactive : (s.upon p).world.isActive = s.world.isActive :=
    funext fun id => World.upon_isActive p s.world id
  unfold awaitThreads
  rw [hactive]
  split <;> rfl

theorem upon_broadcast (message : String) : (s.world.upon p).broadcast message =
    ((s.world.broadcast message).1.upon p, (s.world.broadcast message).2) :=
  World.upon_raise p s.world _

theorem upon_broadcastAndWait :
    broadcastAndWait site args (s.upon p) = (broadcastAndWait site args s).upon p := by
  have hprogress : (s.upon p).progress? site = s.progress? site := rfl
  have hworld : (s.upon p).world = s.world.upon p := rfl
  have hkeep := fun started => upon_keep p
    ({ s with world := (s.world.broadcast (args.text "BROADCAST_INPUT")).1 } : Scene σ) site
    (.awaiting started)
  unfold broadcastAndWait
  rw [hprogress]
  split
  · exact upon_awaitThreads p s _
  · simp only [hworld, upon_broadcast]
    rw [← upon_awaitThreads, ← hkeep]
    rfl

theorem upon_event (op : EventOp) : event op site args (s.upon p) =
    ((event op site args s).1.upon p, (event op site args s).2.upon p.next) := by
  cases op with
  | broadcast =>
    exact congrArg (fun r => (Scene.mk r.1 (s.thread.upon p.next), Outcome.done))
      (upon_broadcast p s (args.text "BROADCAST_INPUT"))
  | broadcastAndWait => exact congrArg (·, Outcome.done) (upon_broadcastAndWait p site args s)
  | whenFlagClicked | whenBroadcastReceived | whenKeyPressed | whenThisSpriteClicked
  | broadcastMenu => rfl

/-! ### Variables and the rest -/

theorem upon_lookup (field : String) (kind : VariableKind) : lookup site (s.upon p) field kind =
    ((lookup site s field kind).1.upon p, (lookup site s field kind).2) := by
  have hworld : (s.upon p).world = s.world.upon p := rfl
  have hactor : (s.upon p).thread.actor = s.thread.actor := rfl
  unfold lookup
  simp only [hworld, hactor, World.upon_lookupVariable]
  rfl

theorem upon_readVariable : readVariable site (s.upon p) =
    ((readVariable site s).1.upon p, (readVariable site s).2) := by
  have hvariable : ∀ (s : Scene σ) (place : ActorId × String),
      (s.upon p).world.variableAt? place = s.world.variableAt? place := fun _ _ => rfl
  unfold readVariable
  rw [upon_lookup]
  obtain ⟨s', found⟩ := lookup site s "VARIABLE" .scalar
  cases found with
  | none => rfl
  | some place =>
    simp only [Option.bind_some, hvariable]
    cases s'.world.variableAt? place <;> rfl

theorem upon_writeVariable (update : Value → Value) :
    writeVariable site (s.upon p) update = (writeVariable site s update).upon p := by
  have hvariable : ∀ s : Scene σ, (s.upon p).world.variableAt? = s.world.variableAt? :=
    fun _ => rfl
  unfold writeVariable
  simp only [upon_lookup, hvariable]
  split
  · rfl
  · split
    · rfl
    · rename_i v _
      cases v.cloud <;> rfl

theorem upon_readList : readList site (s.upon p) =
    ((readList site s).1.upon p, (readList site s).2) := by
  unfold readList
  simp only [upon_lookup]
  rfl

theorem upon_editList (f : List Value → List Value) :
    editList site (s.upon p) f = (editList site s f).upon p := by
  unfold editList
  simp only [upon_lookup]
  split <;> rfl

theorem upon_draw : draw (s.upon p) = ((draw s).1.upon p, (draw s).2) := rfl

theorem upon_data (op : DataOp) : data op site args (s.upon p) =
    ((data op site args s).1.upon p, (data op site args s).2.upon p.next) := by
  unfold data
  cases op with
  | setVariable | changeVariable =>
    exact congrArg (·, Outcome.done) (upon_writeVariable p site s _)
  | addToList | deleteAllOfList => exact congrArg (·, Outcome.done) (upon_editList p site s _)
  | deleteOfList | insertAtList | replaceItemOfList =>
    simp only [upon_draw, upon_editList]
    rfl
  | itemOfList =>
    simp only [upon_draw, upon_readList]
    rfl
  | listContents | lengthOfList | listContainsItem =>
    simp only [upon_readList]
    rfl
  | «variable» =>
    simp only [upon_readVariable]
    rfl

theorem upon_operator (op : OperatorOp) : operator op site args (s.upon p) =
    ((operator op site args s).1.upon p, (operator op site args s).2.upon p.next) := by
  unfold operator
  cases op with
  | random =>
    simp only [upon_draw]
    rfl
  | _ => rfl

theorem upon_call : call site args (s.upon p) = (call site args s).upon p := by
  have hprogress : (s.upon p).progress? site = s.progress? site := rfl
  unfold call
  rw [hprogress]
  split
  · rfl
  · cases site.block?.bind (·.signature) with
    | none => rfl
    | some signature =>
      simp only
      rw [upon_keep, upon_startProcedure]

theorem upon_procedure (op : ProcedureOp) : procedure op site args (s.upon p) =
    ((procedure op site args s).1.upon p, (procedure op site args s).2.upon p.next) := by
  cases op with
  | call => exact congrArg (·, Outcome.done) (upon_call p site args s)
  | definition | prototype | argumentText | argumentFlag => rfl

theorem upon_moveTo (path : Float → Float → Float × Float) :
    moveTo (s.upon p) path = (moveTo s path).upon p := by
  have hperformer : performer? (s.upon p) = performer? s := rfl
  unfold moveTo
  rw [hperformer]
  split
  · rfl
  · simp only
    split <;> rfl

theorem upon_restyle (f : Actor → Actor) : restyle (s.upon p) f = (restyle s f).upon p := by
  have hperformer : performer? (s.upon p) = performer? s := rfl
  unfold restyle
  rw [hperformer]
  split <;> rfl

theorem upon_motion (op : MotionOp) : motion op args (s.upon p) =
    ((motion op args s).1.upon p, (motion op args s).2.upon p.next) := by
  unfold motion
  cases op with
  | xPosition | yPosition => rfl
  | goToXY | changeXBy | changeYBy | setX | setY =>
    exact congrArg (·, Outcome.done) (upon_moveTo p s _)

theorem upon_looks (op : LooksOp) : looks op args (s.upon p) =
    ((looks op args s).1.upon p, (looks op args s).2.upon p.next) := by
  unfold looks
  cases op <;> exact congrArg (·, Outcome.done) (upon_restyle p s _)

theorem upon_sensing (op : SensingOp) : sensing op site args (s.upon p) =
    ((sensing op site args s).1.upon p, (sensing op site args s).2.upon p.next) := by
  cases op with
  | askAndWait =>
    exact congrArg (fun r => (Scene.mk r.1 (s.thread.upon p.next), Outcome.deferred r.2))
      (World.upon_ask p s.world (args.text "QUESTION"))
  | timer | resetTimer | keyPressed | keyOptions | mouseX | mouseY | mouseDown | username
  | answer => rfl

theorem upon_extended {ext : Extensions σ} (hext : ext.Portable p) (name : String) :
    extended ext name site args (s.upon p) =
      ((extended ext name site args s).1.upon p,
        (extended ext name site args s).2.upon p.next) := by
  unfold extended
  cases hget : ext.get? name with
  | none => rfl
  | some handler =>
    simp only [hext name handler hget site args s]
    rcases handler site args s with ⟨s', response⟩
    cases response <;> rfl

/-- **Primitives do the same behind a past.** -/
theorem upon_run {ext : Extensions σ} (hext : ext.Portable p) (op : Opcode) :
    run ext op site args (s.upon p) =
      ((run ext op site args s).1.upon p, (run ext op site args s).2.upon p.next) := by
  cases op with
  | control op => exact upon_control p site args s op
  | event op => exact upon_event p site args s op
  | data op => exact upon_data p site args s op
  | operator op => exact upon_operator p site args s op
  | procedure op => exact upon_procedure p site args s op
  | motion op => exact upon_motion p args s op
  | looks op => exact upon_looks p args s op
  | sensing op => exact upon_sensing p site args s op
  | custom name => exact upon_extended p site args s hext name

end Primitive

/-! ### Blocks -/

namespace Scene

variable {σ : Type} (p : Past σ) {ext : Extensions σ} (site : Site)

theorem upon_gather {report : Handle → Scene σ → Scene σ × Evaluation Value}
    (hreport : ∀ h (s : Scene σ), report h (s.upon p) = ((report h s).1.upon p, (report h s).2))
    (inputs : List (String × Input)) : ∀ (done : List (String × Value)) (s : Scene σ),
      gather report inputs done (s.upon p) =
        ((gather report inputs done s).1.upon p, (gather report inputs done s).2) := by
  induction inputs with
  | nil => exact fun _ _ => rfl
  | cons e rest ih =>
    intro done s
    obtain ⟨name, input⟩ := e
    cases input with
    | literal v => exact ih _ s
    | branch h => exact ih _ s
    | reporter h =>
      rw [gather, gather, hreport]
      rcases report h s with ⟨s', e⟩
      cases e with
      | value v => exact ih _ s'
      | parked | failed => rfl

theorem upon_settle (hext : ext.Portable p) (h : Handle) (op : Opcode) (s : Scene σ)
    (e : Evaluation Args) : settle ext site h op (s.upon p, e) =
      ((settle ext site h op (s, e)).1.upon p, (settle ext site h op (s, e)).2) := by
  cases e with
  | parked | failed => rfl
  | value args =>
    rw [settle, settle, Primitive.upon_run p _ args s hext op]
    rcases Primitive.run ext op { site with block := h } args s with ⟨s', o⟩
    cases o with
    | value v => exact congrArg (·, Evaluation.value v) (upon_modifyFrame p s' _ _)
    | done | deferred | failed => rfl

theorem upon_report (hext : ext.Portable p) (room : Nat) : ∀ (h : Handle) (s : Scene σ),
    report ext site room h (s.upon p) =
      ((report ext site room h s).1.upon p, (report ext site room h s).2) := by
  have hremembered : ∀ h (s : Scene σ), (s.upon p).remembered? site.frame h =
      s.remembered? site.frame h := fun _ _ => rfl
  induction room with
  | zero =>
    intro h s
    rw [report, report, hremembered]
    cases s.remembered? site.frame h with
    | some v => rfl
    | none =>
      cases site.graph.get? h with
      | none => rfl
      | some b =>
        simp only
        split <;> rfl
  | succ room ih =>
    intro h s
    rw [report, report, hremembered]
    cases s.remembered? site.frame h with
    | some v => rfl
    | none =>
      cases site.graph.get? h with
      | none => rfl
      | some b =>
        simp only
        split
        · rfl
        · rw [upon_gather p ih]
          exact upon_settle p site hext h b.opcode _ _

theorem upon_finish (s : Scene σ) (o : Outcome) : finish site (s.upon p, o.upon p.next) =
    ((finish site (s, o)).1.upon p, (finish site (s, o)).2) := by
  have hforget : (s.upon p).forget site.frame = (s.forget site.frame).upon p :=
    upon_modifyFrame p s _ _
  cases o with
  | deferred channel => rfl
  | done => exact congrArg (·, none) hforget
  | failed fault => exact congrArg (·, some fault) hforget
  | value v =>
    have htop : ((s.forget site.frame).upon p).thread.top = (s.forget site.frame).thread.top := rfl
    rw [Outcome.upon, finish, finish]
    simp only [hforget, htop]
    split <;> rfl

/-- **A block is executed the same behind a past.** -/
theorem upon_execute (hext : ext.Portable p) (k : Scheduler) (g : Graph) (s : Scene σ) :
    (s.upon p).execute ext k g = ((s.execute ext k g).1.upon p, (s.execute ext k g).2) := by
  have htop : (s.upon p).thread.topBlock? = s.thread.topBlock? := rfl
  have hdepth : (s.upon p).thread.depth = s.thread.depth := rfl
  unfold execute
  rw [htop, hdepth]
  cases s.thread.topBlock? with
  | none => rfl
  | some h =>
    simp only
    cases g.get? h with
    | none => rfl
    | some b =>
      simp only
      rw [upon_gather p (upon_report p _ hext k.maxReporterDepth)]
      rcases gather (report ext ⟨k, g, h, s.thread.depth - 1⟩ k.maxReporterDepth) b.inputs.entries
        [] s with ⟨s', e⟩
      cases e with
      | value args =>
        simp only
        rw [Primitive.upon_run p _ args s' hext b.opcode]
        exact upon_finish p _ _ _
      | parked | failed => rfl

theorem upon_obey (s : Scene σ) : (s.upon p).obey = (s.obey.1.upon p, s.obey.2) := by
  have hcurrent : (s.upon p).world.current = s.world.current := rfl
  unfold obey
  rw [hcurrent]
  cases s.world.current with
  | none => rfl
  | some c =>
    simp only
    split
    · rfl
    · split <;> rfl

theorem upon_proceed (k : Scheduler) (g : Graph) (top : Handle) (warp : Bool) (s : Scene σ) :
    (s.upon p).proceed k g top warp =
      ((s.proceed k g top warp).1.upon p, (s.proceed k g top warp).2) := by
  have hstatus : (s.upon p).thread.status = s.thread.status := rfl
  have hstack : (s.upon p).thread.stack = s.thread.stack := rfl
  have htop : (s.upon p).thread.topBlock? = s.thread.topBlock? := rfl
  unfold proceed
  rw [hstatus, hstack, htop]
  cases s.thread.status with
  | yielded | yieldedTick | parked | done => rfl
  | running =>
    simp only
    split
    · rfl
    · split
      · have hadvance := k.upon_advance s.world.now g p.next s.thread
        exact congrArg (fun r => (Scene.mk (s.world.upon p) r.1, r.2)) hadvance
      · rfl

theorem upon_startWarp (now : Span) (t : Thread) (n : Nat) :
    startWarp now (t.upon n) = (startWarp now t).upon n := by
  have hwarp : Scheduler.inWarp (t.upon n) = Scheduler.inWarp t := rfl
  have hsince : (t.upon n).warpSince = t.warpSince := rfl
  unfold startWarp
  rw [hwarp, hsince]
  split <;> rfl

theorem upon_stepBlock (hext : ext.Portable p) (g : Graph) (k : Scheduler) (s : Scene σ) :
    (s.upon p).stepBlock ext g k =
      ((s.stepBlock ext g k).1, (s.stepBlock ext g k).2.1.upon p, (s.stepBlock ext g k).2.2) := by
  have htop : (s.upon p).thread.topBlock? = s.thread.topBlock? := rfl
  have hentered : (⟨(s.upon p).world.elapse,
      startWarp (s.upon p).world.elapse.now (s.upon p).thread⟩ : Scene σ) =
        Scene.upon p ⟨s.world.elapse, startWarp s.world.elapse.now s.thread⟩ :=
    congrArg (Scene.mk _) (upon_startWarp s.world.elapse.now s.thread p.next)
  have hwarp : Scheduler.inWarp (s.upon p).thread = Scheduler.inWarp s.thread := rfl
  unfold stepBlock
  rw [htop]
  cases s.thread.topBlock? with
  | none => rfl
  | some top =>
    simp only
    rw [hentered, upon_execute p hext, hwarp]
    rcases execute ext k.countBlock g ⟨s.world.elapse, startWarp s.world.elapse.now s.thread⟩ with
      ⟨s', fault⟩
    cases fault with
    | some f => rfl
    | none =>
      simp only
      rw [upon_obey]
      rcases s'.obey with ⟨s'', asked⟩
      cases asked with
      | true => rfl
      | false =>
        simp only
        rw [upon_proceed]

/-- **Turns are the same behind a past**, by induction on their blocks. -/
theorem upon_takeTurn (hext : ext.Portable p) (g : Graph) (fuel : Nat) :
    ∀ (k : Scheduler) (s : Scene σ), takeTurn ext g fuel k (s.upon p) =
      (takeTurn ext g fuel k s).map fun r => (r.1, r.2.upon p) := by
  induction fuel with
  | zero => exact fun _ _ => rfl
  | succ fuel ih =>
    intro k s
    rw [takeTurn, takeTurn, upon_stepBlock p hext]
    rcases s.stepBlock ext g k with ⟨k', s', turn⟩
    cases turn with
    | ends => rfl
    | goesOn => exact ih k' s'

end Scene

/-! ### Passes -/

namespace Pass

variable {σ : Type} (p : Past σ) {ext : Extensions σ}

/-- A pass behind a past. -/
def upon (q : Pass σ) : Pass σ := { q with world := q.world.upon p }

theorem upon_takeIn (k : Scheduler) (w : World σ) (t : Thread) (slot : Slotting) (v : Value) :
    takeIn k (w.upon p) (t.upon p.next) slot v =
      ((takeIn k w t slot v).1.upon p.next, (takeIn k w t slot v).2) := by
  have hawake : ({ t.upon p.next with pending := none, status := .running } : Thread) =
      ({ t with pending := none, status := .running } : Thread).upon p.next := rfl
  have hgraph : (w.upon p).graph? (t.upon p.next).actor = w.graph? t.actor := rfl
  have hnow : (w.upon p).now = w.now := rfl
  unfold takeIn
  simp only [hawake]
  cases slot with
  | reporter h => exact congrArg (·, true) (Thread.upon_modifyTop p.next _ _)
  | command =>
    simp only
    rw [hgraph]
    cases w.graph? t.actor with
    | none => rfl
    | some g =>
      simp only
      rw [Thread.upon_modifyTop, hnow, Scheduler.upon_advance]

theorem upon_wake (k : Scheduler) (w : World σ) (t : Thread) :
    wake k (w.upon p) (t.upon p.next) = ((wake k w t).1.upon p, (wake k w t).2) := by
  have hpending : (t.upon p.next).pending = t.pending.map (·.upon p.next) := rfl
  unfold wake
  rw [hpending]
  cases t.pending with
  | none => rfl
  | some q =>
    have hpoll : (w.upon p).poll (q.upon p.next).channel =
        ((w.poll q.channel).1.upon p, (w.poll q.channel).2) := World.upon_poll p w q.channel
    simp only [Option.map_some, hpoll]
    rcases w.poll q.channel with ⟨w', d⟩
    cases d with
    | none => rfl
    | some d =>
      cases d with
      | rejected reason => rfl
      | resolved v =>
        have htake := upon_takeIn p k w' t q.slot v
        exact congrArg (fun r => (Scene.mk (w'.upon p) r.1, r.2)) htake

theorem upon_letRun (hext : ext.Portable p) (fuel : Nat) (k : Scheduler) (w : World σ)
    (t : Thread) : letRun ext fuel k (w.upon p) (t.upon p.next) =
      (letRun ext fuel k w t).map fun r => (r.1, r.2.upon p) := by
  have hgraph : (w.upon p).graph? (t.upon p.next).actor = w.graph? t.actor := rfl
  unfold letRun
  rw [hgraph]
  cases w.graph? t.actor with
  | none => rfl
  | some g =>
    have hturn := Scene.upon_takeTurn p hext g fuel k
      ⟨{ w with current := some ⟨t.id, t.actor, t.top, false, false⟩ }, t⟩
    simp only
    rw [show (⟨{ w.upon p with current := some ⟨(t.upon p.next).id, (t.upon p.next).actor,
      (t.upon p.next).top, false, false⟩ }, t.upon p.next⟩ : Scene σ) = Scene.upon p
        ⟨{ w with current := some ⟨t.id, t.actor, t.top, false, false⟩ }, t⟩ from rfl, hturn]
    rcases Scene.takeTurn ext g fuel k
      ⟨{ w with current := some ⟨t.id, t.actor, t.top, false, false⟩ }, t⟩ with _ | ⟨k', s⟩
    · rfl
    · simp only [Option.map_some]
      have hrestarting : (s.upon p).thread.restarting = s.thread.restarting := rfl
      rw [hrestarting]
      cases s.thread.restarting <;> rfl

theorem upon_visit (hext : ext.Portable p) (fuel : Nat) (k : Scheduler) (w : World σ)
    (t : Thread) : visit ext fuel k (w.upon p) (t.upon p.next) =
      (visit ext fuel k w t).map fun r => (r.1, r.2.upon p) := by
  have hstatus : (t.upon p.next).status = t.status := rfl
  unfold visit
  rw [hstatus]
  cases t.status with
  | done | yieldedTick => rfl
  | running | yielded => exact upon_letRun p hext fuel k w t
  | parked =>
    simp only
    rw [upon_wake]
    rcases wake k w t with ⟨s, on⟩
    cases on with
    | true => exact upon_letRun p hext fuel k s.world s.thread
    | false => rfl

/-- **The turn at a place of the list is the same behind a past.** -/
theorem upon_visitAt (hext : ext.Portable p) (fuel : Nat) (q : Pass σ) (i : Nat) :
    visitAt ext fuel (q.upon p) i = (visitAt ext fuel q i).map (upon p) := by
  have hthread : (q.upon p).world.threads[i]? =
      q.world.threads[i]?.map (Thread.upon p.next) := List.getElem?_map
  have hset : ∀ (l : List Thread) (t : Thread), (l.map (Thread.upon p.next)).set i
      (t.upon p.next) = (l.set i t).map (Thread.upon p.next) := fun _ _ => List.map_set.symm
  unfold visitAt
  rw [hthread]
  cases q.world.threads[i]? with
  | none => rfl
  | some t =>
    have hleave : ({ (q.upon p).world with threads := (q.upon p).world.threads.set i .absent } :
        World σ) = ({ q.world with threads := q.world.threads.set i .absent } : World σ).upon p :=
      congrArg (fun l => { q.world.upon p with threads := l }) (hset q.world.threads .absent)
    simp only [Option.map_some]
    rw [hleave, show (q.upon p).scheduler = q.scheduler from rfl, upon_visit p hext, Option.map_map,
      Option.map_map]
    refine congrArg (fun f => Option.map f _) (funext fun r => ?_)
    exact congrArg (fun l => Pass.mk r.1 { r.2.world.upon p with threads := l })
      (hset r.2.world.threads r.2.thread)

theorem upon_visitAll (hext : ext.Portable p) (fuel : Nat) (places : List Nat) :
    ∀ q : Pass σ, visitAll ext fuel places (q.upon p) =
      (visitAll ext fuel places q).map fun r => (r.1.upon p, r.2) := by
  induction places with
  | nil => exact fun _ => rfl
  | cons i rest ih =>
    intro q
    rw [visitAll, visitAll, upon_visitAt p hext]
    cases visitAt ext fuel q i with
    | none => rfl
    | some q' =>
      have hids : ∀ j : Nat, ((q'.upon p).world.elapse.threads[j]?).map (·.id) =
          (q'.world.elapse.threads[j]?).map (·.id) := by
        intro j
        have hthread : (q'.upon p).world.elapse.threads[j]? =
            q'.world.elapse.threads[j]?.map (Thread.upon p.next) := List.getElem?_map
        rw [hthread, Option.map_map]
        rfl
      have htime : (q'.upon p).scheduler.budgetExhausted (q'.upon p).world.elapse.now =
          q'.scheduler.budgetExhausted q'.world.elapse.now := rfl
      simp only [Option.map_some, htime, hids]
      split
      · rfl
      · exact ih { q' with world := q'.world.elapse }

theorem upon_collect (q : Pass σ) (finished : List ThreadId) : (q.upon p).collect finished =
    ((q.collect finished).1.upon p, (q.collect finished).2) := by
  have hended : (q.world.threads.map (Thread.upon p.next)).filter (·.isDone) =
      (q.world.threads.filter (·.isDone)).map (Thread.upon p.next) := List.filter_map
  have hleft := World.map_filter_upon p.next q.world.threads
  unfold collect
  simp only [upon, World.upon] at hended hleft ⊢
  rw [hended, hleft]
  simp only [List.map_map, List.filterMap_map]
  rfl

theorem goesAround_upon (q : Pass σ) (exhausted : Bool) :
    (q.upon p).goesAround exhausted = q.goesAround exhausted := by
  have hrunning : (q.upon p).world.threads.any (fun t => t.status == .running) =
      q.world.threads.any fun t => t.status == .running := List.any_map
  unfold goesAround
  rw [hrunning]
  rfl

/-- **Rounds are the same behind a past**, by induction on the rounds. -/
theorem upon_rounds (hext : ext.Portable p) (turnFuel fuel : Nat) :
    ∀ (first : Nat) (q : Pass σ) (finished : List ThreadId),
      rounds ext turnFuel fuel first (q.upon p) finished =
        (rounds ext turnFuel fuel first q finished).map fun r => (r.1.upon p, r.2) := by
  induction fuel with
  | zero => exact fun _ _ _ => rfl
  | succ fuel ih =>
    intro first q finished
    have hlength : (q.upon p).world.threads.length = q.world.threads.length := List.length_map ..
    have hcount : ({ q.upon p with scheduler := countRound (q.upon p).scheduler } : Pass σ) =
        ({ q with scheduler := countRound q.scheduler } : Pass σ).upon p := rfl
    rw [rounds, rounds]
    simp only
    rw [hcount, hlength, upon_visitAll p hext]
    rcases visitAll ext turnFuel (order first q.world.threads.length)
      { q with scheduler := countRound q.scheduler } with _ | ⟨q', exhausted⟩
    · rfl
    · have hnote : ∀ q' : Pass σ, ({ q'.upon p with
          scheduler := noteBudget (q'.upon p).scheduler exhausted } : Pass σ) =
          ({ q' with scheduler := noteBudget q'.scheduler exhausted } : Pass σ).upon p :=
        fun _ => rfl
      simp only [Option.map_some]
      rw [upon_collect]
      simp only
      rw [hnote, goesAround_upon]
      split
      · exact ih 0 _ _
      · rfl

theorem upon_begin (k : Scheduler) (w : World σ) :
    begin k (w.upon p) = (begin k w).upon p := by
  have hdue : ∀ l : List Thread, (l.map (Thread.upon p.next)).map (fun t =>
      if t.status = .yieldedTick then { t with status := .running } else t) =
        (l.map fun t => if t.status = .yieldedTick then { t with status := .running } else t).map
          (Thread.upon p.next) := by
    intro l
    rw [List.map_map, List.map_map]
    exact List.map_congr_left fun t _ => Thread.upon_ite p.next _ { t with status := .running } t
  exact congrArg (fun l => Pass.mk (begin k w).scheduler
    { w.upon p with redraw := false, threads := l }) (hdue w.threads)

theorem upon_finish (q : Pass σ) : (q.upon p).finish = q.finish.upon p := by
  have hspawned := World.map_filter_upon p.next q.world.spawned
  have hjoin : q.world.threads.map (Thread.upon p.next) ++
      (q.world.spawned.map (Thread.upon p.next)).filter (fun t => !t.isDone) =
        (q.world.threads ++ q.world.spawned.filter fun t => !t.isDone).map
          (Thread.upon p.next) := by
    rw [hspawned, List.map_append]
  exact congrArg (fun l => Pass.mk q.finish.scheduler
    { q.world.upon p with threads := l, spawned := [] }) hjoin

/-- A thread that is gone is none to go on with. -/
theorem firstPlace_of_gone {k : Scheduler} {threads : List Thread} {id : ThreadId}
    (hk : k.resumeAt = some id) (hgone : ∀ t ∈ threads, t.id ≠ id) : firstPlace k threads = 0 := by
  have hnone : threads.findIdx? (fun t => t.id == id) = none :=
    List.findIdx?_eq_none_iff.2 fun t ht => by simpa using hgone t ht
  simp only [firstPlace, hk, hnone, Option.getD_none]

theorem firstPlace_upon {k : Scheduler} {threads : List Thread}
    (hstale : ∀ id, p.stale = some id → ∀ t ∈ threads, t.id ≠ id) :
    firstPlace (k.upon p.stale) (threads.map (Thread.upon p.next)) = firstPlace k threads := by
  have hfirst : ∀ k : Scheduler,
      firstPlace k (threads.map (Thread.upon p.next)) = firstPlace k threads := by
    intro k
    unfold firstPlace
    cases k.resumeAt with
    | none => rfl
    | some id =>
      simp only [List.findIdx?_map]
      rfl
  rw [hfirst]
  cases hk : k.resumeAt with
  | some id => rw [firstPlace, firstPlace, Scheduler.upon, hk, Option.some_or]
  | none =>
    have hnone : firstPlace k threads = 0 := by rw [firstPlace, hk]
    rw [hnone]
    cases hs : p.stale with
    | none => rw [firstPlace, Scheduler.upon, hk, Option.none_or]
    | some id =>
      have hresume : (k.upon (some id)).resumeAt = some id := by
        rw [Scheduler.upon, hk, Option.none_or]
      exact firstPlace_of_gone hresume (hstale id hs)

theorem upon_run (hext : ext.Portable p.settled) (fuel : Nat) (k : Scheduler) (w : World σ)
    (hstale : ∀ id, p.stale = some id → ∀ t ∈ w.threads, t.id ≠ id) :
    run ext fuel (k.upon p.stale) (w.upon p.settled) =
      (run ext fuel k w).map fun r => (r.1.upon p.settled, r.2) := by
  have hbegin : begin (k.upon p.stale) (w.upon p.settled) = (begin k w).upon p.settled :=
    upon_begin p.settled k w
  have hplace : firstPlace (k.upon p.stale) (w.upon p.settled).threads =
      firstPlace k w.threads := firstPlace_upon p hstale
  unfold run
  rw [hplace, hbegin, upon_rounds p.settled hext, Option.map_map, Option.map_map]
  refine congrArg (fun f => Option.map f _) (funext fun r => ?_)
  exact congrArg (·, r.2) (upon_finish p.settled r.1)

end Pass

namespace World

variable {σ : Type} (p : Past σ) {ext : Extensions σ}

/-- **A step is the same behind a past.** After it nothing remembers where a pass was cut short
before. -/
theorem upon_step (hext : ext.Portable p.settled) (fuel : Nat) (w : World σ)
    (hstale : ∀ id, p.stale = some id → ∀ t ∈ w.threads, t.id ≠ id) :
    (w.upon p).step ext fuel = (w.step ext fuel).map fun r => (r.1.upon p.settled, r.2) := by
  unfold step
  cases hs : w.scheduler with
  | none =>
    have hscheduler : (w.upon p).scheduler = none := congrArg (Option.map _) hs
    have hsame : w.upon p = w.upon p.settled := by
      rw [upon, upon, hs]
      rfl
    rw [hscheduler, hsame]
    rfl
  | some k =>
    have hscheduler : (w.upon p).scheduler = some (k.upon p.stale) := congrArg (Option.map _) hs
    have hrun := Pass.upon_run p hext fuel (k.configure w.settings) { w with scheduler := none }
      hstale
    have hclose : ∀ q : Pass σ, ({ (q.upon p.settled).world with
        scheduler := some (q.upon p.settled).scheduler } : World σ) =
          ({ q.world with scheduler := some q.scheduler } : World σ).upon p.settled := by
      intro q
      have hscheduler : q.scheduler.upon p.settled.stale = q.scheduler := by
        rw [Scheduler.upon, Past.settled, Option.or_none]
      exact congrArg (fun k => { q.world.upon p.settled with scheduler := some k }) hscheduler.symm
    rw [hscheduler]
    simp only
    rw [show Pass.run ext fuel ((k.upon p.stale).configure (w.upon p).settings)
        { w.upon p with scheduler := none } = _ from hrun]
    rcases Pass.run ext fuel (k.configure w.settings) { w with scheduler := none } with
      _ | ⟨q, finished⟩
    · rfl
    · simp only [Option.map_some]
      rw [hclose, upon_dispatchEvents]
      rfl

end World

end Stagecraft
