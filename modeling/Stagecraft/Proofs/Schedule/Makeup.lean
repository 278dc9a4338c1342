import Stagecraft.Primitive.Run
import Stagecraft.Proofs.Cast.Same
import Mathlib.Logic.Relation

/-!
# What primitives are made of

Every built-in primitive is a chain of a few things. It shifts the running thread: a frame keeps
something, the thread yields, or it enters a stack or a procedure. It does something to the world:
to the running actor, to a variable that it looked up, to other threads, to clones, or to what
nobody of these is concerned with. At last it may leave the script. Which of these a primitive does
is said here once, with the operations that alone can do the rarer ones.

* `Thread.Shift` : what is done to the running thread while it stays in its script;
* `Thread.Shift.told` : **what is told of it meanwhile**;
* `World.Beside` : threads in the lists, actors and shared variables are left alone;
* `Scene.Does` : one thing that a primitive does;
* `Scene.Quits` : how it leaves the script, if it does;
* `Scene.Works.along` : what holds along all of this;
* `Primitive.works_run` : **a built-in primitive does nothing else**.
-/

namespace Stagecraft

/-- One thing that a primitive does to the running thread. -/
inductive Thread.Shift (site : Site) (t : Thread) : Thread → Prop
  /-- The executing frame keeps something. -/
  | keep (p : Progress) :
      Shift site t (t.modifyFrame site.frame fun f => { f with progress := p })
  /-- The thread gives up its turn. -/
  | yield : Shift site t { t with status := .yielded }
  /-- It enters a stack inside its top block. -/
  | branch (n : Nat) (isLoop : Bool) : Shift site t (t.enterBranch site.graph n isLoop)
  /-- It enters the body of a procedure. -/
  | call {now : Span} {code : String} {supplied : Table String Value} {t' : Thread} :
      site.scheduler.enterProcedure now site.graph t code supplied = (t', .entered) →
        Shift site t t'
  /-- Its top frame runs without yielding from now on. -/
  | warp : Shift site t (t.modifyTop fun f => { f with warp := true })

/-! ### What is told of the running thread -/

/-- A frame stays at its block with what the block keeps, and it does not leave warp. -/
structure Frame.Stays (f f' : Frame) : Prop where
  block : f'.block = f.block
  progress : f'.progress = f.progress
  warp : f.warp = true → f'.warp = true

/-- Something else is noted on a frame, and not what reporters gave. -/
structure Frame.Notes (f f' : Frame) : Prop extends Frame.Stays f f' where
  reported : f'.reported = f.reported

namespace Thread

variable {t t' : Thread} {n : Nat} {P : Thread → Prop}

/-- Something is told of a thread also when it yields, when a frame is pushed, when something is
noted on the top frame, and when the frame at a place keeps something else. -/
structure Bears (n : Nat) (P : Thread → Prop) : Prop where
  yields : ∀ {t : Thread}, P t → P { t with status := .yielded }
  push : ∀ {t : Thread}, P t → ∀ b, P (t.push b)
  note : ∀ {t : Thread} {F : Frame → Frame}, P t → (∀ f, Frame.Notes f (F f)) → P (t.modifyTop F)
  keep : ∀ {t : Thread}, P t → ∀ p, P (t.modifyFrame n fun f => { f with progress := p })

namespace Bears

theorem enterBranch (hP : Bears n P) (h : P t) (g : Graph) (i : Nat) (isLoop : Bool) :
    P (t.enterBranch g i isLoop) := by
  unfold Thread.enterBranch
  split
  · exact h
  · have hmark : P (t.modifyTop fun f => { f with isLoop := isLoop }) :=
      hP.note h fun _ => ⟨⟨rfl, rfl, fun h => h⟩, rfl⟩
    simp only
    split
    · exact hP.push hmark _
    · split
      · exact hP.yields hmark
      · exact hmark

theorem bindArguments (hP : Bears n P) (h : P t) (p : Parameters)
    (supplied : Table String Value) : P (t.bindArguments p supplied) := by
  have hfold : ∀ (l : List (String × Nat)) {t : Thread}, P t →
      P (l.foldl (fun t e => t.bindArgument e.1 (argumentValue p supplied e.2)) t) := by
    intro l
    induction l with
    | nil => exact fun ht => ht
    | cons e rest ih => exact fun ht => ih (hP.note ht fun _ => ⟨⟨rfl, rfl, fun h => h⟩, rfl⟩)
  exact hfold _ h

theorem settleCall (hP : Bears n P) (h : P t) (k : Scheduler) (now : Span)
    (warp recursive : Bool) : P (k.settleCall now t warp recursive) := by
  unfold Scheduler.settleCall
  split
  · exact hP.yields h
  · split
    · exact hP.note h fun _ => ⟨⟨rfl, rfl, fun _ => rfl⟩, rfl⟩
    · split
      · exact hP.yields h
      · exact h

theorem enterProcedure (hP : Bears n P) (h : P t) (k : Scheduler) (now : Span) (g : Graph)
    (code : String) (supplied : Table String Value) :
    P (k.enterProcedure now g t code supplied).1 := by
  unfold Scheduler.enterProcedure
  split
  · exact h
  · rename_i definition _
    split
    · exact h
    · have hbody : P (t.push definition).initArguments :=
        hP.note (hP.push h definition) fun _ => ⟨⟨rfl, rfl, fun h => h⟩, rfl⟩
      simp only
      split
      · exact hP.settleCall (hP.bindArguments hbody _ _) k now _ _
      · exact hP.settleCall hbody k now _ _

end Bears

/-- **Then it is told of a thread that is shifted**, whatever it enters or calls. -/
theorem Shift.told {site : Site} (h : t.Shift site t') (hP : Bears site.frame P) (ht : P t) :
    P t' := by
  cases h with
  | keep p => exact hP.keep ht p
  | yield => exact hP.yields ht
  | branch i isLoop => exact hP.enterBranch ht _ i isLoop
  | @call now code supplied _ h =>
    have hcall := hP.enterProcedure ht site.scheduler now site.graph code supplied
    rwa [h] at hcall
  | warp => exact hP.note ht fun _ => ⟨⟨rfl, rfl, fun _ => rfl⟩, rfl⟩

end Thread

/-! ### What is left alone in the world -/

/-- Threads in the lists, actors and shared variables are left alone. -/
structure World.Beside {σ : Type} (w w' : World σ) : Prop where
  scheduler : w'.scheduler = w.scheduler
  nextThread : w'.nextThread = w.nextThread
  threads : w'.threads = w.threads
  spawned : w'.spawned = w.spawned
  cast : SameCast w w'
  cloud : w'.cloud = w.cloud

/-- Channels stay given out, and the host awaits the results that it awaited before. -/
structure World.SameHost {σ : Type} (w w' : World σ) : Prop where
  next_le : w.nextChannel ≤ w'.nextChannel
  held : w'.held = w.held

/-- Questions and results that come later are left alone, and the host awaits the same ones. -/
structure World.SameMail {σ : Type} (w w' : World σ) : Prop where
  nextChannel : w'.nextChannel = w.nextChannel
  held : w'.held = w.held
  channels : w'.channels = w.channels
  prompts : w'.prompts = w.prompts

theorem World.SameMail.host {σ : Type} {w w' : World σ} (h : SameMail w w') : SameHost w w' :=
  ⟨Nat.le_of_eq h.nextChannel.symm, h.held⟩

/-- Neither is the thread on stage noted anything about, and no fault is recorded. Nothing is asked
and nothing is answered. -/
structure World.Offstage {σ : Type} (w w' : World σ) : Prop extends Beside w w' where
  current : w'.current = w.current
  faults : w'.faults = w.faults
  mail : SameMail w w'

theorem World.offstage_draw {σ : Type} (w : World σ) : w.Offstage w.draw.1 := by
  simp only [draw]
  exact ⟨⟨rfl, rfl, rfl, rfl, ⟨rfl, rfl, rfl, rfl, rfl, rfl, rfl⟩, rfl⟩, rfl, rfl,
    ⟨rfl, rfl, rfl, rfl⟩⟩

/-- The primitives that write a variable. -/
def Opcode.Assigns (op : Opcode) : Prop := op = .data .setVariable ∨ op = .data .changeVariable

/-- The block stops everything. -/
def Site.StopsAll (site : Site) (op : Opcode) : Prop :=
  op = .control .stop ∧ (site.field? "STOP_OPTION").getD "all" = "all"

namespace Scene

variable {σ : Type}

/-- One thing that a primitive does. -/
inductive Does (site : Site) (op : Opcode) : Scene σ → Scene σ → Prop
  | shift (s : Scene σ) {t : Thread} : s.thread.Shift site t → Does site op s { s with thread := t }
  | aside (s : Scene σ) {w : World σ} : s.world.Offstage w → Does site op s { s with world := w }
  /-- The user is asked. -/
  | ask (s : Scene σ) (text : String) : op = .sensing .askAndWait →
      Does site op s { s with world := (s.world.ask text).1 }
  /-- The running actor moves or changes its looks. -/
  | restyle (s : Scene σ) (f : Actor → Actor) : (∀ a : Actor, a.Restyled (f a)) →
      Does site op s (s.modifyActor f)
  /-- A variable is looked up. -/
  | lookup (s : Scene σ) (id : Option String) (name : String) (kind : VariableKind) :
      Does site op s { s with world := (s.world.lookupVariable s.thread.actor id name kind).1 }
  /-- A variable that was looked up is written. -/
  | write (s : Scene σ) (id : Option String) (name : String) (kind : VariableKind)
      {place : ActorId × String} (f : Variable → Variable) :
      (s.world.lookupVariable s.thread.actor id name kind).2 = some place →
      (∀ v : Variable, v.Rewritten (f v)) →
      Does site op s { s with
        world := (s.world.lookupVariable s.thread.actor id name kind).1.modifyVariable place f }
  /-- Somebody is told of a variable that was written. -/
  | request (s : Scene σ) (r : CloudRequest) : op.Assigns →
      Does site op s { s with world := s.world.requestCloud r }
  /-- Scripts are started. -/
  | startHats (s : Scene σ) (hat : Opcode) (fields : List (String × String))
      (only : Option ActorId) :
      Does site op s { s with world := (s.world.startHats hat fields only).1 }
  /-- Other threads of the running actor are stopped. -/
  | stopActor (s : Scene σ) :
      Does site op s { s with world := s.world.stopActor s.thread.actor (some s.thread.id) }
  /-- An actor is cloned. -/
  | createClone (s : Scene σ) (source : ActorId) : op = .control .createCloneOf →
      Does site op s { s with world := (s.world.createClone source).1 }
  /-- The running actor is deleted, which is a clone. -/
  | deleteClone (s : Scene σ) {a : Actor} : op = .control .deleteThisClone →
      s.world.actor? s.thread.actor = some a → a.isClone = true →
      Does site op s { s with world := (s.world.deleteClone s.thread.actor).1 }
  /-- Everything is stopped. -/
  | stopAll (s : Scene σ) : site.StopsAll op → Does site op s { s with world := s.world.stopAll }

/-- One thing after the other. -/
def Performs (site : Site) (op : Opcode) : Scene σ → Scene σ → Prop :=
  Relation.ReflTransGen (Does site op)

/-- How a primitive leaves the thread in the end. -/
inductive Quits (site : Site) (s : Scene σ) : Scene σ → Prop
  /-- In its script. -/
  | stays : Quits site s s
  /-- Out of the innermost procedure, or at the end of its script. -/
  | stopScript : Quits site s { s with thread := s.thread.stopScript site.graph }
  /-- At its end. -/
  | retire : Quits site s s.retire

/-- What a primitive may do: first one thing after the other, and then it may leave the script. -/
def Works (site : Site) (op : Opcode) (s s' : Scene σ) : Prop :=
  ∃ s₁, Performs site op s s₁ ∧ Quits site s₁ s'

namespace Performs

variable {site : Site} {op : Opcode} {s s' s'' : Scene σ}

theorem refl (s : Scene σ) : Performs site op s s := Relation.ReflTransGen.refl

theorem trans (h : Performs site op s s') (h' : Performs site op s' s'') : Performs site op s s'' :=
  Relation.ReflTransGen.trans h h'

theorem one (h : Does site op s s') : Performs site op s s' := .single h

theorem works (h : Performs site op s s') : Works site op s s' := ⟨s', h, .stays⟩

end Performs

/-- **What holds along each of these things, and of leaving the script, holds along them all.** -/
theorem Works.along {site : Site} {op : Opcode} {R : Scene σ → Scene σ → Prop} (hrefl : ∀ s, R s s)
    (htrans : ∀ {s s' s''}, R s s' → R s' s'' → R s s'')
    (hdoes : ∀ {s s'}, Does site op s s' → R s s') (hquits : ∀ {s s'}, Quits site s s' → R s s')
    {s s' : Scene σ} (h : Works site op s s') : R s s' := by
  obtain ⟨s₁, hperforms, hq⟩ := h
  refine htrans ?_ (hquits hq)
  clear hq
  induction hperforms with
  | refl => exact hrefl s
  | tail _ hd ih => exact htrans ih (hdoes hd)

end Scene

namespace Primitive

open Scene World

variable {σ : Type} (site : Site) (op : Opcode) (args : Args) (s : Scene σ)

/-! ### Control -/

theorem performs_keep (p : Progress) : Performs site op s (s.keep site p) :=
  .one (.shift s (.keep p))

theorem performs_yield : Performs site op s s.yield := .one (.shift s .yield)

theorem performs_startBranch (n : Nat) (isLoop : Bool) :
    Performs site op s (s.startBranch site n isLoop) :=
  .one (.shift s (.branch n isLoop))

theorem performs_requestRedraw : Performs site op s s.requestRedraw :=
  .one (.aside s
    ⟨⟨rfl, rfl, rfl, rfl, ⟨rfl, rfl, rfl, rfl, rfl, rfl, rfl⟩, rfl⟩, rfl, rfl,
      ⟨rfl, rfl, rfl, rfl⟩⟩)

theorem performs_loopIf (condition : Bool) : Performs site op s (loopIf condition site s) := by
  unfold loopIf
  split
  · exact performs_startBranch site op s 1 true
  · exact .refl s

theorem performs_repeatTimes : Performs site op s (repeatTimes site args s) := by
  unfold repeatTimes
  split
  · exact .refl s
  · exact (performs_keep site op s _).trans (performs_loopIf site op _ _)

theorem performs_wait : Performs site op s (wait site args s) := by
  unfold wait
  split
  · exact .refl s
  · split
    · exact performs_yield site op s
    · exact .refl s
  · exact ((performs_keep site op s _).trans (performs_requestRedraw site op _)).trans
      (performs_yield site op _)

theorem works_stop : Works site (.control .stop) s (stop site s) := by
  unfold stop
  split
  · rename_i hoption
    exact ⟨_, .one (.stopAll s ⟨rfl, hoption⟩), .retire⟩
  · exact ⟨s, .refl s, .stopScript⟩
  · exact (Performs.one (.stopActor s)).works
  · exact (Performs.one (.stopActor s)).works
  · exact (Performs.refl s).works

theorem performs_createCloneOf :
    Performs site (.control .createCloneOf) s (createCloneOf args s) := by
  unfold createCloneOf
  simp only
  split
  · exact .one (.createClone s _ rfl)
  · exact .refl s

theorem works_deleteThisClone :
    Works site (.control .deleteThisClone) s (deleteThisClone s) := by
  unfold deleteThisClone
  split
  · rename_i a ha
    split
    · rename_i hclone
      exact ⟨_, .one (.deleteClone s rfl ha hclone), .retire⟩
    · exact (Performs.refl s).works
  · exact (Performs.refl s).works

theorem performs_allAtOnce : Performs site op s (allAtOnce site s) := by
  have hbranch : Performs site op s (s.startBranch site 1 false) :=
    performs_startBranch site op s 1 false
  unfold allAtOnce
  simp only
  split
  · exact hbranch
  · exact hbranch.trans (.one (.shift _ .warp))

theorem works_control (op : ControlOp) :
    Works site (.control op) s (control op site args s).1 := by
  unfold control
  cases op with
  | forever => exact (performs_startBranch site _ s 1 true).works
  | repeatTimes => exact (performs_repeatTimes site _ args s).works
  | repeatUntil | whileTrue => exact (performs_loopIf site _ s _).works
  | ifThen =>
    simp only
    split
    · exact (performs_startBranch site _ s 1 false).works
    · exact (Performs.refl s).works
  | ifElse => exact (performs_startBranch site _ s _ false).works
  | wait => exact (performs_wait site _ args s).works
  | waitUntil =>
    simp only
    split
    · exact (Performs.refl s).works
    · exact (performs_yield site _ s).works
  | stop => exact works_stop site s
  | createCloneOf => exact (performs_createCloneOf site args s).works
  | deleteThisClone => exact works_deleteThisClone site s
  | allAtOnce => exact (performs_allAtOnce site _ s).works
  | createCloneOfMenu | startAsClone => exact (Performs.refl s).works

/-! ### Events and procedures -/

theorem performs_broadcast (message : String) :
    Performs site op s { s with world := (s.world.broadcast message).1 } :=
  .one (.startHats s _ _ _)

theorem performs_awaitThreads (threads : List ThreadId) :
    Performs site op s (awaitThreads threads s) := by
  unfold awaitThreads
  split
  · exact performs_yield site op s
  · exact .refl s

theorem performs_event (op : EventOp) :
    Performs site (.event op) s (event op site args s).1 := by
  unfold event
  cases op with
  | broadcast => exact performs_broadcast site _ s _
  | broadcastAndWait =>
    simp only [broadcastAndWait]
    split
    · exact performs_awaitThreads site _ s _
    · exact ((performs_broadcast site _ s _).trans (performs_keep site _ _ _)).trans
        (performs_awaitThreads site _ _ _)
  | _ => exact .refl s

theorem performs_startProcedure (code : String) (supplied : Table String Value) :
    Performs site op s (s.startProcedure site code supplied).1 := by
  unfold startProcedure
  split
  · rename_i he
    exact .one (.shift s (.call he))
  · exact .refl s
  · exact .one (.aside s
      ⟨⟨rfl, rfl, rfl, rfl, ⟨rfl, rfl, rfl, rfl, rfl, rfl, rfl⟩, rfl⟩, rfl, rfl,
      ⟨rfl, rfl, rfl, rfl⟩⟩)

theorem performs_procedure (op : ProcedureOp) :
    Performs site (.procedure op) s (procedure op site args s).1 := by
  cases op with
  | call =>
    unfold procedure call
    simp only
    split
    · exact .refl s
    · split
      · exact .refl s
      · exact (performs_keep site _ s _).trans (performs_startProcedure site _ _ _ _)
  | _ => exact .refl s

/-! ### Variables and lists -/

theorem performs_lookup (field : String) (kind : VariableKind) :
    Performs site op s (lookup site s field kind).1 :=
  .one (.lookup s _ _ _)

theorem performs_readVariable : Performs site op s (readVariable site s).1 := by
  have h : Performs site op s (lookup site s "VARIABLE" .scalar).1 := performs_lookup site op s _ _
  unfold readVariable
  simp only
  split <;> exact h

theorem performs_writeVariable (update : Value → Value) (hop : op.Assigns) :
    Performs site op s (writeVariable site s update) := by
  have h : Performs site op s (lookup site s "VARIABLE" .scalar).1 := performs_lookup site op s _ _
  unfold writeVariable
  simp only
  split
  · exact h
  · rename_i place hplace
    split
    · exact h
    · rename_i v _
      -- looking up and writing are one thing: what is written is what was looked up just then
      have hwrite : Performs site op s { s with
          world := (lookup site s "VARIABLE" .scalar).1.world.modifyVariable place
            (·.set (update v.get)) } :=
        .one (.write s _ _ _ _ hplace fun v => v.rewritten_set _)
      split
      · exact hwrite.trans (.one (.request _ _ hop))
      · exact hwrite

theorem performs_readList : Performs site op s (readList site s).1 :=
  performs_lookup site op s "LIST" .list

theorem performs_editList (f : List Value → List Value) :
    Performs site op s (editList site s f) := by
  unfold editList
  simp only
  split
  · rename_i place hplace
    exact .one (.write s _ _ _ _ hplace fun v => v.rewritten_modifyItems f)
  · exact performs_lookup site op s _ _

theorem performs_draw : Performs site op s (draw s).1 := .one (.aside s s.world.offstage_draw)

theorem performs_data (op : DataOp) : Performs site (.data op) s (data op site args s).1 := by
  unfold data
  cases op with
  | «variable» => exact performs_readVariable site _ s
  | setVariable =>
    simp only
    exact performs_writeVariable site _ s _ (.inl rfl)
  | changeVariable =>
    simp only
    exact performs_writeVariable site _ s _ (.inr rfl)
  | addToList | deleteAllOfList => exact performs_editList site _ s _
  | deleteOfList | insertAtList | replaceItemOfList =>
    exact (performs_draw site _ s).trans (performs_editList site _ _ _)
  | itemOfList => exact (performs_draw site _ s).trans (performs_readList site _ _)
  | listContents | lengthOfList | listContainsItem => exact performs_readList site _ s

theorem performs_operator (op : OperatorOp) :
    Performs site (.operator op) s (operator op site args s).1 := by
  cases op with
  | random => exact performs_draw site _ s
  | _ => exact .refl s

/-! ### Stage and devices -/

theorem performs_modifyActor {f : Actor → Actor} (hf : ∀ a : Actor, a.Restyled (f a)) :
    Performs site op s (s.modifyActor f) :=
  .one (.restyle s f hf)

theorem performs_moveTo (path : Float → Float → Float × Float) :
    Performs site op s (moveTo s path) := by
  unfold moveTo
  split
  · exact .refl s
  · rename_i a _
    have hmove : Performs site op s (s.modifyActor (·.setXY (path a.x a.y).1 (path a.x a.y).2)) :=
      performs_modifyActor site op s fun b => ⟨_, _, b.visible, b.bubble, rfl⟩
    simp only
    split
    · exact hmove.trans (performs_requestRedraw site op _)
    · exact hmove

theorem performs_motion (op : MotionOp) : Performs site (.motion op) s (motion op args s).1 := by
  unfold motion
  cases op with
  | xPosition | yPosition => exact .refl s
  | _ =>
    simp only
    exact performs_moveTo site _ s _

theorem performs_restyle {f : Actor → Actor} (hf : ∀ a : Actor, a.Restyled (f a)) :
    Performs site op s (restyle s f) := by
  unfold restyle
  split
  · exact .refl s
  · exact (performs_modifyActor site op s hf).trans (performs_requestRedraw site op _)

theorem performs_looks (op : LooksOp) : Performs site (.looks op) s (looks op args s).1 := by
  unfold looks
  cases op with
  | say => exact performs_restyle site _ s fun a => ⟨a.x, a.y, a.visible, _, rfl⟩
  | «show» | hide => exact performs_restyle site _ s fun a => ⟨a.x, a.y, _, a.bubble, rfl⟩

theorem performs_sensing (op : SensingOp) :
    Performs site (.sensing op) s (sensing op site args s).1 := by
  cases op with
  | resetTimer =>
    exact .one (.aside s
      ⟨⟨rfl, rfl, rfl, rfl, ⟨rfl, rfl, rfl, rfl, rfl, rfl, rfl⟩, rfl⟩, rfl, rfl,
      ⟨rfl, rfl, rfl, rfl⟩⟩)
  | askAndWait =>
    exact .one (.ask s _ rfl)
  | _ => exact .refl s

/-! ### All of them -/

/-- What a host adds has no part in built-in primitives. -/
theorem run_of_builtIn (ext : Extensions σ) (h : op.isBuiltIn = true) :
    run ext op site args s = run .empty op site args s := by
  cases op with
  | custom name => cases h
  | _ => rfl

/-- **A built-in primitive does one of these things after the other**, and then it may leave the
script. -/
theorem works_run : Works site op s (run .empty op site args s).1 := by
  cases op with
  | control op => exact works_control site args s op
  | event op => exact (performs_event site args s op).works
  | data op => exact (performs_data site args s op).works
  | operator op => exact (performs_operator site args s op).works
  | procedure op => exact (performs_procedure site args s op).works
  | motion op => exact (performs_motion site args s op).works
  | looks op => exact (performs_looks site args s op).works
  | sensing op => exact (performs_sensing site args s op).works
  | custom name => exact (Performs.refl s).works

end Primitive

end Stagecraft
