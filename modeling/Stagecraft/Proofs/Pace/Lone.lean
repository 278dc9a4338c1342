import Stagecraft.Proofs.Schedule.Effects
import Stagecraft.Proofs.Pace.Timeless

/-!
# A thread on its own

While the only thread of a world executes the blocks of a plain script, it stays the only one: its
blocks start nothing and leave no event behind, nothing is asked of it, and it does not leave the
reach of its script.

* `Thread.Goes` : a change of a thread that stays in the reach of its script;
* `World.Calm` : a change of a world that touches neither threads nor programs;
* `Scene.Lone` : what holds of the only thread and its world;
* `Scene.Poised.run`, `Scene.Poised.execute` : **a plain block leaves the thread on its own**.
-/

namespace Stagecraft

/-! ### The thread -/

namespace Thread

/-- The thread is moved, its frames stay in a reach, and it is neither parked nor starts over. -/
structure Goes (S : Handle → Prop) (t t' : Thread) : Prop extends Moved t t' where
  restarting : t'.restarting = true → t.restarting = true
  parked : t'.status = .parked → t.status = .parked
  within : (∀ f ∈ t.stack, S f.block) → ∀ f ∈ t'.stack, S f.block

/-- A thread that has ended has no frames left. -/
def Spent (t : Thread) : Prop := t.status = .done → t.stack = []

variable {S : Handle → Prop} {t t' t'' : Thread}

theorem Goes.refl (t : Thread) : Goes S t t := ⟨.refl t, fun h => h, fun h => h, fun h => h⟩

theorem Goes.trans (h : Goes S t t') (h' : Goes S t' t'') : Goes S t t'' :=
  ⟨h.toMoved.trans h'.toMoved, fun hr => h.restarting (h'.restarting hr),
    fun hp => h.parked (h'.parked hp), fun hw => h'.within (h.within hw)⟩

variable (t)

theorem goes_status {st : Status} (hst : st ≠ .yieldedTick) (hp : st ≠ .parked) :
    Goes S t { t with status := st } :=
  ⟨t.moved_status hst, fun h => h, fun h => absurd h hp, fun h => h⟩

theorem goes_warpSince (since : Option Span) : Goes S t { t with warpSince := since } :=
  ⟨⟨rfl, rfl, rfl, fun h => h⟩, fun h => h, fun h => h, fun h => h⟩

theorem goes_reported (v : Option Value) : Goes S t { t with reported := v } :=
  ⟨⟨rfl, rfl, rfl, fun h => h⟩, fun h => h, fun h => h, fun h => h⟩

/-- Other frames of the reach. -/
theorem goes_stack {stack : List Frame}
    (hw : (∀ f ∈ t.stack, S f.block) → ∀ f ∈ stack, S f.block) :
    Goes S t { t with stack := stack } :=
  ⟨⟨rfl, rfl, rfl, fun h => h⟩, fun h => h, fun h => h, hw⟩

theorem goes_push {h : Handle} (hS : S h) : Goes S t (t.push h) := by
  refine t.goes_stack fun hw f hf => ?_
  rcases List.mem_cons.1 hf with rfl | hf
  · exact hS
  · exact hw f hf

theorem goes_modifyTop {f : Frame → Frame} (hf : ∀ x, (f x).block = x.block) :
    Goes S t (t.modifyTop f) := by
  unfold modifyTop
  split
  · rename_i top rest hstack
    refine t.goes_stack fun hw x hx => ?_
    rcases List.mem_cons.1 hx with rfl | hx
    · rw [hf]
      exact hw top (by simp [hstack])
    · exact hw x (by simp [hstack, hx])
  · exact .refl t

theorem goes_modifyFrame (i : Nat) {f : Frame → Frame} (hf : ∀ x, (f x).block = x.block) :
    Goes S t (t.modifyFrame i f) := by
  unfold modifyFrame
  split
  · refine t.goes_stack fun hw x hx => ?_
    obtain ⟨j, hj, rfl⟩ := List.getElem_of_mem hx
    rw [List.getElem_modify]
    split
    · rw [hf]
      exact hw _ (List.getElem_mem _)
    · exact hw _ (List.getElem_mem _)
  · exact .refl t

theorem goes_stopScript (g : Graph) : Goes S t (t.stopScript g) := by
  refine ⟨t.moved_stopScript g, fun h => h, fun h => ?_, fun hw f hf => ?_⟩
  · unfold stopScript at h
    simp only at h
    split at h
    · cases h
    · exact h
  · exact hw f ((List.dropWhile_sublist _).subset hf)

theorem goes_retire : Goes S t t.retire :=
  ⟨t.moved_retire, (nomatch ·), (nomatch ·), fun _ _ hf => absurd hf List.not_mem_nil⟩

theorem goes_enterBranch {g : Graph}
    (hbranch : ∀ h n first, S h → g.branch? h n = some first → S first) (n : Nat) (isLoop : Bool) :
    (∀ f ∈ t.stack, S f.block) → Goes S t (t.enterBranch g n isLoop) := by
  intro hw
  unfold enterBranch
  split
  · exact .refl t
  · rename_i b hb
    obtain ⟨f, hf, rfl⟩ := Option.map_eq_some_iff.1 hb
    have hmark : Goes S t (t.modifyTop fun f => { f with isLoop := isLoop }) :=
      t.goes_modifyTop fun _ => rfl
    simp only
    split
    · rename_i hfirst
      exact hmark.trans (goes_push _ (hbranch _ _ _ (hw f (List.mem_of_mem_head? hf)) hfirst))
    · split
      · exact hmark.trans (goes_status _ (by decide) (by decide))
      · exact hmark

theorem goes_bindArguments (p : Parameters) (supplied : Table String Value) :
    Goes S t (t.bindArguments p supplied) := by
  have hbind : ∀ (t : Thread) (name : String) (v : Value), Goes S t (t.bindArgument name v) :=
    fun t _ _ => t.goes_modifyTop fun _ => rfl
  have hfold : ∀ (l : List (String × Nat)) (t : Thread), Goes S t (l.foldl (fun t e =>
      t.bindArgument e.1 (argumentValue p supplied e.2)) t) := by
    intro l
    induction l with
    | nil => exact .refl
    | cons e rest ih => exact fun t => (hbind t _ _).trans (ih _)
  exact hfold _ t

end Thread

namespace Scheduler

variable {S : Handle → Prop} (s : Scheduler) (now : Span) (g : Graph) (t : Thread)

theorem goes_settleCall (warp recursive : Bool) :
    t.Goes S (s.settleCall now t warp recursive) := by
  unfold settleCall
  split
  · exact t.goes_status (by decide) (by decide)
  · split
    · exact t.goes_modifyTop fun _ => rfl
    · split
      · exact t.goes_status (by decide) (by decide)
      · exact .refl t

theorem goes_enterProcedure {code : String} (supplied : Table String Value)
    (hS : ∀ definition, g.definition? code = some definition → S definition) :
    t.Goes S (s.enterProcedure now g t code supplied).1 := by
  unfold enterProcedure
  split
  · exact .refl t
  · rename_i definition hdefinition
    split
    · exact .refl t
    · have hbody : t.Goes S (t.push definition).initArguments :=
        (t.goes_push (hS definition hdefinition)).trans (Thread.goes_modifyTop _ fun _ => rfl)
      simp only
      split
      · exact (hbody.trans (Thread.goes_bindArguments _ _ _)).trans (s.goes_settleCall _ _ _ _)
      · exact hbody.trans (s.goes_settleCall _ _ _ _)

variable {s now g t}

/-- Moving past a block leads to its successor, or below. -/
theorem Advanced.goes {r : Thread × Turn} (h : Advanced s now g t r)
    (hnext : ∀ h n, S h → g.next? h = some n → S n) (hw : ∀ f ∈ t.stack, S f.block) :
    t.Goes S r.1 := by
  cases h with
  | empty => exact .refl t
  | next hsuffix hn =>
    refine t.goes_stack fun _ x hx => ?_
    rcases List.mem_cons.1 hx with rfl | hx
    · exact hnext _ _ (hw _ (hsuffix.subset List.mem_cons_self)) hn
    · exact hw x (hsuffix.subset (List.mem_cons_of_mem _ hx))
  | loop hsuffix =>
    exact t.goes_stack fun _ x hx => hw x (List.mem_of_mem_tail (hsuffix.subset hx))
  | emptied =>
    exact ⟨⟨rfl, rfl, rfl, (nomatch ·)⟩, fun h => h, (nomatch ·),
      fun _ _ hf => absurd hf List.not_mem_nil⟩

end Scheduler

/-! ### The world -/

namespace World

variable {σ : Type} {w w' w'' : World σ}

/-- Threads, events, settings and programs are as before. -/
structure Calm (w w' : World σ) : Prop where
  settings : w'.settings = w.settings
  scheduler : w'.scheduler = w.scheduler
  threads : w'.threads = w.threads
  spawned : w'.spawned = w.spawned
  events : w'.events = w.events
  current : w'.current = w.current
  graph : ∀ id, w'.graph? id = w.graph? id

theorem Calm.refl (w : World σ) : Calm w w := ⟨rfl, rfl, rfl, rfl, rfl, rfl, fun _ => rfl⟩

theorem Calm.trans (h : Calm w w') (h' : Calm w' w'') : Calm w w'' :=
  ⟨h'.settings.trans h.settings, h'.scheduler.trans h.scheduler, h'.threads.trans h.threads,
    h'.spawned.trans h.spawned, h'.events.trans h.events, h'.current.trans h.current,
    fun id => (h'.graph id).trans (h.graph id)⟩

/-- An actor keeps its sprite, whatever else is changed about it. -/
theorem calm_modifyActor (w : World σ) (id : ActorId) {f : Actor → Actor}
    (hf : ∀ a, (f a).sprite = a.sprite) : Calm w (w.modifyActor id f) := by
  refine ⟨rfl, rfl, rfl, rfl, rfl, rfl, fun id' => ?_⟩
  simp only [graph?, actor?, modifyActor, Table.get?_modify]
  split
  · cases w.actors.get? id' with
    | none => rfl
    | some a => simp only [Option.map_some, Option.bind_some, hf]
  · rfl

theorem calm_lookupVariable (w : World σ) (actor : ActorId) (id : Option String) (name : String)
    (kind : VariableKind) : Calm w (w.lookupVariable actor id name kind).1 := by
  unfold lookupVariable
  split
  · exact .refl w
  · split
    · exact .refl w
    · exact calm_modifyActor w _ fun _ => rfl

end World

/-! ### The scene -/

namespace Scene

variable {σ : Type} {c : Settings} {g : Graph} {top : Handle} {s : Scene σ}

/-- The thread is the only one of its world and has its turn; nothing is asked of it and nothing
waits for the end of the pass. -/
structure Lone (c : Settings) (g : Graph) (top : Handle) (s : Scene σ) : Prop where
  settings : s.world.settings = c
  scheduler : s.world.scheduler = none
  threads : s.world.threads = [.absent]
  spawned : s.world.spawned = []
  events : s.world.events = .empty
  current : s.world.current = some ⟨s.thread.id, s.thread.actor, s.thread.top, false, false⟩
  graph : s.world.graph? s.thread.actor = some g
  within : ∀ f ∈ s.thread.stack, g.Within top f.block
  awake : s.thread.status ≠ .parked ∧ s.thread.status ≠ .yieldedTick
  steady : s.thread.restarting = false

/-- It is on its own, and if it has ended it has no frames left. -/
structure Poised (c : Settings) (g : Graph) (top : Handle) (s : Scene σ) : Prop
    extends Lone c g top s where
  spent : s.thread.Spent

theorem Lone.goes (h : Lone c g top s) {t : Thread} (ht : s.thread.Goes (g.Within top) t) :
    Lone c g top { s with thread := t } where
  settings := h.settings
  scheduler := h.scheduler
  threads := h.threads
  spawned := h.spawned
  events := h.events
  current := by simpa only [ht.id, ht.actor, ht.top] using h.current
  graph := by simpa only [ht.actor] using h.graph
  within := ht.within h.within
  awake := ⟨fun hp => h.awake.1 (ht.parked hp), fun hy => h.awake.2 (ht.status hy)⟩
  steady := Bool.eq_false_iff.2 fun hr => Bool.eq_false_iff.1 h.steady (ht.restarting hr)

theorem Lone.calm (h : Lone c g top s) {w : World σ} (hw : World.Calm s.world w) :
    Lone c g top { s with world := w } where
  settings := hw.settings.trans h.settings
  scheduler := hw.scheduler.trans h.scheduler
  threads := hw.threads.trans h.threads
  spawned := hw.spawned.trans h.spawned
  events := hw.events.trans h.events
  current := hw.current.trans h.current
  graph := (hw.graph _).trans h.graph
  within := h.within
  awake := h.awake
  steady := h.steady

theorem Lone.modifyFrame (h : Lone c g top s) (i : Nat) {f : Frame → Frame}
    (hf : ∀ x, (f x).block = x.block) :
    Lone c g top { s with thread := s.thread.modifyFrame i f } :=
  h.goes (s.thread.goes_modifyFrame i hf)

namespace Poised

theorem goes (h : Poised c g top s) {t : Thread} (ht : s.thread.Goes (g.Within top) t)
    (hspent : t.Spent) : Poised c g top { s with thread := t } :=
  ⟨h.toLone.goes ht, hspent⟩

theorem calm (h : Poised c g top s) {w : World σ} (hw : World.Calm s.world w) :
    Poised c g top { s with world := w } :=
  ⟨h.toLone.calm hw, h.spent⟩

/-- Whatever is changed in the frame that executes the block, but for the block. -/
theorem modifyFrame (h : Poised c g top s) (i : Nat) {f : Frame → Frame}
    (hf : ∀ x, (f x).block = x.block) :
    Poised c g top { s with thread := s.thread.modifyFrame i f } := by
  refine ⟨h.toLone.modifyFrame i hf, ?_⟩
  unfold Thread.modifyFrame Thread.Spent
  split
  · intro hd
    simp [h.spent hd]
  · exact h.spent

theorem keep (h : Poised c g top s) (site : Site) (p : Progress) :
    Poised c g top (s.keep site p) := h.modifyFrame _ fun _ => rfl

theorem yield (h : Poised c g top s) : Poised c g top s.yield :=
  h.goes (s.thread.goes_status (by decide) (by decide)) fun hd => nomatch hd

theorem startBranch (h : Poised c g top s) {site : Site} (hsite : site.graph = g) (n : Nat)
    (isLoop : Bool) : Poised c g top (s.startBranch site n isLoop) := by
  subst hsite
  refine h.goes (Thread.goes_enterBranch _ (fun _ _ _ hw hb => hw.branch hb) n isLoop h.within) ?_
  unfold Thread.enterBranch Thread.Spent
  split
  · exact h.spent
  · rename_i b hb
    -- the thread has a frame, so it has not ended
    have hlive : s.thread.status ≠ .done := by
      intro hd
      simp [Thread.topBlock?, h.spent hd] at hb
    have hmark : (s.thread.modifyTop fun f => { f with isLoop := isLoop }).status =
        s.thread.status := by
      unfold Thread.modifyTop
      split <;> rfl
    simp only
    split
    · exact fun hd => absurd (hmark.symm.trans hd) hlive
    · split
      · intro hd
        cases hd
      · exact fun hd => absurd (hmark.symm.trans hd) hlive

theorem requestRedraw (h : Poised c g top s) : Poised c g top s.requestRedraw :=
  h.calm ⟨rfl, rfl, rfl, rfl, rfl, rfl, fun _ => rfl⟩

theorem modifyActor (h : Poised c g top s) {f : Actor → Actor}
    (hf : ∀ a, (f a).sprite = a.sprite) : Poised c g top (s.modifyActor f) :=
  h.calm (World.calm_modifyActor _ _ hf)

/-! ### Primitives -/

open Primitive

variable {site : Site} {args : Args}

theorem loopIf (h : Poised c g top s) (hsite : site.graph = g) (condition : Bool) :
    Poised c g top (loopIf condition site s) := by
  unfold Primitive.loopIf
  split
  · exact h.startBranch hsite 1 true
  · exact h

theorem repeatTimes (h : Poised c g top s) (hsite : site.graph = g) :
    Poised c g top (repeatTimes site args s) := by
  unfold Primitive.repeatTimes
  split
  · exact h
  · exact (h.keep site _).loopIf hsite _

theorem modifyTop (h : Poised c g top s) {f : Frame → Frame} (hf : ∀ x, (f x).block = x.block) :
    Poised c g top { s with thread := s.thread.modifyTop f } := by
  refine h.goes (s.thread.goes_modifyTop hf) ?_
  unfold Thread.modifyTop Thread.Spent
  split
  · rename_i hstack
    exact fun hd => absurd (h.spent hd) (by simp [hstack])
  · exact h.spent

theorem allAtOnce (h : Poised c g top s) (hsite : site.graph = g) :
    Poised c g top (allAtOnce site s) := by
  have hbranch := h.startBranch hsite 1 false
  unfold Primitive.allAtOnce
  simp only
  split
  · exact hbranch
  · exact hbranch.modifyTop fun _ => rfl

/-- There are no other threads to stop. -/
theorem stopOthers (h : Poised c g top s) :
    Poised c g top
      { s with world := s.world.stopActor s.thread.actor (some s.thread.id) } := by
  have hpass : s.world.inPass = true := by rw [World.inPass, h.scheduler]; rfl
  have hthreads : s.world.threads.map (fun t => if t.actor = s.thread.actor &&
      some t.id ≠ some s.thread.id then t.retire else t) = s.world.threads := by
    rw [h.threads, List.map_singleton]
    split <;> rfl
  refine h.calm ?_
  rw [World.stopActor, World.dropFinished, if_pos]
  · refine ⟨rfl, rfl, hthreads, ?_, rfl, ?_, fun _ => rfl⟩
    · simp [World.retireCurrent, World.mapThreads, h.spawned]
    · simp [World.retireCurrent, World.mapThreads, h.current]
  · exact hpass

/-- Stopping everything is the one option that is left out. -/
theorem stop (h : Poised c g top s) (hoption : (site.field? "STOP_OPTION").getD "all" ≠ "all") :
    Poised c g top (stop site s) := by
  unfold Primitive.stop
  split
  · rename_i hall
    exact absurd hall hoption
  · refine h.goes (s.thread.goes_stopScript site.graph) ?_
    unfold Thread.stopScript Thread.Spent
    simp only
    split
    · rename_i hempty
      exact fun _ => List.isEmpty_iff.1 hempty
    · intro hd
      simp [h.spent hd, Thread.toCall]
  · exact h.stopOthers
  · exact h.stopOthers
  · exact h

theorem lookup (h : Poised c g top s) (site : Site) (field : String) (kind : VariableKind) :
    Poised c g top (lookup site s field kind).1 :=
  h.calm (World.calm_lookupVariable _ _ _ _ _)

theorem readVariable (h : Poised c g top s) : Poised c g top (readVariable site s).1 := by
  unfold Primitive.readVariable
  simp only
  split <;> exact h.lookup site _ _

theorem writeVariable (h : Poised c g top s) (update : Value → Value) :
    Poised c g top (writeVariable site s update) := by
  have hfound := h.lookup site "VARIABLE" .scalar
  unfold Primitive.writeVariable
  simp only
  split
  · exact hfound
  · split
    · exact hfound
    · rename_i place _ _ v _
      refine hfound.calm ?_
      have hset := World.calm_modifyActor (Primitive.lookup site s "VARIABLE" .scalar).1.world
        place.1 (f := fun a => { a with vars := a.vars.modify place.2 (·.set (update v.get)) })
        fun _ => rfl
      split
      · exact hset.trans ⟨rfl, rfl, rfl, rfl, rfl, rfl, fun _ => rfl⟩
      · exact hset

theorem editList (h : Poised c g top s) (f : List Value → List Value) :
    Poised c g top (editList site s f) := by
  have hfound := h.lookup site "LIST" .list
  unfold Primitive.editList
  simp only
  split
  · exact hfound.calm (World.calm_modifyActor _ _ fun _ => rfl)
  · exact hfound

theorem draw (h : Poised c g top s) : Poised c g top (draw s).1 :=
  h.calm ⟨rfl, rfl, rfl, rfl, rfl, rfl, fun _ => rfl⟩

theorem data (h : Poised c g top s) (op : DataOp) : Poised c g top (data op site args s).1 := by
  unfold Primitive.data
  cases op with
  | setVariable | changeVariable =>
    simp only
    exact h.writeVariable _
  | addToList | deleteAllOfList => exact h.editList _
  | deleteOfList | insertAtList | replaceItemOfList => exact h.draw.editList _
  | itemOfList => exact h.draw.lookup site _ _
  | listContents | lengthOfList | listContainsItem => exact h.lookup site _ _
  | _ => exact h.readVariable

theorem moveTo (h : Poised c g top s) (path : Float → Float → Float × Float) :
    Poised c g top (moveTo s path) := by
  unfold Primitive.moveTo
  split
  · exact h
  · rename_i a _
    have hmoved : Poised c g top (s.modifyActor (·.setXY (path a.x a.y).1 (path a.x a.y).2)) :=
      h.modifyActor fun _ => rfl
    simp only
    split
    · exact hmoved.requestRedraw
    · exact hmoved

theorem restyle (h : Poised c g top s) {f : Actor → Actor}
    (hf : ∀ a, (f a).sprite = a.sprite) : Poised c g top (restyle s f) := by
  unfold Primitive.restyle
  split
  · exact h
  · exact (h.modifyActor hf).requestRedraw

theorem control (h : Poised c g top s) (hsite : site.graph = g) {b : Block} {op : ControlOp}
    (hb : site.block? = some b) (hop : b.opcode = .control op) (hplain : b.isPlain = true) :
    Poised c g top (control op site args s).1 := by
  rw [Block.isPlain, hop] at hplain
  cases op with
  | forever => exact h.startBranch hsite 1 true
  | repeatTimes => exact h.repeatTimes hsite
  | repeatUntil | whileTrue => exact h.loopIf hsite _
  | ifThen =>
    unfold Primitive.control
    simp only
    split
    · exact h.startBranch hsite 1 false
    · exact h
  | ifElse => exact h.startBranch hsite _ false
  | waitUntil =>
    unfold Primitive.control
    simp only
    split
    · exact h
    · exact h.yield
  | stop =>
    refine h.stop ?_
    rw [Site.field?, hb]
    simpa using hplain
  | allAtOnce => exact h.allAtOnce hsite
  | createCloneOfMenu | startAsClone => exact h
  | wait | createCloneOf | deleteThisClone => cases hplain

theorem motion (h : Poised c g top s) (op : MotionOp) : Poised c g top (motion op args s).1 := by
  unfold Primitive.motion
  cases op with
  | xPosition | yPosition => exact h
  | _ =>
    simp only
    exact h.moveTo _

theorem looks (h : Poised c g top s) (op : LooksOp) : Poised c g top (looks op args s).1 := by
  cases op <;> exact h.restyle fun _ => rfl

/-- **A plain block other than a call leaves the thread on its own.** -/
theorem run (h : Poised c g top s) (site : Site) (args : Args) (hsite : site.graph = g) {b : Block}
    (hb : site.block? = some b) (hplain : b.isPlain = true) (hcall : b.opcode ≠ .procedure .call) :
    Poised c g top (run .empty b.opcode site args s).1 := by
  cases hop : b.opcode with
  | control op => exact h.control hsite hb hop hplain
  | data op => exact h.data op
  | motion op => exact h.motion op
  | looks op => exact h.looks op
  | custom name => exact h
  | event op =>
    rw [Block.isPlain, hop] at hplain
    cases op with
    | broadcast | broadcastAndWait => cases hplain
    | _ => exact h
  | operator op =>
    cases op with
    | random => exact h.draw
    | _ => exact h
  | procedure op =>
    cases op with
    | call => exact absurd hop hcall
    | _ => exact h
  | sensing op =>
    rw [Block.isPlain, hop] at hplain
    cases op with
    | timer | askAndWait => cases hplain
    | resetTimer => exact h.calm ⟨rfl, rfl, rfl, rfl, rfl, rfl, fun _ => rfl⟩
    | _ => exact h

end Poised

/-- A plain block gives its result at once. -/
theorem answer_run {b : Block} (hplain : b.isPlain = true) (site : Site) (args : Args)
    (s : Scene σ) (channel : Nat) :
    (Primitive.run .empty b.opcode site args s).2 ≠ .deferred channel := by
  intro he
  cases hop : b.opcode with
  | control op => cases op <;> (rw [hop] at he; cases he)
  | event op => cases op <;> (rw [hop] at he; cases he)
  | data op => cases op <;> (rw [hop] at he; cases he)
  | operator op => cases op <;> (rw [hop] at he; cases he)
  | procedure op => cases op <;> (rw [hop] at he; cases he)
  | motion op => cases op <;> (rw [hop] at he; cases he)
  | looks op => cases op <;> (rw [hop] at he; cases he)
  | custom name => rw [hop] at he; cases he
  | sensing op =>
    rw [Block.isPlain, hop] at hplain
    cases op with
    | timer | askAndWait => cases hplain
    | _ => rw [hop] at he; cases he

end Scene

end Stagecraft
