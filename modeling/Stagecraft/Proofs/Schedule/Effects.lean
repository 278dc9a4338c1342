import Stagecraft.Proofs.Schedule.Makeup
import Stagecraft.Proofs.Schedule.Phases

/-!
# What a block does

All that executing a block does is a chain of acts of three kinds. The running thread is moved and
stays the thread of its script; the world has an effect: scripts are started, threads are stopped,
clones come and go, or the threads are left alone; or an extension of the host does something. What
holds along acts holds of everything that a block does.

* `Thread.Moved` : a change of a thread that keeps its id and script and does not sit out the pass;
* `World.SameRegister` : the actors stay who they are, and nothing is noted about threads;
* `World.Effect` : what built-in primitives do with a world, said once for all of them;
* `Primitive.acts_run` : a primitive only acts;
* `Scene.acts_execute` : so does a block with its reporters.
-/

namespace Stagecraft

/-! ### Moving a thread -/

namespace Thread

/-- The thread keeps its id and its script, and it does not start to sit out the pass. -/
structure Moved (t t' : Thread) : Prop where
  id : t'.id = t.id
  actor : t'.actor = t.actor
  top : t'.top = t.top
  status : t'.status = .yieldedTick → t.status = .yieldedTick

namespace Moved

variable {t t' t'' : Thread}

theorem refl (t : Thread) : Moved t t := ⟨rfl, rfl, rfl, fun h => h⟩

theorem trans (h : Moved t t') (h' : Moved t' t'') : Moved t t'' :=
  ⟨h'.id.trans h.id, h'.actor.trans h.actor, h'.top.trans h.top, fun hs => h.status (h'.status hs)⟩

end Moved

variable (t : Thread)

theorem moved_status {st : Status} (hst : st ≠ .yieldedTick) : Moved t { t with status := st } :=
  ⟨rfl, rfl, rfl, fun h => absurd h hst⟩

theorem moved_push (h : Handle) : Moved t (t.push h) := ⟨rfl, rfl, rfl, fun h => h⟩

theorem status_modifyTop (t : Thread) (f : Frame → Frame) : (t.modifyTop f).status = t.status := by
  unfold modifyTop
  split <;> rfl

theorem moved_modifyTop (f : Frame → Frame) : Moved t (t.modifyTop f) := by
  unfold modifyTop
  split
  · exact ⟨rfl, rfl, rfl, fun h => h⟩
  · exact .refl t

theorem moved_modifyFrame (i : Nat) (f : Frame → Frame) : Moved t (t.modifyFrame i f) := by
  unfold modifyFrame
  split
  · exact ⟨rfl, rfl, rfl, fun h => h⟩
  · exact .refl t

theorem moved_retire : Moved t t.retire := ⟨rfl, rfl, rfl, fun h => by cases h⟩

theorem moved_atRest : Moved t t.atRest := by
  unfold atRest
  split
  · exact ⟨rfl, rfl, rfl, fun h => by cases h⟩
  · exact ⟨rfl, rfl, rfl, fun h => h⟩

theorem moved_stopScript (g : Graph) : Moved t (t.stopScript g) := by
  refine ⟨rfl, rfl, rfl, fun h => ?_⟩
  unfold stopScript at h
  simp only at h
  split at h
  · cases h
  · exact h

end Thread

namespace Scheduler

variable {s : Scheduler} {now : Span} {g : Graph} {t t' : Thread}

theorem Advanced.moved {r : Thread × Turn} (h : Advanced s now g t r) : t.Moved r.1 := by
  cases h with
  | empty => exact .refl t
  | next | loop => exact ⟨rfl, rfl, rfl, fun h => h⟩
  | emptied => exact ⟨rfl, rfl, rfl, fun h => by cases h⟩

/-- A thread whose turn goes on has not ended. -/
theorem Advanced.status (h : Advanced s now g t (t', .goesOn)) : t'.status = t.status := by
  cases h <;> rfl

/-- Moving on is no yield. -/
theorem Advanced.unyielding {r : Thread × Turn} (h : Advanced s now g t r)
    (ht : t.status ≠ .yielded) : r.1.status ≠ .yielded := by
  cases h with
  | empty | next | loop => exact ht
  | emptied => exact fun hst => by cases hst

end Scheduler

/-- A thread that is shifted stays in its script. -/
theorem Thread.Shift.moved {site : Site} {t t' : Thread} (h : t.Shift site t') : t.Moved t' := by
  refine h.told (P := t.Moved)
    ⟨fun ht => ?_, fun ht b => ?_, fun ht _ => ?_, fun ht p => ?_⟩ (.refl t)
  · exact ht.trans (moved_status _ (by decide))
  · exact ht.trans (moved_push _ b)
  · exact ht.trans (moved_modifyTop _ _)
  · exact ht.trans (moved_modifyFrame _ _ _)

/-! ### The register -/

/-- Who an actor is. -/
structure Role where
  /-- The id that it carries. -/
  id : ActorId
  /-- Its sprite. -/
  sprite : SpriteId
  /-- Whether it is a stage. -/
  isStage : Bool
  /-- Whether it is a clone. -/
  isClone : Bool
deriving DecidableEq

/-- Who an actor is. -/
def Actor.role (a : Actor) : Role := ⟨a.id, a.sprite, a.isStage, a.isClone⟩

namespace World

variable {σ : Type} {w w' w'' : World σ}

/-- Who the actors are. -/
def roles (w : World σ) : Table ActorId Role := w.actors.mapValues Actor.role

/-- The same actors as to who they are, the same sprites and clones, and the same faults. -/
structure SameRegister (w w' : World σ) : Prop where
  roles : w'.roles = w.roles
  sprites : w'.sprites = w.sprites
  nextActor : w'.nextActor = w.nextActor
  nextSprite : w'.nextSprite = w.nextSprite
  cloneCount : w'.cloneCount = w.cloneCount
  settings : w'.settings = w.settings
  faults : w'.faults = w.faults

namespace SameRegister

/-- The actors are left alone altogether. -/
theorem of_actors (ha : w'.actors = w.actors) (hs : w'.sprites = w.sprites)
    (hna : w'.nextActor = w.nextActor) (hns : w'.nextSprite = w.nextSprite)
    (hc : w'.cloneCount = w.cloneCount) (hset : w'.settings = w.settings)
    (hf : w'.faults = w.faults) : SameRegister w w' :=
  ⟨by rw [World.roles, World.roles, ha], hs, hna, hns, hc, hset, hf⟩

theorem refl (w : World σ) : SameRegister w w := ⟨rfl, rfl, rfl, rfl, rfl, rfl, rfl⟩

end SameRegister

theorem roles_modifyActor (w : World σ) (id : ActorId) {f : Actor → Actor}
    (hf : ∀ a, (f a).role = a.role) : (w.modifyActor id f).roles = w.roles := by
  refine Table.eq_of_entries ?_
  simp only [roles, modifyActor, Table.modify, Table.mapValues, List.map_map]
  refine List.map_congr_left fun e _ => ?_
  by_cases he : e.1 = id <;> simp [he, hf]

/-- An actor is changed and stays who it is. -/
theorem sameRegister_modifyActor (w : World σ) (id : ActorId) {f : Actor → Actor}
    (hf : ∀ a, (f a).role = a.role) : SameRegister w (w.modifyActor id f) :=
  ⟨w.roles_modifyActor id hf, rfl, rfl, rfl, rfl, rfl, rfl⟩

theorem sameRegister_lookupVariable (w : World σ) (actor : ActorId) (id : Option String)
    (name : String) (kind : VariableKind) :
    SameRegister w (w.lookupVariable actor id name kind).1 := by
  unfold lookupVariable
  split
  · exact .refl w
  · split
    · exact .refl w
    · exact w.sameRegister_modifyActor actor fun _ => rfl

theorem Offstage.sameRegister (h : w.Offstage w') : SameRegister w w' :=
  .of_actors h.cast.actors h.cast.sprites h.cast.nextActor h.cast.nextSprite h.cast.cloneCount
    h.cast.settings h.faults

/-! ### Effects on the world -/

/-- What a built-in primitive can do with a world. -/
inductive Effect {σ : Type} : World σ → World σ → Prop
  /-- Whatever leaves threads, scheduler and register alone: variables, looks, devices, prompts,
  results, notices. -/
  | tend {w w' : World σ} : w'.scheduler = w.scheduler → w'.nextThread = w.nextThread →
      w'.threads = w.threads → w'.spawned = w.spawned → w'.current = w.current →
      SameRegister w w' → Effect w w'
  | startHats (w : World σ) (hat : Opcode) (fields : List (String × String))
      (only : Option ActorId) : Effect w (w.startHats hat fields only).1
  | stopActor (w : World σ) (actor : ActorId) (keep : Option ThreadId) :
      Effect w (w.stopActor actor keep)
  | stopAll (w : World σ) : Effect w w.stopAll
  | createClone (w : World σ) (source : ActorId) : Effect w (w.createClone source).1
  | deleteClone (w : World σ) (id : ActorId) : Effect w (w.deleteClone id).1

theorem effect_lookupVariable (w : World σ) (actor : ActorId) (id : Option String) (name : String)
    (kind : VariableKind) : Effect w (w.lookupVariable actor id name kind).1 := by
  have hr := w.sameRegister_lookupVariable actor id name kind
  revert hr
  unfold lookupVariable
  split
  · exact .tend rfl rfl rfl rfl rfl
  · split <;> exact .tend rfl rfl rfl rfl rfl

end World

/-! ### Acts -/

namespace Scene

variable {σ : Type}

/-- One thing that a block does. -/
inductive Act (ext : Extensions σ) : Scene σ → Scene σ → Prop
  | thread (s : Scene σ) {t : Thread} : s.thread.Moved t → Act ext s { s with thread := t }
  | world (s : Scene σ) {w : World σ} : World.Effect s.world w → Act ext s { s with world := w }
  | extended (s : Scene σ) (site : Site) (args : Args) {name : String} {handler : Extension σ} :
      ext.get? name = some handler → Act ext s (handler site args s).1

/-- One act after the other. -/
def Acts (ext : Extensions σ) : Scene σ → Scene σ → Prop := Relation.ReflTransGen (Act ext)

namespace Acts

variable {ext : Extensions σ} {s s' s'' : Scene σ}

theorem refl (s : Scene σ) : Acts ext s s := Relation.ReflTransGen.refl

theorem trans (h : Acts ext s s') (h' : Acts ext s' s'') : Acts ext s s'' :=
  Relation.ReflTransGen.trans h h'

theorem of_thread (s : Scene σ) {t : Thread} (ht : s.thread.Moved t) :
    Acts ext s { s with thread := t } :=
  .single (.thread s ht)

theorem of_world (s : Scene σ) {w : World σ} (hw : World.Effect s.world w) :
    Acts ext s { s with world := w } :=
  .single (.world s hw)

/-- Whatever leaves the threads and the register alone. -/
theorem tend (s : Scene σ) {w : World σ} (hs : w.scheduler = s.world.scheduler)
    (hn : w.nextThread = s.world.nextThread) (ht : w.threads = s.world.threads)
    (hsp : w.spawned = s.world.spawned) (hc : w.current = s.world.current)
    (hr : s.world.SameRegister w) : Acts ext s { s with world := w } :=
  of_world s (.tend hs hn ht hsp hc hr)

end Acts

/-! ### Primitives -/

variable {ext : Extensions σ} {site : Site} {op : Opcode} {s s' : Scene σ}

/-- **All that a built-in primitive does is an act.** -/
theorem Does.acts (h : Does site op s s') : Acts ext s s' := by
  cases h with
  | shift ht => exact .of_thread s ht.moved
  | aside hw =>
    exact .tend s hw.scheduler hw.nextThread hw.threads hw.spawned hw.current hw.sameRegister
  | ask text _ => exact .tend s rfl rfl rfl rfl rfl ⟨rfl, rfl, rfl, rfl, rfl, rfl, rfl⟩
  | restyle f hf =>
    refine .tend s rfl rfl rfl rfl rfl (s.world.sameRegister_modifyActor _ fun a => ?_)
    obtain ⟨x, y, visible, bubble, he⟩ := hf a
    rw [he]
    rfl
  | lookup id name kind => exact .of_world s (s.world.effect_lookupVariable _ id name kind)
  | write id name kind f _ _ =>
    have hlookup := s.world.effect_lookupVariable s.thread.actor id name kind
    refine (Acts.of_world s hlookup).trans (.tend _ rfl rfl rfl rfl rfl ?_)
    exact World.sameRegister_modifyActor _ _ fun _ => rfl
  | request r _ => exact .tend s rfl rfl rfl rfl rfl ⟨rfl, rfl, rfl, rfl, rfl, rfl, rfl⟩
  | startHats hat fields only => exact .of_world s (.startHats s.world hat fields only)
  | stopActor => exact .of_world s (.stopActor s.world _ _)
  | createClone source _ => exact .of_world s (.createClone s.world source)
  | deleteClone _ _ _ => exact .of_world s (.deleteClone s.world _)
  | stopAll _ => exact .of_world s (.stopAll s.world)

theorem Quits.acts (h : Quits site s s') : Acts ext s s' := by
  cases h with
  | stays => exact .refl s
  | stopScript => exact .of_thread s (s.thread.moved_stopScript site.graph)
  | retire => exact .of_thread s (Thread.moved_retire _)

theorem Works.acts (h : Works site op s s') : Acts ext s s' :=
  h.along Acts.refl Acts.trans Does.acts Quits.acts

end Scene

namespace Primitive

open Scene

variable {σ : Type} {ext : Extensions σ} (site : Site) (args : Args) (s : Scene σ)

theorem acts_extended (name : String) : Acts ext s (extended ext name site args s).1 := by
  unfold extended
  split
  · exact .refl s
  · rename_i hget
    have h : Acts ext s _ := .single (.extended s site args hget)
    split <;> (rename_i he; rw [he] at h; exact h)

/-- **A primitive only acts.** -/
theorem acts_run (op : Opcode) : Acts ext s (run ext op site args s).1 := by
  cases op with
  | custom name => exact acts_extended site args s name
  | _ =>
    rw [run_of_builtIn site _ args s ext rfl]
    exact (works_run site _ args s).acts

end Primitive

/-! ### Executing a block -/

namespace Scene

variable {σ : Type} {ext : Extensions σ}

theorem acts_park (s : Scene σ) (channel : Nat) (slot : Slotting) :
    Acts ext s (s.park channel slot) :=
  .of_thread s ⟨rfl, rfl, rfl, fun h => by cases h⟩

theorem acts_remember (s : Scene σ) (frame : Nat) (h : Handle) (v : Value) :
    Acts ext s (s.remember frame h v) :=
  .of_thread s (Thread.moved_modifyFrame _ _ _)

theorem acts_forget (s : Scene σ) (frame : Nat) : Acts ext s (s.forget frame) :=
  .of_thread s (Thread.moved_modifyFrame _ _ _)

theorem acts_gather {report : Handle → Scene σ → Scene σ × Evaluation Value}
    (hreport : ∀ h s, Acts ext s (report h s).1) (inputs : List (String × Input)) :
    ∀ (done : List (String × Value)) (s : Scene σ), Acts ext s (gather report inputs done s).1 :=
  gather_induction (P := fun s r => Acts ext s r.1) (fun s _ => .refl s) (fun h s _ => hreport h s)
    (fun h s _ _ => hreport h s) (fun h s _ _ _ ih => (hreport h s).trans ih) inputs

theorem acts_settle (site : Site) (h : Handle) (op : Opcode) (e : Scene σ × Evaluation Args) :
    Acts ext e.1 (settle ext site h op e).1 := by
  obtain ⟨s, e⟩ := e
  cases e with
  | parked => exact .refl s
  | failed fault => exact .refl s
  | value args =>
    have hr : Acts ext s _ := Primitive.acts_run { site with block := h } args s op
    rw [settle]
    split
    all_goals
      rename_i he
      rw [he] at hr
    · exact hr.trans (acts_remember _ _ _ _)
    · exact hr
    · exact hr.trans (acts_park _ _ _)
    · exact hr

/-- Evaluating a reporter only acts. -/
theorem acts_report (site : Site) (room : Nat) :
    ∀ (h : Handle) (s : Scene σ), Acts ext s (report ext site room h s).1 :=
  report_induction (P := fun s r => Acts ext s r.1) (fun s _ => .refl s) (fun s _ => .refl s)
    (fun heval h _ s => (acts_gather heval _ _ s).trans (acts_settle site h _ _)) room

theorem acts_finish (site : Site) (o : Scene σ × Outcome) : Acts ext o.1 (finish site o).1 := by
  have hf : Acts ext o.1 (o.1.forget site.frame) := acts_forget _ _
  exact finish_cases (P := Acts ext o.1) (fun channel _ => acts_park _ channel _) hf
    fun _ hf => hf.trans (.of_thread _ ⟨rfl, rfl, rfl, fun h => h⟩)

/-- **Executing a block is a chain of acts.** -/
theorem acts_execute (scheduler : Scheduler) (g : Graph) (s : Scene σ) :
    Acts ext s (s.execute ext scheduler g).1 := by
  unfold execute
  split
  · exact .refl s
  · rename_i h _
    split
    · exact .refl s
    · rename_i b _
      have hg : Acts ext s _ := acts_gather (acts_report ⟨scheduler, g, h, s.thread.depth - 1⟩
        scheduler.maxReporterDepth) b.inputs.entries [] s
      simp only
      split
      all_goals
        rename_i he
        rw [he] at hg
      · exact (hg.trans (Primitive.acts_run _ _ _ _)).trans (acts_finish _ _)
      · exact hg
      · exact hg

/-! ### Getting past a block -/

theorem entered_moved (s : Scene σ) : s.thread.Moved s.entered.thread := by
  unfold entered startWarp
  simp only
  split
  · exact ⟨rfl, rfl, rfl, fun h => h⟩
  · exact .refl _

theorem stack_entered (s : Scene σ) : s.entered.thread.stack = s.thread.stack := by
  simp only [Scene.entered, startWarp]
  split <;> rfl

/-- Moving on changes the thread and nothing else. -/
theorem Proceeded.moves {k : Scheduler} {g : Graph} {top : Handle} {warp : Bool} {s s' : Scene σ}
    {turn : Turn} (h : Proceeded k g top warp s (s', turn)) :
    ∃ t, s.thread.Moved t ∧ s' = { s with thread := t } := by
  cases h with
  | yielded | empty => exact ⟨_, Thread.moved_status _ (by decide), rfl⟩
  | held | elsewhere => exact ⟨_, .refl _, rfl⟩
  | moved _ _ ha => exact ⟨_, (Scheduler.advanced_of_advance ha).moved, rfl⟩

end Scene

end Stagecraft
