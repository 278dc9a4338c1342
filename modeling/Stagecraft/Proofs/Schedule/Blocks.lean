import Stagecraft.Proofs.Schedule.Lifecycle
import Stagecraft.Proofs.Schedule.Timeline

/-!
# The primitive of a block

Executing a block evaluates its inputs and then runs its own primitive, unless a reporter fails or
has to be waited for. Where reporters leave the running thread alone, all that the inputs do to it
is that its top frame remembers what they gave. So the primitive finds the thread as it was, and
what it does to it is all that the block does.

* `Execution.call?` : the primitive of the block that is executed, if it is run;
* `Graph.PlugsValues` : only blocks that leave the running thread alone stand in inputs;
* `Execution.goes` : **how a block comes out**;
* `Execution.MovesPast` : the thread moves past the block.
-/

namespace Stagecraft

/-! ### Blocks in inputs -/

/-- The primitive of an operation leaves the running thread alone. -/
def Extensions.Spares {σ : Type} (ext : Extensions σ) (op : Opcode) : Prop :=
  ∀ (site : Site) (args : Args) (s : Scene σ),
    (Primitive.run ext op site args s).1.thread = s.thread

/-- Only blocks that leave the running thread alone stand in inputs. -/
def Graph.PlugsValues {σ : Type} (g : Graph) (ext : Extensions σ) : Prop :=
  ∀ h b, g.Plugs h → g.get? h = some b → ext.Spares b.opcode

/-- A block that reports a value leaves the running thread alone. -/
theorem Extensions.spares_of_fitsInput {σ : Type} (ext : Extensions σ) {op : Opcode}
    (hb : op.isBuiltIn = true) (h : op.fitsInput = true) : ext.Spares op := by
  intro site args s
  rw [Primitive.run_of_builtIn site op args s ext hb]
  exact Primitive.thread_run_of_fitsInput site args s h

/-- So only reporters need to stand in inputs, and those of the host need to leave the thread
alone. -/
theorem Graph.PlugsReporters.plugsValues {σ : Type} {g : Graph} {ext : Extensions σ}
    (hg : g.PlugsReporters)
    (hext : ∀ name, ext.Spares (.custom name)) : g.PlugsValues ext := by
  intro h b hp hb
  cases hop : b.opcode with
  | custom name => exact hext name
  | _ => exact hop ▸ ext.spares_of_fitsInput (by rw [hop]; rfl) (hg h b hp hb)

theorem Extensions.spares_empty {σ : Type} (name : String) :
    Extensions.Spares (.empty : Extensions σ) (.custom name) := fun _ _ _ => rfl

namespace Thread

variable {t : Thread} {f : Frame} {below : List Frame}

/-- A frame is found by what is below it. -/
theorem modifyFrame_append (above : List Frame) (hs : t.stack = above ++ f :: below)
    (F : Frame → Frame) :
    t.modifyFrame below.length F = { t with stack := above ++ F f :: below } := by
  have hlen : below.length < t.stack.length := by
    rw [hs, List.length_append, List.length_cons]
    omega
  have hplace : t.stack.length - 1 - below.length = above.length := by
    rw [hs, List.length_append, List.length_cons]
    omega
  rw [modifyFrame, if_pos hlen, hplace, hs]
  simp [List.modify_eq_take_cons_drop]

/-- The frame that executes a block is the top one. -/
theorem modifyFrame_top (hs : t.stack = f :: below) (F : Frame → Frame) :
    t.modifyFrame below.length F = { t with stack := F f :: below } :=
  modifyFrame_append [] hs F

theorem frameAt?_top (hs : t.stack = f :: below) : t.frameAt? below.length = some f := by
  simp [frameAt?, hs]

theorem topBlock?_eq (hs : t.stack = f :: below) : t.topBlock? = some f.block := by
  rw [topBlock?, hs]
  rfl

end Thread

namespace Scene

variable {σ : Type} {ext : Extensions σ} {site : Site} {s s' : Scene σ} {l : List (Invocation σ)}
  {f : Frame} {below : List Frame}

/-- **Inputs leave the thread alone**, but for what its top frame remembers. -/
theorem Evaluates.spares (h : Evaluates ext site s l s') (hg : site.graph.PlugsValues ext)
    (hframe : site.frame = below.length) (hs : s.thread.stack = f :: below) :
    ∃ memo, s'.thread = { s.thread with stack := { f with reported := memo } :: below } := by
  induction h with
  | nil =>
    refine ⟨f.reported, ?_⟩
    rw [show ({ f with reported := f.reported } : Frame) = f from rfl, ← hs]
  | remember h v _ ih =>
    obtain ⟨memo, hthread⟩ := ih
    refine ⟨memo.insert h v, ?_⟩
    rw [Scene.remember, hframe, Thread.modifyFrame_top (by rw [hthread]), hthread]
  | @report _ i _ hi hp ih =>
    obtain ⟨memo, hthread⟩ := ih
    obtain ⟨b, hb, hop⟩ := hi.opcode
    exact ⟨memo, (hop ▸ hg _ b hp hb i.site i.args i.before).trans hthread⟩

/-- Inputs without reporters have their values at once. -/
theorem gather_of_plain (report : Handle → Scene σ → Scene σ × Evaluation Value)
    (calls : Handle → Scene σ → List (Invocation σ)) (inputs : List (String × Input))
    (h : plugged inputs = []) : ∀ (done : List (String × Value)) (s : Scene σ),
      ∃ args, gather report inputs done s = (s, .value args) ∧
        gatherCalls report calls inputs s = [] := by
  induction inputs with
  | nil => exact fun done s => ⟨_, rfl, rfl⟩
  | cons e rest ih =>
    intro done s
    obtain ⟨name, input⟩ := e
    cases input with
    | literal v => exact ih h _ s
    | branch b => exact ih h _ s
    | reporter b => cases h

end Scene

namespace Execution

open Scene Thread

variable {σ : Type} (e : Execution σ)

/-! ### What is run -/

/-- The scene in which the block is executed: time has passed. -/
def entered : Scene σ := e.scene.entered

/-- Where a block is executed. -/
def site (h : Handle) : Site := siteAt e.scheduler.countBlock e.graph e.entered h

/-- The primitives that are run: those of reporters, and the block's own if it comes to that. -/
def calls : List (Invocation σ) := e.entered.invocations e.ext e.scheduler.countBlock e.graph

/-- The inputs of the block. -/
def gathered (h : Handle) (b : Block) : Scene σ × Evaluation Args :=
  gather (report e.ext (e.site h) e.scheduler.countBlock.maxReporterDepth) b.inputs.entries []
    e.entered

/-- The primitive of the block itself, if it is run. -/
def call? : Option (Invocation σ) :=
  e.thread.topBlock?.bind fun h => (e.graph.get? h).bind fun b =>
    (ownCall (e.site h) h b.opcode (e.gathered h b)).head?

/-- How executing the block comes out. -/
def executed : Scene σ × Option Fault :=
  e.entered.execute e.ext e.scheduler.countBlock e.graph

/-- What executing the block on the top frame does, with what its inputs run and its own primitive,
if that is run. -/
inductive Goes (f : Frame) : List (Invocation σ) → Option (Invocation σ) →
    Scene σ × Option Fault → Prop
  /-- The block is gone. -/
  | gone : e.graph.get? f.block = none → Goes f [] none (e.entered, none)
  /-- A reporter failed. -/
  | failed {l : List (Invocation σ)} {s : Scene σ} (fault : Fault) :
      Evaluates e.ext (e.site f.block) e.entered l s → Goes f l none (s, some fault)
  /-- A reporter has to be waited for. -/
  | parked {l : List (Invocation σ)} {s : Scene σ} (channel : Nat) (h : Handle) :
      Evaluates e.ext (e.site f.block) e.entered l s →
      Goes f l none (s.park channel (.reporter h), none)
  /-- The primitive was run. -/
  | ran {l : List (Invocation σ)} {i : Invocation σ} {b : Block} :
      Evaluates e.ext (e.site f.block) e.entered l i.before → i.site = e.site f.block →
      e.graph.get? f.block = some b → b.opcode = i.opcode →
      Goes f l (some i) (finish (e.site f.block) (i.result e.ext))

variable {e} {f : Frame} {below : List Frame}

theorem stack_entered (hs : e.thread.stack = f :: below) : e.entered.thread.stack = f :: below :=
  (e.scene.stack_entered).trans hs

theorem status_entered (e : Execution σ) : e.entered.thread.status = e.thread.status := by
  change (startWarp e.scene.world.elapse.now e.scene.thread).status = e.scene.thread.status
  unfold startWarp
  split <;> rfl

theorem frame_site (hs : e.thread.stack = f :: below) (h : Handle) :
    (e.site h).frame = below.length := by
  rw [site, siteAt, depth, stack_entered hs]
  rfl

/-- **How a block comes out.** -/
theorem goes (hs : e.thread.stack = f :: below) :
    ∃ l, e.calls = l ++ e.call?.toList ∧ e.Goes f l e.call? e.executed := by
  have htop : e.entered.thread.topBlock? = some f.block := topBlock?_eq (stack_entered hs)
  have htop' : e.thread.topBlock? = some f.block := topBlock?_eq hs
  simp only [calls, call?, executed, invocations, execute, htop, htop', Option.bind_some]
  cases hb : e.graph.get? f.block with
  | none => exact ⟨[], rfl, .gone hb⟩
  | some b =>
    have hreport : ∀ c ∈ plugged b.inputs.entries, ∀ s' : Scene σ,
        Comes e.ext (e.site f.block) s'
          (reportCalls e.ext (e.site f.block) e.scheduler.countBlock.maxReporterDepth c s')
          (report e.ext (e.site f.block) e.scheduler.countBlock.maxReporterDepth c s') :=
      fun c hc => comes_report _ _ c ⟨f.block, b, hb, hc⟩
    have hg : Comes e.ext (e.site f.block) e.entered _ (e.gathered f.block b) :=
      comes_gather b.inputs.entries hreport [] e.entered
    have hgather : gather (report e.ext ⟨e.scheduler.countBlock, e.graph, f.block,
        e.entered.thread.depth - 1⟩ e.scheduler.countBlock.maxReporterDepth) b.inputs.entries []
        e.entered = e.gathered f.block b := rfl
    simp only [Option.bind_some, siteAt, hgather]
    rcases he : e.gathered f.block b with ⟨s, r⟩
    rw [he] at hg
    cases r with
    | value args => exact ⟨_, rfl, .ran (i := ⟨e.site f.block, b.opcode, args, s⟩) hg rfl hb rfl⟩
    | parked =>
      obtain ⟨s, channel, h, hg, rfl⟩ := hg
      exact ⟨_, rfl, .parked channel h hg⟩
    | failed fault => exact ⟨_, rfl, .failed fault hg⟩

/-- The primitive of the block on the top frame was run. -/
structure Ran (e : Execution σ) (f : Frame) (i : Invocation σ) : Prop where
  inputs : ∃ l, e.calls = l ++ [i] ∧ Evaluates e.ext (e.site f.block) e.entered l i.before
  site : i.site = e.site f.block
  opcode : e.graph.opcode? f.block = some i.opcode
  executed : e.executed = finish (e.site f.block) (i.result e.ext)

theorem ran_of_call {i : Invocation σ} (hs : e.thread.stack = f :: below)
    (hcall : e.call? = some i) : e.Ran f i := by
  obtain ⟨l, hcalls, hgoes⟩ := goes hs
  rw [hcall] at hcalls hgoes
  generalize hx : e.executed = r at hgoes
  cases hgoes with
  | ran he hsite hb hop =>
    exact ⟨⟨l, hcalls, he⟩, hsite, by rw [Graph.opcode?, hb, Option.map_some, hop], hx⟩

/-- The primitive finds the thread as it was, but for what its top frame remembers. -/
theorem Ran.before {i : Invocation σ} (h : e.Ran f i) (hs : e.thread.stack = f :: below)
    (hg : e.graph.PlugsValues e.ext) : ∃ memo,
      i.before.thread =
        { e.entered.thread with stack := { f with reported := memo } :: below } := by
  obtain ⟨l, -, he⟩ := h.inputs
  exact he.spares hg (frame_site hs _) (stack_entered hs)

/-- A block without reporters in its inputs runs its own primitive only. -/
theorem calls_of_plain {b : Block} (hs : e.thread.stack = f :: below)
    (hb : e.graph.get? f.block = some b) (hplain : plugged b.inputs.entries = []) :
    ∃ i, e.call? = some i ∧ e.calls = [i] ∧ i.before = e.entered := by
  have htop : e.entered.thread.topBlock? = some f.block := topBlock?_eq (stack_entered hs)
  have htop' : e.thread.topBlock? = some f.block := topBlock?_eq hs
  obtain ⟨args, hvalue, hnone⟩ := gather_of_plain
    (report e.ext (e.site f.block) e.scheduler.countBlock.maxReporterDepth)
    (reportCalls e.ext (e.site f.block) e.scheduler.countBlock.maxReporterDepth)
    b.inputs.entries hplain [] e.entered
  have hgathered : e.gathered f.block b = (e.entered, .value args) := hvalue
  refine ⟨⟨e.site f.block, b.opcode, args, e.entered⟩, ?_, ?_, rfl⟩
  · rw [call?, htop', Option.bind_some, hb, Option.bind_some, hgathered]
    rfl
  · rw [calls, invocations, htop]
    simp only [hb]
    change gatherCalls (report e.ext (e.site f.block) _) (reportCalls e.ext (e.site f.block) _)
        b.inputs.entries e.entered ++
      ownCall (e.site f.block) f.block b.opcode (e.gathered f.block b) = _
    rw [hnone, hgathered]
    rfl

/-! ### What follows it -/

theorem after_eq (e : Execution σ) {top : Handle}
    (htop : e.thread.topBlock? = some top) : e.after =
      match e.executed with
      | (s, some fault) =>
        (e.scheduler.countBlock, s.fault (match e.graph.opcode? top with
          | some op => op.name
          | none => "") fault, .ends)
      | (s, none) =>
        match s.obey with
        | (s, true) => (e.scheduler.countBlock, s, .ends)
        | (s, false) => (e.scheduler.countBlock,
            s.proceed e.scheduler.countBlock e.graph top (Scheduler.inWarp e.thread)) := by
  have htop' : e.scene.thread.topBlock? = some top := htop
  rw [after, stepBlock, htop']
  rfl

/-- A fault ends the thread. -/
theorem after_of_fault {s : Scene σ} {fault : Fault} (hs : e.thread.stack = f :: below)
    (h : e.executed = (s, some fault)) :
    ∃ opcode, e.after = (e.scheduler.countBlock, s.fault opcode fault, .ends) := by
  rw [e.after_eq (topBlock?_eq hs), h]
  exact ⟨_, rfl⟩

/-- Something was asked of the thread meanwhile. -/
theorem after_of_obeyed {s s' : Scene σ} (hs : e.thread.stack = f :: below)
    (h : e.executed = (s, none)) (ho : s.obey = (s', true)) :
    e.after = (e.scheduler.countBlock, s', .ends) := by
  rw [e.after_eq (topBlock?_eq hs), h]
  simp only [ho]

/-- The thread moves on. -/
theorem after_of_moved {s : Scene σ} (hs : e.thread.stack = f :: below)
    (h : e.executed = (s, none)) (ho : s.obey = (s, false)) :
    e.after =
      (e.scheduler.countBlock, s.proceed e.scheduler.countBlock e.graph f.block f.warp) := by
  rw [e.after_eq (topBlock?_eq hs), h]
  simp only [ho, Scheduler.inWarp, hs]

theorem proceeded_after {s : Scene σ} (hs : e.thread.stack = f :: below)
    (h : e.executed = (s, none)) (ho : s.obey = (s, false)) :
    Proceeded e.scheduler.countBlock e.graph f.block f.warp s e.after.2 := by
  rw [after_of_moved hs h ho]
  exact proceeded_of_proceed rfl

theorem obey_of_unasked {s : Scene σ} (h : s.obey.2 = false) : s.obey = (s, false) := by
  rcases ho : s.obey with ⟨s', asked⟩
  rw [ho] at h
  cases h
  rw [obey_fst_of_false ho]

/-- The thread moves past the block in the same turn, unless something was asked of it meanwhile. -/
def MovesPast (e : Execution σ) : Prop :=
  e.executed.1.obey.2 = false →
    let r := e.scheduler.countBlock.advance e.executed.1.world.now e.graph e.executed.1.thread
    e.after = (e.scheduler.countBlock, { e.executed.1 with thread := r.1 }, r.2)

/-- It does when the block is still on top. -/
theorem movesPast_of_executed {s : Scene σ} (hs : e.thread.stack = f :: below)
    (hx : e.executed = (s, none)) (hst : s.thread.status = .running)
    (htop : s.thread.topBlock? = some f.block) : e.MovesPast := by
  intro hasked
  rw [hx] at hasked ⊢
  have hne : s.thread.stack.isEmpty = false := by
    cases he : s.thread.stack with
    | nil => simp [topBlock?, he] at htop
    | cons x xs => rfl
  rw [after_of_moved hs hx (obey_of_unasked hasked), proceed, hst]
  simp only [hne, htop, Bool.false_eq_true, if_false, if_true]

end Execution

end Stagecraft
