import Stagecraft.Schedule.Execute
import Stagecraft.Proofs.Report.Order

/-!
# Invocations of reporters

While the inputs of a block are evaluated, primitives of reporters are run. Which ones, with which
inputs and in which scenes, can be read off the evaluation; and from the values that they gave, it
can be read off what each of them and the block itself are given.

* `Attempt.calls` : the invocations that executing a block makes before its own primitive is run;
* `Graph.reading` : the inputs of a block, read from invocations and their values;
* `Graph.Fed` : an invocation was given what the ones before it gave.
-/

namespace Stagecraft

/-! ### Invocations -/

/-- A primitive that is run for the value of a reporter. -/
structure Invocation (σ : Type) where
  /-- Where it runs. -/
  site : Site
  /-- The operation. -/
  opcode : Opcode
  /-- What it is given. -/
  args : Args
  /-- The scene that it finds. -/
  before : Scene σ

/-- An invocation and the value that it gave, at once or later. -/
abbrev Answered (σ : Type) := Invocation σ × Value

namespace Invocation

variable {σ : Type} (ext : Extensions σ) (i : Invocation σ)

/-- The reporter. -/
def block : Handle := i.site.block

/-- The scene that the primitive leaves, and what it produced. -/
def result : Scene σ × Outcome := Primitive.run ext i.opcode i.site i.args i.before

/-- The primitive leaves the stack of the thread alone. -/
def Steady : Prop := (i.result ext).1.thread.stack = i.before.thread.stack

/-- The primitive gives a value, at once or later, and leaves the stack of the thread alone. -/
structure Behaves : Prop where
  returns : (∃ v, (i.result ext).2 = .value v) ∨ ∃ channel, (i.result ext).2 = .deferred channel
  steady : i.Steady ext

/-- The value that it gives at once, or else one that comes later. -/
def answer (late : Value) : Value :=
  match (i.result ext).2 with
  | .value v => v
  | _ => late

variable {ext i} {late : Value}

theorem answer_of_value {v : Value} (h : (i.result ext).2 = .value v) : i.answer ext late = v := by
  rw [answer, h]

theorem answer_of_deferred {channel : Nat} (h : (i.result ext).2 = .deferred channel) :
    i.answer ext late = late := by
  rw [answer, h]

/-- Values that were given at once do not depend on what comes later. -/
theorem map_answer {l : List (Answered σ)} (h : ∀ e ∈ l, (e.1.result ext).2 = .value e.2) :
    ((l.map (·.1)).map fun i => (i, i.answer ext late)) = l := by
  rw [List.map_map]
  refine (List.map_congr_left fun e he => ?_).trans (List.map_id l)
  exact Prod.ext rfl (answer_of_value (h e he))

/-- The last one of these invocations gives what comes later. -/
theorem map_answer_concat {l : List (Answered σ)} (h : ∀ e ∈ l, (e.1.result ext).2 = .value e.2)
    {channel : Nat} (hi : (i.result ext).2 = .deferred channel) :
    ((l.map (·.1) ++ [i]).map fun i => (i, i.answer ext late)) = l ++ [(i, late)] := by
  rw [List.map_append, map_answer h]
  exact congrArg (fun v => l ++ [(i, v)]) (answer_of_deferred hi)

end Invocation

namespace Scene

variable {σ : Type}

/-- The invocations for inputs that are evaluated in order, with `calls` for those of one
reporter. -/
def gatherCalls (report : Handle → Scene σ → Scene σ × Evaluation Value)
    (calls : Handle → Scene σ → List (Invocation σ)) :
    List (String × Input) → Scene σ → List (Invocation σ)
  | [], _ => []
  | (_, .literal _) :: rest, s => gatherCalls report calls rest s
  | (_, .branch _) :: rest, s => gatherCalls report calls rest s
  | (_, .reporter h) :: rest, s =>
    calls h s ++ match report h s with
      | (s, .value _) => gatherCalls report calls rest s
      | (_, .parked) => []
      | (_, .failed _) => []

/-- The invocation of a reporter itself, once its inputs are evaluated. -/
def ownCall (site : Site) (h : Handle) (op : Opcode) :
    Scene σ × Evaluation Args → List (Invocation σ)
  | (s, .value args) => [⟨{ site with block := h }, op, args, s⟩]
  | (_, .parked) => []
  | (_, .failed _) => []

/-- The invocations for one reporter. -/
def reportCalls (ext : Extensions σ) (site : Site) : Nat → Handle → Scene σ → List (Invocation σ)
  | room, h, s =>
    match s.remembered? site.frame h with
    | some _ => []
    | none =>
      match site.graph.get? h with
      | none => []
      | some b =>
        if b.opcode.isMenu then []
        else match room with
          | 0 => []
          | room + 1 =>
            gatherCalls (report ext site room) (reportCalls ext site room) b.inputs.entries s ++
              ownCall site h b.opcode (gather (report ext site room) b.inputs.entries [] s)

end Scene

/-! ### Attempts -/

/-- A block that is about to be executed on the top frame of a thread. -/
structure Attempt (σ : Type) (g : Graph) where
  /-- The limits of the pass. -/
  scheduler : Scheduler
  /-- The scene before. -/
  before : Scene σ
  /-- The top frame. -/
  frame : Frame
  /-- The frames below. -/
  rest : List Frame
  /-- The block. -/
  block : Block
  stack : before.thread.stack = frame :: rest
  live : g.get? frame.block = some block

namespace Attempt

variable {σ : Type} {g : Graph} (ext : Extensions σ) (a : Attempt σ g)

/-- Where the block is executed. -/
def site : Site := ⟨a.scheduler, g, a.frame.block, a.rest.length⟩

/-- The evaluation of its inputs. -/
def evaluation : Scene σ × Evaluation Args :=
  Scene.gather (Scene.report ext a.site a.scheduler.maxReporterDepth) a.block.inputs.entries []
    a.before

/-- The invocations on the way. -/
def calls : List (Invocation σ) :=
  Scene.gatherCalls (Scene.report ext a.site a.scheduler.maxReporterDepth)
    (Scene.reportCalls ext a.site a.scheduler.maxReporterDepth) a.block.inputs.entries a.before

/-- The invocations with their values, if the one that has to be waited for gives `late`. -/
def answered (late : Value) : List (Answered σ) :=
  (a.calls ext).map fun i => (i, i.answer ext late)

/-- The primitive of the block itself. -/
def run (args : Args) (s : Scene σ) : Scene σ × Outcome :=
  Primitive.run ext a.block.opcode a.site args s

/-- The execution of the block. -/
def execution : Scene σ × Option Fault := a.before.execute ext a.scheduler g

theorem execution_eq : a.execution ext = match a.evaluation ext with
    | (s, .value args) => Scene.finish a.site (a.run ext args s)
    | (s, .parked) => (s, none)
    | (s, .failed fault) => (s, some fault) := by
  have htop : a.before.thread.topBlock? = some a.frame.block := by
    rw [Thread.topBlock?, a.stack]
    rfl
  have hsite : (⟨a.scheduler, g, a.frame.block, a.before.thread.depth - 1⟩ : Site) = a.site := by
    rw [Thread.depth, a.stack]
    rfl
  unfold execution Scene.execute
  simp only [htop, a.live, hsite]
  rfl

end Attempt

/-! ### What was answered -/

section Answers

variable {σ : Type} {past more : List (Answered σ)} {h : Handle} {g : Graph}

/-- The reporters that were run. -/
def ran (past : List (Answered σ)) : List Handle := past.map (·.1.block)

/-- The value that a reporter gave. -/
def recalled? (past : List (Answered σ)) (h : Handle) : Option Value :=
  (past.find? (·.1.block == h)).map (·.2)

theorem ran_append (past more : List (Answered σ)) :
    ran (past ++ more) = ran past ++ ran more :=
  List.map_append

theorem recalled?_eq_none_iff : recalled? past h = none ↔ h ∉ ran past := by
  simp [recalled?, ran]

theorem recalled?_append_of_mem (hm : h ∈ ran past) :
    recalled? (past ++ more) h = recalled? past h := by
  cases hr : past.find? (·.1.block == h) with
  | none => exact absurd hm (recalled?_eq_none_iff.1 (by rw [recalled?, hr]; rfl))
  | some e => rw [recalled?, recalled?, List.find?_append, hr, Option.some_or]

theorem recalled?_append_of_notMem (hm : h ∉ ran past) :
    recalled? (past ++ more) h = recalled? more h := by
  have hr : past.find? (·.1.block == h) = none :=
    Option.map_eq_none_iff.1 (recalled?_eq_none_iff.2 hm)
  rw [recalled?, recalled?, List.find?_append, hr, Option.none_or]

namespace Graph

/-- The value of a block plugged into an input: what it gave, or the field of a menu. -/
def valueOf (g : Graph) (past : List (Answered σ)) (h : Handle) : Value :=
  match g.get? h with
  | none => .blank
  | some b => if b.opcode.isMenu then b.menuValue else (recalled? past h).getD .blank

/-- Inputs, read from what reporters gave. -/
def reading (g : Graph) (past : List (Answered σ)) (inputs : List (String × Input)) :
    List (String × Value) :=
  inputs.filterMap fun e => match e.2 with
    | .literal v => some (e.1, v)
    | .reporter h => some (e.1, g.valueOf past h)
    | .branch _ => none

/-- A reporter was given what the reporters plugged into it gave. -/
structure Fed (g : Graph) (past : List (Answered σ)) (i : Invocation σ) : Prop where
  args : ∃ b, g.reporter? i.block = some b ∧ i.opcode = b.opcode ∧
    i.args = ⟨g.reading past b.inputs.entries⟩
  before : ∀ b, g.reporter? i.block = some b → ∀ c ∈ plugged b.inputs.entries,
    (g.reporter? c).isSome = true → c ∈ ran past

theorem valueOf_of_reporter {b : Block} (hb : g.reporter? h = some b) :
    g.valueOf past h = (recalled? past h).getD .blank := by
  obtain ⟨hget, hmenu⟩ := Option.filter_eq_some_iff.1 hb
  have hrun : b.opcode.isMenu = false := by simpa using hmenu
  unfold valueOf
  simp only [hget, hrun, Bool.false_eq_true, if_false]

/-- A value that was given stays. -/
theorem valueOf_append (hm : (g.reporter? h).isSome = true → h ∈ ran past) :
    g.valueOf (past ++ more) h = g.valueOf past h := by
  cases hb : g.reporter? h with
  | some b =>
    rw [valueOf_of_reporter hb, valueOf_of_reporter hb, recalled?_append_of_mem (hm (hb ▸ rfl))]
  | none =>
    unfold valueOf
    cases hget : g.get? h with
    | none => rfl
    | some b =>
      have hmenu : b.opcode.isMenu = true := by simpa [reporter?, hget] using hb
      simp only [hmenu, if_true]

theorem reading_append {inputs : List (String × Input)}
    (hm : ∀ c ∈ plugged inputs, (g.reporter? c).isSome = true → c ∈ ran past) :
    g.reading (past ++ more) inputs = g.reading past inputs := by
  refine List.filterMap_congr fun e he => ?_
  split
  · rfl
  · rename_i c hc
    have hplugged : c ∈ plugged inputs := List.mem_filterMap.2 ⟨e, he, by rw [hc]⟩
    rw [valueOf_append (hm c hplugged)]
  · rfl

theorem Fed.append {i : Invocation σ} (hi : g.Fed past i) : g.Fed (past ++ more) i := by
  obtain ⟨b, hb, hop, hargs⟩ := hi.args
  refine ⟨⟨b, hb, hop, ?_⟩, fun b' hb' c hc hrc => ?_⟩
  · rw [reading_append (hi.before b hb)]
    exact hargs
  · rw [ran_append]
    exact List.mem_append_left _ (hi.before b' hb' c hc hrc)

end Graph

end Answers

end Stagecraft
