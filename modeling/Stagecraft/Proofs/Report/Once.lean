import Stagecraft.Proofs.Graph.Operation
import Stagecraft.Proofs.Report.Life

/-!
# Reporters are run once

Whatever a block has to wait for, between control reaching it and its own primitive each of its
reporters is run once, in order, and its primitive is given what they gave. A step of the scheduler
that makes the attempt leads the thread on to the next one. It takes a thread whose reporters have
left the stack alone: the result of a reporter that did not, or of another one after it, is kept on
a frame that it is not for.

* `Attempt.once_of_life` : **each reporter is run once for an execution of its block**;
* `Attempt.skipped_of_detour` : a reporter that is not run for a block, since another block waited
  for it while this one was entered.
-/

namespace Stagecraft

/-! ### Built-in reporters -/

namespace Invocation

variable {σ : Type} (ext : Extensions σ)

/-- **Built-in reporters give a value, at once or later, and leave the stack alone.** -/
theorem behaves_of_reports {i : Invocation σ} (h : i.opcode.reports = true) : i.Behaves ext := by
  obtain ⟨site, opcode, args, s⟩ := i
  cases opcode with
  | operator op =>
    refine ⟨.inl ?_, congrArg Thread.stack (Primitive.thread_operator site args s op)⟩
    unfold result Primitive.run Primitive.operator
    simp only
    split <;> exact ⟨_, rfl⟩
  | sensing op =>
    refine ⟨?_, congrArg Thread.stack (Primitive.thread_sensing site args s op)⟩
    cases op with
    | resetTimer => cases h
    | askAndWait => exact .inr ⟨_, rfl⟩
    | _ => exact .inl ⟨_, rfl⟩
  | data op =>
    refine ⟨.inl ?_, congrArg Thread.stack (Primitive.thread_data site args s op)⟩
    unfold result Primitive.run Primitive.data
    cases op <;> first | exact ⟨_, rfl⟩ | cases h
  | motion op =>
    refine ⟨.inl ?_, congrArg Thread.stack (Primitive.thread_motion args s op)⟩
    cases op <;> first | exact ⟨_, rfl⟩ | cases h
  | procedure op =>
    cases op <;> first | exact ⟨.inl ⟨_, rfl⟩, rfl⟩ | cases h
  | _ => cases h

end Invocation

/-! ### An attempt -/

namespace Attempt

variable {σ : Type} {g : Graph}

/-- What the primitive of a block is given, read from what its reporters gave. -/
def given (ext : Extensions σ) (past : List (Answered σ)) (a : Attempt σ g) : Args :=
  ⟨g.reading (past ++ a.answered ext .blank) a.block.inputs.entries⟩

/-- The attempt runs the reporters that come next, in order, and has to wait for the last of them.
The thread is left so, unless it was asked to end; with the result, the next attempt knows about all
that were run. -/
structure Waits (ext : Extensions σ) (limit : Nat) (past : List (Answered σ)) (a : Attempt σ g) :
    Prop where
  next : ran past ++ (a.calls ext).map (·.block) <+: g.order limit a.block
  fed : ∀ i ∈ a.calls ext, g.Fed (past ++ a.answered ext .blank) i
  last : ∃ i channel, (a.calls ext).getLast? = some i ∧ (i.result ext).2 = .deferred channel ∧
    (a.execution ext).1.thread.pending = some ⟨channel, .reporter i.block⟩
  parked : (a.execution ext).1.thread.status = .parked
  sound : (a.execution ext).2 = none
  stepped : ∀ (scheduler : Scheduler) (s : Scene σ), a.Of scheduler s →
    (s.stepBlock ext g scheduler).2.1.thread.stack = [] ∨
      (s.stepBlock ext g scheduler).2.1.thread.stack = (a.execution ext).1.thread.stack ∧
      (s.stepBlock ext g scheduler).2.1.thread.pending = (a.execution ext).1.thread.pending
  resumes : ∀ (scheduler : Scheduler) (w : World σ) (t : Thread) (p : Pending) (v : Value),
    t.stack = (a.execution ext).1.thread.stack →
    t.pending = (a.execution ext).1.thread.pending → t.pending = some p →
    (w.poll p.channel).2 = some (.resolved v) →
    Life ext g limit (Pass.wake scheduler w t).1.thread (past ++ a.answered ext v)

/-- Once its primitive was run, nothing is remembered any more: at once, and so when the step of the
scheduler is over, or when a result comes that is awaited on the same stack. -/
structure Forgets (ext : Extensions σ) (limit : Nat) (a : Attempt σ g) (r : Scene σ × Outcome)
    (stack : List Frame) : Prop where
  done : (∀ channel, r.2 ≠ .deferred channel) → (a.execution ext).1.thread.Clear
  onward : (∀ channel, r.2 ≠ .deferred channel) → ∀ (scheduler : Scheduler) (s : Scene σ),
    a.Of scheduler s → Life ext g limit (s.stepBlock ext g scheduler).2.1.thread []
  later : ∀ channel, r.2 = .deferred channel → r.1.thread.stack = stack →
    ∀ (scheduler : Scheduler) (w : World σ) (t : Thread) (v : Value),
      t.stack = (a.execution ext).1.thread.stack →
      t.pending = (a.execution ext).1.thread.pending → (w.poll channel).2 = some (.resolved v) →
      (Pass.wake scheduler w t).1.thread.Clear

/-- The attempt runs the reporters that are left, in order, and then the primitive of the block,
which is given what all of them gave. -/
structure Completes (ext : Extensions σ) (limit : Nat) (past : List (Answered σ))
    (a : Attempt σ g) : Prop where
  all : ran past ++ (a.calls ext).map (·.block) = g.order limit a.block
  fed : ∀ i ∈ a.calls ext, g.Fed (past ++ a.answered ext .blank) i
  valued : ∀ i ∈ a.calls ext, ∃ v, (i.result ext).2 = .value v
  runs : ∃ s, a.evaluation ext = (s, .value (a.given ext past)) ∧
    a.execution ext = Scene.finish a.site (a.run ext (a.given ext past) s) ∧
    a.Forgets ext limit (a.run ext (a.given ext past) s) s.thread.stack

variable {ext : Extensions σ} {limit : Nat} {past : List (Answered σ)}

theorem forgets (a : Attempt σ g) (hext : ext.Oblivious)
    (hlife : Life ext g limit a.before.thread past) (hsteady : ∀ i ∈ a.calls ext, i.Steady ext)
    {args : Args} {s : Scene σ} (he : a.evaluation ext = (s, .value args)) :
    a.Forgets ext limit (a.run ext args s) s.thread.stack := by
  have hrest := (hlife.remembers hext).rest
  refine ⟨a.clear_execution hext hrest hsteady he, fun hdone _ _ ha =>
    Life.stepBlock (hlife.between ha.stack.symm) ha hsteady he hdone, ?_⟩
  intro channel hdeferred hkeeps scheduler w t v hstack hpending hv
  have hleaves := a.leaves hsteady
  rw [he] at hleaves
  obtain ⟨memo, hmemo⟩ := hleaves.stands
  rw [execution_eq, he] at hstack hpending
  simp only at hstack hpending
  rcases hrun : a.run ext args s with ⟨s', o⟩
  rw [hrun] at hdeferred hkeeps hstack hpending
  cases hdeferred
  -- the frame that waits leaves its block with the result, and the ones below remember nothing
  refine Pass.clear_wake_command scheduler hpending (fun f hf => hrest f ?_) hv
  have hsame : t.stack = s.thread.stack := hstack.trans hkeeps
  rw [hsame, hmemo] at hf
  exact hf

/-- What an attempt does that has to wait for a reporter. -/
theorem waits_of_parked {a : Attempt σ g} (hlife : Life ext g limit a.before.thread past)
    (hlimit : limit ≤ a.scheduler.maxReporterDepth) (hsteady : ∀ i ∈ a.calls ext, i.Steady ext)
    (hsofar : ran past <+: g.order limit a.block)
    {s : Scene σ} (he : a.evaluation ext = (s, .parked))
    {reads : List (Answered σ) → Args → Prop}
    (h : Scene.Proceeds ext g a.frame a.rest past
      ((plugged a.block.inputs.entries).flatMap (g.postorder limit)) reads (a.calls ext)
      (s, .parked)) : a.Waits ext limit past := by
  have hexecution : a.execution ext = (s, none) := by rw [a.execution_eq ext, he]
  have hstepped (scheduler : Scheduler) (s₀ : Scene σ) (ha : a.Of scheduler s₀) :=
    Life.stepBlock_of_parked ha hsteady he
  have hresumes (scheduler : Scheduler) (w : World σ) (t : Thread) (p : Pending) (v : Value)
      (hs : t.stack = s.thread.stack) (ht : t.pending = s.thread.pending) (hp : t.pending = some p)
      (hv : (w.poll p.channel).2 = some (.resolved v)) :=
    hlife.waited a scheduler hlimit hsteady he hs ht hp hv
  generalize hc : a.calls ext = calls at h
  cases h with
  | parked new hnew hi hnext hs hfed hpending hstatus =>
    rename_i i channel
    rw [eraseDups_append_of_isPrefix hsofar] at hnext
    have hanswered : past ++ a.answered ext .blank = past ++ new ++ [(i, .blank)] := by
      rw [answered, hc, Invocation.map_answer_concat hnew hi, List.append_assoc]
    refine ⟨?_, ?_, ⟨i, channel, ?_, hi, ?_⟩, ?_, ?_, ?_, ?_⟩
    · rw [hc, List.map_append, List.map_map]
      rwa [ran_append, List.append_assoc] at hnext
    · rw [hc, hanswered]
      refine List.forall_mem_append.2 ⟨fun x hx => ?_, List.forall_mem_singleton.2 hfed.append⟩
      obtain ⟨e, hmem, rfl⟩ := List.mem_map.1 hx
      exact (hs.fed e (List.mem_append_right _ hmem)).append
    · rw [hc, List.getLast?_append, List.getLast?_singleton]
      rfl
    all_goals rw [hexecution]
    · exact hpending
    · exact hstatus
    · exact hstepped
    · exact hresumes

/-- What an attempt does that goes through. -/
theorem completes_of_value {a : Attempt σ g} (hsofar : ran past <+: g.order limit a.block)
    {s : Scene σ} {args : Args} (he : a.evaluation ext = (s, .value args))
    (h : Scene.Proceeds ext g a.frame a.rest past
      ((plugged a.block.inputs.entries).flatMap (g.postorder limit))
      (fun past args => args = ⟨g.reading past a.block.inputs.entries⟩) (a.calls ext)
      (s, .value args))
    (hforgets : a.Forgets ext limit (a.run ext args s) s.thread.stack) :
    a.Completes ext limit past := by
  have hexecution : a.execution ext = Scene.finish a.site (a.run ext args s) := by
    rw [a.execution_eq ext, he]
  generalize hc : a.calls ext = calls at h
  cases h with
  | finished new hnew hran hs hargs =>
    rw [eraseDups_append_of_isPrefix hsofar] at hran
    have hanswered : past ++ a.answered ext .blank = past ++ new := by
      rw [answered, hc, Invocation.map_answer hnew]
    have hgiven : args = a.given ext past := by rw [given, hanswered, hargs]
    rw [hgiven] at he hexecution hforgets
    refine ⟨?_, ?_, ?_, s, he, hexecution, hforgets⟩
    · rw [hc, List.map_map]
      rwa [ran_append] at hran
    all_goals
      intro x hx
      rw [hc] at hx
      obtain ⟨e, hmem, rfl⟩ := List.mem_map.1 hx
    · rw [hanswered]
      exact hs.fed e (List.mem_append_right _ hmem)
    · exact ⟨e.2, hnew e hmem⟩

/-- **Each reporter is run once for an execution of its block.** An attempt at a block runs the
reporters that come next in the order, and none that was run since control reached the block. Either
it has to wait for the last of them; or it goes through all that are left, and then runs the
primitive of the block with the values that were given. -/
theorem once_of_life (hext : ext.Oblivious) (a : Attempt σ g)
    (hlife : Life ext g limit a.before.thread past) (hlimit : limit ≤ a.scheduler.maxReporterDepth)
    (hnests : ∀ h ∈ plugged a.block.inputs.entries, g.nests limit h = true)
    (hpast : ∀ e ∈ past, e.1.Behaves ext) (hcalls : ∀ i ∈ a.calls ext, i.Behaves ext) :
    (g.order limit a.block).Nodup ∧ (a.Waits ext limit past ∨ a.Completes ext limit past) := by
  obtain ⟨hrecalls, hsofar⟩ := (hlife.remembers hext).recalls a rfl hnests hpast
  have hsteady : ∀ i ∈ a.calls ext, i.Steady ext := fun i hi => (hcalls i hi).steady
  have hproceeds := a.proceeds hrecalls hlimit hnests hcalls
  refine ⟨g.nodup_order limit a.block, ?_⟩
  rcases he : a.evaluation ext with ⟨s, e⟩
  rw [he] at hproceeds
  cases e with
  | parked => exact .inl (waits_of_parked hlife hlimit hsteady hsofar he hproceeds)
  | failed fault =>
    generalize a.calls ext = calls at hproceeds
    cases hproceeds
  | value args =>
    exact .inr (completes_of_value hsofar he hproceeds (a.forgets hext hlife hsteady he))

/-- An attempt that is left in the middle of its inputs waits. -/
theorem waits_of_once {a : Attempt σ g}
    (h : a.Waits ext limit past ∨ a.Completes ext limit past)
    (hparked : ((a.evaluation ext).2 matches .parked) = true) : a.Waits ext limit past := by
  refine h.resolve_right fun hcompletes => ?_
  obtain ⟨s, he, -⟩ := hcompletes.runs
  rw [he] at hparked
  cases hparked

/-! A variable is set to two answers, and the second question repeats the first answer. -/

/-- The block, the join, and the two questions. -/
def quiz : Graph :=
  Graph.empty.run
    [.create { Block.detached "set" (.data .setVariable) with
        inputs := Table.empty.insert "VALUE" (.reporter ⟨1, 0⟩)
        topLevel := true },
      .create { Block.detached "join" (.operator .join) with
        inputs := (Table.empty.insert "STRING1" (.reporter ⟨2, 0⟩)).insert "STRING2"
          (.reporter ⟨3, 0⟩) },
      .create { Block.detached "who" (.sensing .askAndWait) with
        inputs := Table.empty.insert "QUESTION" (.literal (.text "who are you?")) },
      .create { Block.detached "with" (.sensing .askAndWait) with
        inputs := Table.empty.insert "QUESTION" (.reporter ⟨2, 0⟩) }]

/-- The thread of the block, with what its frame remembers. -/
def asking (memo : Table Handle Value) : Scene Unit :=
  ⟨.blank .standard (),
    { Thread.start 0 0 ⟨0, 0⟩ with
      stack := [{ Frame.start ⟨0, 0⟩ false with reported := memo }] }⟩

/-- The block is executed in a step of that thread. -/
def quizzed (memo : Table Handle Value) : Attempt Unit quiz where
  scheduler := (Scheduler.create .standard).countBlock
  before := (asking memo).entered
  frame := { Frame.start ⟨0, 0⟩ false with reported := memo }
  rest := []
  block := (quiz.get? ⟨0, 0⟩).get (by decide +kernel)
  stack := rfl
  live := (Option.some_get _).symm

theorem of_quizzed (memo : Table Handle Value) :
    (quizzed memo).Of (.create .standard) (asking memo) := ⟨rfl, rfl⟩

theorem behaves_quizzed {memo : Table Handle Value}
    (h : ((quizzed memo).calls .empty).all (·.opcode.reports) = true) :
    ∀ i ∈ (quizzed memo).calls .empty, i.Behaves .empty :=
  fun i hi => Invocation.behaves_of_reports _ (List.all_eq_true.1 h i hi)

theorem behaves_answered {memo : Table Handle Value} {late : Value}
    (h : ((quizzed memo).calls .empty).all (·.opcode.reports) = true) :
    ∀ e ∈ (quizzed memo).answered .empty late, e.1.Behaves .empty := by
  intro e he
  obtain ⟨i, hi, rfl⟩ := List.mem_map.1 he
  exact behaves_quizzed h i hi

/-- A question is answered, after a step in which the thread had to wait for it. -/
theorem life_quizzed {memo : Table Handle Value} {past : List (Answered Unit)} {r : Handle}
    (h : (quizzed memo).Waits .empty 8 past) (text : String)
    (hkept : ((asking memo).stepBlock .empty quiz (.create .standard)).2.1.thread.stack ≠ [])
    (hstack : ((quizzed memo).execution .empty).1.thread.stack = [(quizzed memo).frame])
    (hpending : ((quizzed memo).execution .empty).1.thread.pending = some ⟨0, .reporter r⟩) :
    Life .empty quiz 8 (quizzed (memo.insert r (.text text))).before.thread
      (past ++ (quizzed memo).answered .empty (.text text)) := by
  obtain ⟨hs, hp⟩ := (h.stepped _ _ (of_quizzed memo)).resolve_left hkept
  have hp := hp.trans hpending
  let w := ((World.blank .standard ()).openChannel (.settled (.text text))).1
  have hv : (w.poll 0).2 = some (.resolved (.text text)) := rfl
  have hlife := h.resumes (.create .standard) w _ _ (.text text) hs (hp.trans hpending.symm) hp hv
  exact hlife.between (Pass.stack_wake_reporter _ hp (hs.trans hstack) hv).symm

/-- Each question takes a step of the scheduler, in which the thread has to wait. When both are
answered the attempt goes through, with only the join left to be run, and its step leads on. -/
theorem once_of_life_quiz : ∃ (past : List (Answered Unit)) (a : Attempt Unit quiz),
    Life .empty quiz 8 a.before.thread past ∧ ran past = [⟨2, 0⟩, ⟨3, 0⟩] ∧
      (a.calls .empty).map (·.block) = [⟨1, 0⟩] ∧ a.Completes .empty 8 past ∧
      ∃ (scheduler : Scheduler) (s : Scene Unit), a.Of scheduler s ∧
        Life .empty quiz 8 (s.stepBlock .empty quiz scheduler).2.1.thread
          ([] : List (Answered Unit)) := by
  have hext : Extensions.Oblivious (.empty : Extensions Unit) := fun h => by cases h
  have hstart : Life (.empty : Extensions Unit) quiz 8 (quizzed .empty).before.thread [] :=
    .start fun f hf => by rw [List.mem_singleton.1 hf]
  have hnobody : ∀ e ∈ ([] : List (Answered Unit)), e.1.Behaves .empty := fun e he => by cases he
  have hwho := once_of_life hext (quizzed .empty) hstart (by decide +kernel) (by decide +kernel)
    hnobody (behaves_quizzed (by decide +kernel))
  have hfirst := life_quizzed (r := ⟨2, 0⟩) (waits_of_once hwho.2 (by decide +kernel)) "Ada"
    (by decide +kernel) (by decide +kernel) (by decide +kernel)
  let memo : Table Handle Value := Table.empty.insert ⟨2, 0⟩ (.text "Ada")
  have hwith := once_of_life hext (quizzed memo) hfirst (by decide +kernel) (by decide +kernel)
    (behaves_answered (by decide +kernel)) (behaves_quizzed (by decide +kernel))
  have hsecond := life_quizzed (r := ⟨3, 0⟩) (waits_of_once hwith.2 (by decide +kernel)) "Bob"
    (by decide +kernel) (by decide +kernel) (by decide +kernel)
  let a := quizzed (memo.insert ⟨3, 0⟩ (.text "Bob"))
  have honce := once_of_life hext a hsecond (by decide +kernel) (by decide +kernel)
    (List.forall_mem_append.2
      ⟨behaves_answered (by decide +kernel), behaves_answered (by decide +kernel)⟩)
    (behaves_quizzed (by decide +kernel))
  have hcompletes : a.Completes .empty 8 _ := honce.2.resolve_left fun hwaits => by
    -- a thread that is not parked does not wait
    have hrunning : (a.execution .empty).1.thread.status = .running := by decide +kernel
    rw [hwaits.parked] at hrunning
    cases hrunning
  obtain ⟨s, -, -, hforgets⟩ := hcompletes.runs
  exact ⟨_, a, hsecond, by decide +kernel, by decide +kernel, hcompletes, _, _, of_quizzed _,
    hforgets.onward (fun channel h => by cases h) _ _ (of_quizzed _)⟩

/-! A block has a stack inside it, and a condition is plugged into it as if it gave a value. Both
the block and the one in the stack ask for the same two values, a name and an answer. -/

/-- The outer block, the condition, the two values, and the inner block. -/
def detour : Graph :=
  Graph.empty.run
    [.create { Block.detached "outer" (.data .setVariable) with
        inputs := (((Table.empty.insert "IF" (.reporter ⟨1, 0⟩)).insert "NAME"
          (.reporter ⟨2, 0⟩)).insert "VALUE" (.reporter ⟨3, 0⟩)).insert "SUBSTACK" (.branch ⟨4, 0⟩)
        topLevel := true },
      .create { Block.detached "if" (.control .ifThen) with
        inputs := Table.empty.insert "CONDITION" (.literal (.flag true)) },
      .create { Block.detached "name" (.sensing .username) with },
      .create { Block.detached "ask" (.sensing .askAndWait) with },
      .create { Block.detached "inner" (.data .setVariable) with
        inputs := (Table.empty.insert "NAME" (.reporter ⟨2, 0⟩)).insert "VALUE"
          (.reporter ⟨3, 0⟩) }]

/-- The outer block, when its thread has just started. -/
def outer : Attempt Unit detour where
  scheduler := .create .standard
  before := ⟨.blank .standard (), Thread.start 0 0 ⟨0, 0⟩⟩
  frame := Frame.start ⟨0, 0⟩ false
  rest := []
  block := (detour.get? ⟨0, 0⟩).get (by decide +kernel)
  stack := rfl
  live := (Option.some_get _).symm

/-- The world in which the question is answered. -/
def reply : World Unit := ((World.blank .standard ()).openChannel (.settled (.text "blue"))).1

/-- The inner block, once the answer has come. -/
def inner : Attempt Unit detour where
  scheduler := .create .standard
  before := (Pass.wake (.create .standard) reply (outer.execution .empty).1.thread).1
  frame := { Frame.start ⟨4, 0⟩ false with reported := Table.empty.insert ⟨3, 0⟩ (.text "blue") }
  rest := [{ Frame.start ⟨0, 0⟩ false with reported := Table.empty.insert ⟨2, 0⟩ (.text "") }]
  block := (detour.get? ⟨4, 0⟩).get (by decide +kernel)
  stack := by decide +kernel
  live := (Option.some_get _).symm

/-- **A reporter that is not run for a block.** The condition is run as a reporter of the outer
block and enters the inner one; then the question has to be waited for. Its answer is kept for the
inner block, on whose frame the thread is by then. So the inner block, whose reporters are built
in, is executed with an answer that nobody was asked for on its behalf; and the name is read anew.
-/
theorem skipped_of_detour :
    (outer.calls .empty).map (·.block) = [⟨1, 0⟩, ⟨2, 0⟩, ⟨3, 0⟩] ∧
      (outer.execution .empty).1.thread.pending = some ⟨0, .reporter ⟨3, 0⟩⟩ ∧
      inner.before = (Pass.wake (.create .standard) reply (outer.execution .empty).1.thread).1 ∧
      inner.block.inputs.entries.all (fun e => match e.2 with
        | .reporter h => detour.nests 8 h && (detour.opcode? h).any Opcode.reports
        | _ => false) = true ∧
      detour.order 8 inner.block = [⟨2, 0⟩, ⟨3, 0⟩] ∧
      (inner.calls .empty).map (·.block) = [⟨2, 0⟩] ∧
      ((inner.evaluation .empty).2 matches .value _) = true := by
  refine ⟨?_, ?_, rfl, ?_, ?_, ?_, ?_⟩ <;> decide +kernel

end Attempt

end Stagecraft
