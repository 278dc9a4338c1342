import Stagecraft.Proofs.Schedule.Staged
import Stagecraft.Proofs.Schedule.Standing
import Stagecraft.Proofs.Schedule.Vanished

/-!
# Returning early from a procedure

A script that is stopped within a procedure goes back to the innermost call: the frames above are
dropped, and nothing else happens. But the thread then stands at the call, not behind it, so the
call is executed once more. It has entered its procedure already and does nothing, and the thread
goes on as it does where the body of the procedure ends. What is executed on the way are the
reporters in the arguments of the call.

* `Frame.Calling` : the frame of a call that has entered its procedure;
* `Execution.after_of_stop` : the frames above it are dropped;
* `Execution.returns_of_call` : the call does nothing when it is executed again;
* `Execution.Detour` : what is executed until the thread goes on behind the call;
* `Execution.detour_of_plays` : **so a script is left**;
* `World.again_of_stop_bail` : a reporter in an argument is run twice.
-/

namespace Stagecraft

/-- The frame of a call that has entered its procedure. -/
structure Frame.Calling (g : Graph) (c : Frame) : Prop where
  block : g.opcode? c.block = some (.procedure .call)
  called : c.progress = .called
  loop : c.isLoop = false

namespace Thread

variable {t : Thread} {g : Graph} {c : Frame} {inner below : List Frame}

/-- Frames above the innermost call are left. -/
theorem toCall_of_inner (hinner : ∀ f ∈ inner, g.opcode? f.block ≠ some (.procedure .call))
    (hc : g.opcode? c.block = some (.procedure .call)) :
    toCall g (inner ++ c :: below) = c :: below := by
  rw [toCall, List.dropWhile_append_of_pos fun f hf => by simpa using hinner f hf,
    List.dropWhile_cons_of_neg (by simp [hc])]

/-- The thread is back at the call. -/
theorem stopScript_of_inner (hs : t.stack = inner ++ c :: below)
    (hinner : ∀ f ∈ inner, g.opcode? f.block ≠ some (.procedure .call))
    (hc : g.opcode? c.block = some (.procedure .call)) :
    t.stopScript g = { t with stack := c :: below } := by
  rw [stopScript, hs, toCall_of_inner hinner hc]
  rfl

end Thread

/-- Moving past a block that is no loop is what happens where the stack above has ended. -/
theorem Scheduler.advance_eq_unwind {k : Scheduler} {now : Span} {g : Graph} {t : Thread}
    {f : Frame}
    {below : List Frame} (hs : t.stack = f :: below) (hloop : f.isLoop = false) :
    k.advance now g t = k.unwind now g t (f :: below) := by
  rw [advance, hs, unwind, if_neg (by simp [hloop])]

namespace Execution

open Scene Thread

variable {σ : Type} {e e' : Execution σ} {g : Graph} {c f : Frame} {inner below : List Frame}
  {i : Invocation σ}

/-- **Stopping the script drops the frames above the call**, in the same turn. -/
theorem after_of_stop (hs : e.thread.stack = inner ++ c :: below)
    (hinner : ∀ f ∈ inner, e.graph.opcode? f.block ≠ some (.procedure .call))
    (hc : e.graph.opcode? c.block = some (.procedure .call)) (hg : e.graph.PlugsValues e.ext)
    (hrunning : e.thread.status = .running) (hcall : e.call? = some i)
    (hstop : i.opcode = .control .stop)
    (hfield : i.site.field? "STOP_OPTION" = some "this script") :
    let s : Scene σ := ⟨i.before.world, { e.entered.thread with stack := c :: below }⟩
    i.result e.ext = (s, .done) ∧ e.executed = (s, none) ∧
      (s.obey.2 = false → e.after = (e.scheduler.countBlock, s, .goesOn)) := by
  intro s
  -- the block that stops the script is not the call
  obtain ⟨f, xs, rfl⟩ : ∃ f xs, inner = f :: xs := by
    refine List.exists_cons_of_ne_nil fun hnil => ?_
    subst hnil
    have hop := (ran_of_call hs hcall).opcode
    rw [hc, hstop] at hop
    cases hop
  rw [List.cons_append] at hs
  have hran := ran_of_call hs hcall
  obtain ⟨memo, hthread⟩ := hran.before hs hg
  have hgraph : i.site.graph = e.graph := by rw [hran.site]; rfl
  have hleft : i.before.thread.stopScript e.graph =
      { e.entered.thread with stack := c :: below } := by
    have hinner' : ∀ x ∈ { f with reported := memo } :: xs,
        e.graph.opcode? x.block ≠ some (.procedure .call) := by
      intro x hx
      rcases List.mem_cons.1 hx with rfl | hx
      · exact hinner f (List.mem_cons_self ..)
      · exact hinner x (List.mem_cons_of_mem _ hx)
    rw [stopScript_of_inner (by rw [hthread]; rfl) hinner' hc, hthread]
  have hresult : i.result e.ext = (s, .done) := by
    rw [Invocation.result, hstop]
    change (Primitive.stop i.site i.before, Outcome.done) = (s, .done)
    rw [Primitive.stop, hfield]
    simp only [Option.getD_some, hgraph, hleft]
    rfl
  have hx : e.executed = (s, none) := by
    -- the frame that would forget its reporters is gone
    have hforget : s.forget (e.site f.block).frame = s := by
      have hlen : ¬ (xs ++ c :: below).length < (c :: below).length := by
        rw [List.length_append]
        omega
      rw [forget, modifyFrame, frame_site hs, if_neg hlen]
    rw [hran.executed, hresult, finish, hforget]
  refine ⟨hresult, hx, fun hasked => ?_⟩
  have hne : c.block ≠ f.block := fun he => by
    have hop := hran.opcode
    rw [← he, hc, hstop] at hop
    cases hop
  have hst : s.thread.status = .running := e.status_entered.trans hrunning
  rw [after_of_moved hs hx (obey_of_unasked hasked), proceed, hst]
  simp [s, topBlock?, hne]

/-- A call that has entered its procedure does nothing more. -/
theorem call_of_called {site : Site} {args : Args} {s : Scene σ} (hs : s.thread.stack = c :: below)
    (hframe : site.frame = below.length) (hc : c.progress = .called) :
    Primitive.call site args s = s := by
  have hprogress : s.progress? site = some .called := by
    rw [progress?, hframe, frameAt?_top hs, Option.map_some, hc]
  rw [Primitive.call, if_pos hprogress]

/-- The thread goes on as it does where the body of the procedure ends, unless something was asked
of it meanwhile. -/
def Returns (e : Execution σ) (c : Frame) (below : List Frame) : Prop :=
  e.executed.1.obey.2 = false →
    let r := e.scheduler.countBlock.unwind e.executed.1.world.now e.graph e.executed.1.thread
      ({ c with reported := .empty } :: below)
    e.after = (e.scheduler.countBlock, { e.executed.1 with thread := r.1 }, r.2)

/-- **The call does nothing when it is executed again**, and the thread goes on behind it. -/
theorem returns_of_call {memo : Table Handle Value}
    (hs : e.thread.stack = { c with reported := memo } :: below) (hc : c.Calling e.graph)
    (hg : e.graph.PlugsValues e.ext) (hrunning : e.thread.status = .running)
    (hcall : e.call? = some i) : i.result e.ext = (i.before, .done) ∧ e.Returns c below := by
  have hran := ran_of_call hs hcall
  obtain ⟨m, hthread⟩ := hran.before hs hg
  have hbefore : i.before.thread.stack = { c with reported := m } :: below := by rw [hthread]
  have hresult : i.result e.ext = (i.before, .done) := by
    rw [Invocation.result, Option.some.inj (hran.opcode.symm.trans hc.block)]
    change (Primitive.call i.site i.args i.before, Outcome.done) = (i.before, .done)
    rw [call_of_called hbefore (by rw [hran.site, frame_site hs]) hc.called]
  refine ⟨hresult, ?_⟩
  have hforget : (i.before.forget below.length).thread =
      { e.entered.thread with stack := { c with reported := .empty } :: below } := by
    rw [forget, hthread, modifyFrame_top rfl]
  have hx : e.executed = (i.before.forget below.length, none) := by
    rw [hran.executed, hresult, finish, frame_site hs]
  have hpast := movesPast_of_executed hs hx (by rw [hforget]; exact e.status_entered.trans hrunning)
    (by rw [hforget]; rfl)
  have hstack : e.executed.1.thread.stack = { c with reported := .empty } :: below := by
    rw [hx, hforget]
  intro hasked
  rw [hpast hasked]
  simp only [Scheduler.advance_eq_unwind hstack hc.loop]

/-! ### The way back -/

/-- What is executed until the thread goes on behind a call to which it has come back: the call,
over and over while its arguments are evaluated, and with its own primitive once. -/
structure Detour (c : Frame) (below : List Frame) (detour rest : List (Execution σ)) : Prop where
  /-- The thread stands at the call, and what is below stays as it is. -/
  holds : ∀ x ∈ detour, x.thread.Holds c below []
  /-- The primitive does nothing, and the thread goes on. -/
  each : ∀ before x after i, detour = before ++ x :: after → x.call? = some i →
    i.result x.ext = (i.before, .done) ∧ x.Returns c below ∧ after = []
  /-- Only when the thread starts over it does not come to that. -/
  next : (∀ x ∈ detour, x.call? = none) → ∀ x ∈ rest.head?, x.thread.Anew

/-- By induction on the blocks of the thread. -/
theorem exists_detour (hc : c.Calling g) : ∀ (later : List (Execution σ)) {e : Execution σ},
    e.Keeps c below [] → (e :: later).IsChain Next →
      (∀ x ∈ later, x.graph = g ∧ g.PlugsValues x.ext ∧ x.thread.status = .running) →
      ∃ detour rest, later = detour ++ rest ∧ Detour c below detour rest := by
  intro later
  induction later with
  | nil =>
    intro e _ _ _
    exact ⟨[], [], rfl, fun _ hx => (by cases hx), fun before x after i h => (by simp at h),
      fun _ x hx => by cases hx⟩
  | cons e' later ih =>
    intro e hkeeps hchain hall
    obtain ⟨hnext, hchain'⟩ := List.isChain_cons_cons.1 hchain
    obtain ⟨hgraph, hg, hrunning⟩ := hall e' (List.mem_cons_self ..)
    rcases hnext.holds hkeeps with hanew | ⟨inner', hholds, hinner⟩
    · refine ⟨[], e' :: later, rfl, fun _ hx => (by cases hx),
        fun before x after i h => (by simp at h), fun _ x hx => ?_⟩
      cases hx
      exact hanew
    · cases hinner rfl
      obtain ⟨memo, hs⟩ := hholds.stack
      cases hcall : e'.call? with
      | some i =>
        have hreturns := returns_of_call hs (hgraph ▸ hc) (hgraph ▸ hg) hrunning hcall
        refine ⟨[e'], later, rfl, fun x hx => ?_, fun before x after j happend hj => ?_,
          fun hnone => ?_⟩
        · rw [List.mem_singleton.1 hx]
          exact hholds
        · rcases List.singleton_eq_append_iff.1 happend with ⟨rfl, h⟩ | ⟨-, h⟩ <;> cases h
          cases hcall.symm.trans hj
          exact ⟨hreturns.1, hreturns.2, rfl⟩
        · cases (hnone e' (List.mem_cons_self ..)).symm.trans hcall
      | none =>
        have hkeeps' := keeps_unrun hs (hgraph ▸ hc.block) (hgraph ▸ hg) hcall
        obtain ⟨detour, rest, rfl, hdetour⟩ :=
          ih hkeeps' hchain' fun x hx => hall x (List.mem_cons_of_mem _ hx)
        refine ⟨e' :: detour, rest, rfl, fun x hx => ?_, fun before x after j happend hj => ?_,
          fun hnone => hdetour.next fun x hx => hnone x (List.mem_cons_of_mem _ hx)⟩
        · rcases List.mem_cons.1 hx with rfl | hx
          · exact hholds
          · exact hdetour.holds x hx
        · cases before with
          | nil =>
            obtain ⟨rfl, -⟩ := List.cons.inj happend
            cases hcall.symm.trans hj
          | cons y before =>
            exact hdetour.each before x after j (List.cons.inj happend).2 hj

/-- **How a script is stopped within a procedure**, at any depth above the call. The frames above
the call are dropped, and nothing else happens to the thread and the world. The next block that
the thread executes, in the same turn, is the call. Its arguments are evaluated once more, in as
many turns as that takes, but the call itself does nothing, and the thread goes on as it does
where the body of the procedure ends. Nothing else is run on the way, and a call without reporters
in its arguments runs nothing but itself. -/
theorem detour_of_plays {ext : Extensions σ} {w w' : World σ} {l : List (Execution σ)}
    {P : Extensions σ → Prop} {front later : List (Execution σ)} (hw : w.Reachable)
    (h : Plays P w l w') (hP : ∀ ext, P ext → ext.Orderly ∧ g.PlugsValues ext) (hext : P ext)
    (fuel : Nat) (id : ThreadId) (hrun : own id (l ++ ofStep ext fuel w') = front ++ e :: later)
    (hgraph : ∀ x ∈ e :: later, x.graph = g) (hs : e.thread.stack = inner ++ c :: below)
    (hinner : ∀ f ∈ inner, g.opcode? f.block ≠ some (.procedure .call)) (hc : c.Calling g)
    (hcall : e.call? = some i) (hstop : i.opcode = .control .stop)
    (hfield : i.site.field? "STOP_OPTION" = some "this script") :
    let s : Scene σ := ⟨i.before.world, { e.entered.thread with stack := c :: below }⟩
    i.result e.ext = (s, .done) ∧
      (s.obey.2 = false → e.after = (e.scheduler.countBlock, s, .goesOn) ∧
        ∀ x ∈ later.head?, x.scheduler = e.scheduler.countBlock ∧ x.scene = s) ∧
      ∃ detour rest, later = detour ++ rest ∧ Detour c below detour rest ∧
        ∀ b, g.get? c.block = some b → plugged b.inputs.entries = [] →
          ∀ x ∈ detour, ∃ j, x.call? = some j ∧ x.calls = [j] ∧ j.before = x.entered := by
  intro s
  obtain ⟨hchain, hstaged⟩ := tail_of_plays hw h (fun ext hp => (hP ext hp).1) hext fuel id hrun
  have hall : ∀ x ∈ e :: later, x.graph = g ∧ g.PlugsValues x.ext ∧ x.thread.status = .running :=
    fun x hx => ⟨hgraph x hx, (hP _ (hstaged x hx).1).2, (hstaged x hx).2.running⟩
  obtain ⟨he, hg, hrunning⟩ := hall e (List.mem_cons_self ..)
  obtain ⟨hresult, hx, hafter⟩ := after_of_stop hs (he ▸ hinner) (he ▸ hc.block) (he ▸ hg) hrunning
    hcall hstop hfield
  obtain ⟨f, rest, htop⟩ := List.exists_cons_of_ne_nil (l := e.thread.stack) (by simp [hs])
  have hkeeps : e.Keeps c below [] := by
    rcases ho : s.obey.2 with _ | _
    · have hholds : e.after.2.1.thread.Holds c below [] := by
        rw [hafter ho]
        refine ⟨⟨c.reported, rfl⟩, fun hi => absurd rfl hi, fun _ hp => ?_⟩
        cases (e.status_entered.trans hrunning).symm.trans hp
      exact .holds hholds fun hi => hi
    · exact keeps_of_obeyed htop hx ho
  obtain ⟨detour, rest, rfl, hdetour⟩ :=
    exists_detour hc later hkeeps hchain fun x hx => hall x (List.mem_cons_of_mem _ hx)
  refine ⟨hresult, fun ho => ⟨hafter ho, fun x hx => ?_⟩, detour, rest, rfl, hdetour,
    fun b hb hplain x hx => ?_⟩
  · have hnext : Next e x := (List.isChain_cons.1 hchain).1 x hx
    exact hnext.of_goesOn (hafter ho) rfl
  · obtain ⟨memo, hstack⟩ := (hdetour.holds x hx).stack
    have hxg := hgraph x (List.mem_cons_of_mem _ (List.mem_append_left _ hx))
    exact calls_of_plain hstack (hxg ▸ hb) hplain

end Execution

namespace World

open Execution

/-- A procedure that stops its script, a call of it with a reporter in its argument, and a block
behind the call. -/
def bail : Graph :=
  Graph.empty.run
    [.create { Block.detached "call" (.procedure .call) with
        inputs := Table.empty.insert "a" (.reporter ⟨1, 0⟩)
        signature := some ⟨"bail %s", ["a"], ["x"], [""], false⟩
        next := some ⟨5, 0⟩
        topLevel := true },
      .create { Block.detached "name" (.sensing .username) with parent := some ⟨0, 0⟩ },
      .create { Block.detached "define" (.procedure .definition) with
        inputs := Table.empty.insert prototypeInput (.reporter ⟨3, 0⟩)
        next := some ⟨4, 0⟩
        topLevel := true },
      .create { Block.detached "bail" (.procedure .prototype) with
        signature := some ⟨"bail %s", ["a"], ["x"], [""], false⟩
        parent := some ⟨2, 0⟩ },
      .create { Block.detached "stop" (.control .stop) with
        fields := Table.empty.insert "STOP_OPTION" ⟨"this script", none⟩
        parent := some ⟨2, 0⟩ },
      .create { Block.detached "hide" (.looks .hide) with parent := some ⟨0, 0⟩ }]

/-- The script with the call has been started. -/
def bailWorld : World Unit :=
  (((blank .standard ()).addSprite "Cat" bail).1.pushThread 0 ⟨0, 0⟩).1

theorem reachable_bailWorld : bailWorld.Reachable := by
  have hactor : ((blank .standard ()).addSprite "Cat" bail).1.Reachable :=
    (Reachable.blank Settings.standard ()).deed (.tend rfl rfl rfl rfl)
  exact hactor.deed (.pushThread _ 0 ⟨0, 0⟩)

/-- **A reporter in an argument is run twice**: before the procedure is entered, and once more
when its script has been stopped and the thread is back at the call. -/
theorem again_of_stop_bail :
    (own 1 (ofStep .empty 9 bailWorld)).map (fun e =>
      (e.thread.stackBlocks.map (·.index), e.calls.map (·.opcode))) =
      [([0], [.sensing .username, .procedure .call]),
        ([0, 2], [.procedure .prototype, .procedure .definition]),
        ([0, 4], [.control .stop]),
        ([0], [.sensing .username, .procedure .call]),
        ([5], [.looks .hide])] := by
  decide +kernel

/-- When the script is stopped the thread goes back to its call, and it comes to the block behind
it. -/
theorem detour_of_plays_bail : bailWorld.Reachable ∧
    Execution.Plays (· = .empty) bailWorld [] bailWorld ∧ ∃ front e later i f c,
      own 1 ([] ++ ofStep .empty 9 bailWorld) = front ++ e :: later ∧
      e.thread.stack = [f] ++ c :: [] ∧ (f.block, c.block) = (⟨4, 0⟩, ⟨0, 0⟩) ∧
      c.Calling bail.indexed ∧ e.call? = some i ∧ i.opcode = .control .stop ∧
      i.site.field? "STOP_OPTION" = some "this script" ∧
      ∃ detour rest, later = detour ++ rest ∧ Detour c [] detour rest := by
  have hshape : (own 1 (ofStep .empty 9 bailWorld)).map (fun e =>
      (e.thread.stack.map fun f => (f.block, f.progress, f.isLoop),
        e.call?.map fun i => (i.opcode, i.site.field? "STOP_OPTION"))) =
      [([(⟨0, 0⟩, .fresh, false)], some (.procedure .call, none)),
        ([(⟨2, 0⟩, .fresh, false), (⟨0, 0⟩, .called, false)],
          some (.procedure .definition, none)),
        ([(⟨4, 0⟩, .fresh, false), (⟨0, 0⟩, .called, false)],
          some (.control .stop, some "this script")),
        ([(⟨0, 0⟩, .called, false)], some (.procedure .call, none)),
        ([(⟨5, 0⟩, .fresh, false)], some (.looks .hide, none))] := by
    decide +kernel
  obtain ⟨e₁, l₁, hown, -, h₁⟩ := List.map_eq_cons_iff.1 hshape
  obtain ⟨e₂, l₂, rfl, -, h₂⟩ := List.map_eq_cons_iff.1 h₁
  obtain ⟨e, later, rfl, he, -⟩ := List.map_eq_cons_iff.1 h₂
  obtain ⟨hstack, hcalled⟩ := Prod.mk.inj he
  obtain ⟨f, l₃, hs, hf, h₃⟩ := List.map_eq_cons_iff.1 hstack
  obtain ⟨c, rfl, hc⟩ := List.map_eq_singleton_iff.1 h₃
  obtain ⟨i, hcall, hi⟩ := Option.map_eq_some_iff.1 hcalled
  simp only [Prod.mk.injEq] at hf hc hi
  have hcalling : c.Calling bail.indexed :=
    ⟨by rw [hc.1]; decide +kernel, hc.2.1, hc.2.2⟩
  have hinner : ∀ x ∈ [f], bail.indexed.opcode? x.block ≠ some (.procedure .call) := fun x hx => by
    rw [List.mem_singleton.1 hx, hf.1]
    decide +kernel
  have hplugs : bail.indexed.PlugsReporters := Graph.plugsReporters_of_check (by decide +kernel)
  have hprogram : bailWorld.Programmed fun _ => bail.indexed := fun e he => by
    rw [List.mem_singleton.1 he]
  have hP : ∀ ext : Extensions Unit, ext = .empty →
      ext.Orderly ∧ bail.indexed.PlugsValues ext := fun ext hp => by
    subst hp
    exact ⟨orderly_empty, hplugs.plugsValues Extensions.spares_empty⟩
  have hplays : Execution.Plays (· = .empty) bailWorld [] bailWorld := .nil _
  have hrun : own 1 ([] ++ ofStep .empty 9 bailWorld) = [e₁, e₂] ++ e :: later := hown
  have hgraph : ∀ x ∈ e :: later, x.graph = bail.indexed := fun x hx => by
    have hmem := ((diary Unit).mem_own.1 (hrun ▸ List.mem_append_right [e₁, e₂] hx)).1
    obtain ⟨-, hg⟩ := graph_ofStep (settled_of_reachable reachable_bailWorld) hprogram 9 x hmem
    exact hg
  obtain ⟨-, -, detour, rest, hlater, hdetour, -⟩ := detour_of_plays reachable_bailWorld hplays hP
    rfl 9 1 hrun hgraph hs hinner hcalling hcall hi.1 hi.2
  exact ⟨reachable_bailWorld, hplays, [e₁, e₂], e, later, i, f, c, hrun, hs,
    Prod.ext hf.1 hc.1, hcalling, hcall, hi.1, hi.2, detour, rest, hlater, hdetour⟩

end World

end Stagecraft
