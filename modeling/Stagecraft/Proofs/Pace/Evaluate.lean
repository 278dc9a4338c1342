import Stagecraft.Proofs.Pace.Lone
import Stagecraft.Schedule.Execute

/-!
# Evaluation in step

Alike scenes evaluate the inputs of a block to the same values, and stay alike. The block itself is
executed alike, too, unless it is a call: that yields where a warp frame is out of time, so after it
one thread may have yielded and the other not.

* `Scene.InStep` : two evaluations on alike scenes went the same way;
* `Scene.inStep_report` : **reporters are evaluated in step**;
* `Scene.Nearly` : the scenes are alike but for the yield of a call;
* `Scene.nearly_execute` : **a block is executed alike but for the yield of a call**.
-/

namespace Stagecraft

namespace Scene

variable {σ α : Type} {c : Settings} {g : Graph} {top : Handle} {s s' : Scene σ}

/-! ### Inputs -/

/-- Two evaluations on alike scenes have the same result, which came at once. -/
structure InStep (c : Settings) (g : Graph) (top : Handle)
    (e e' : Scene σ × Evaluation α) : Prop extends Agree e e' where
  poised : Poised c g top e.1
  prompt : e.2 ≠ .parked

theorem inStep_value (h : Alike s s') (hs : Poised c g top s) (a : α) :
    InStep c g top (s, .value a) (s', .value a) := ⟨⟨h, rfl⟩, hs, by simp⟩

theorem inStep_failed (h : Alike s s') (hs : Poised c g top s) (fault : Fault) :
    InStep c g top (s, (.failed fault : Evaluation α)) (s', .failed fault) :=
  ⟨⟨h, rfl⟩, hs, by simp⟩

/-- A reporter that a script without plugged calls may evaluate. -/
structure Reporter (g : Graph) (top h : Handle) : Prop where
  within : g.Within top h
  noCall : ∀ b, g.get? h = some b → b.opcode ≠ .procedure .call

/-- Inputs are evaluated in step if their reporters are. -/
theorem inStep_gather {report report' : Handle → Scene σ → Scene σ × Evaluation Value}
    (hreport : ∀ h s s', Reporter g top h → Poised c g top s → Alike s s' →
      InStep c g top (report h s) (report' h s'))
    (inputs : List (String × Input)) :
    ∀ (done : List (String × Value)) (s s' : Scene σ),
      (∀ name h, (name, .reporter h) ∈ inputs → Reporter g top h) → Poised c g top s → Alike s s' →
        InStep c g top (gather report inputs done s) (gather report' inputs done s') := by
  induction inputs with
  | nil => exact fun _ s s' _ hs h => inStep_value h hs _
  | cons e rest ih =>
    intro done s s' hin hs h
    have hrest : ∀ name h, (name, .reporter h) ∈ rest → Reporter g top h :=
      fun name h hm => hin name h (List.mem_cons_of_mem _ hm)
    obtain ⟨name, input⟩ := e
    cases input with
    | literal v => exact ih _ s s' hrest hs h
    | branch first => exact ih _ s s' hrest hs h
    | reporter plugged =>
      have hstep := hreport plugged s s' (hin name plugged List.mem_cons_self) hs h
      rw [gather, gather]
      rcases hr : report plugged s with ⟨s₁, e⟩
      rcases hr' : report' plugged s' with ⟨s₁', e'⟩
      rw [hr, hr'] at hstep
      obtain ⟨⟨halike, hanswer⟩, hpoised, hprompt⟩ := hstep
      cases hanswer
      cases e with
      | value v => exact ih _ s₁ s₁' hrest hpoised halike
      | parked => exact absurd rfl hprompt
      | failed fault => exact inStep_failed halike hpoised fault

theorem Poised.remember (h : Poised c g top s) (frame : Nat) (reporter : Handle) (v : Value) :
    Poised c g top (s.remember frame reporter v) := h.modifyFrame _ fun _ => rfl

theorem Alike.remember (h : Alike s s') (frame : Nat) (reporter : Handle) (v : Value) :
    Alike (s.remember frame reporter v) (s'.remember frame reporter v) := h.modifyFrame _ _

theorem Alike.remembered? (h : Alike s s') (frame : Nat) (reporter : Handle) :
    s.remembered? frame reporter = s'.remembered? frame reporter :=
  h.read (F := fun s => s.remembered? frame reporter) fun _ => rfl

/-- The primitive of a reporter runs in step. -/
theorem inStep_settle {site : Site} (hsite : site.graph = g) (k : Scheduler) {h : Handle}
    {b : Block} (hb : g.get? h = some b) (hplain : b.isPlain = true)
    (hcall : b.opcode ≠ .procedure .call) {e e' : Scene σ × Evaluation Args}
    (he : InStep c g top e e') :
    InStep c g top (settle .empty site h b.opcode e)
      (settle .empty { site with scheduler := k } h b.opcode e') := by
  obtain ⟨s, e⟩ := e
  obtain ⟨s', e'⟩ := e'
  obtain ⟨⟨halike, hanswer⟩, hpoised, hprompt⟩ := he
  cases hanswer
  cases e with
  | parked => exact absurd rfl hprompt
  | failed fault => exact inStep_failed halike hpoised fault
  | value args =>
    have hblock : ({ site with block := h } : Site).block? = some b := hsite ▸ hb
    have hgraph : ({ site with block := h } : Site).graph = g := hsite
    have hagree := Primitive.agree_run _ args halike hblock hplain hcall k
    have hrun := hpoised.run _ args hgraph hblock hplain hcall
    have hnow := answer_run hplain { site with block := h } args s
    rw [settle, settle]
    rcases hr : Primitive.run .empty b.opcode { site with block := h } args s with ⟨s₁, o⟩
    rcases hr' : Primitive.run .empty b.opcode
      { ({ site with block := h } : Site) with scheduler := k } args s' with ⟨s₁', o'⟩
    rw [hr, hr'] at hagree
    rw [hr] at hrun hnow
    obtain ⟨halike₁, hanswer₁⟩ := hagree
    cases hanswer₁
    cases o with
    | value v => exact inStep_value (halike₁.remember _ h v) (hrun.remember _ h v) v
    | done => exact inStep_value halike₁ hrun _
    | deferred channel => exact absurd rfl (hnow channel)
    | failed fault => exact inStep_failed halike₁ hrun fault

theorem reporter_of_input (hunplugged : g.Unplugged top) {h : Handle} {b : Block}
    (hw : g.Within top h) (hb : g.get? h = some b) (name : String) (plugged : Handle)
    (hm : (name, Input.reporter plugged) ∈ b.inputs.entries) : Reporter g top plugged :=
  ⟨hw.input hb hm rfl, fun b' hb' => hunplugged h b name plugged b' hw hb hm hb'⟩

/-- **Reporters are evaluated in step**, by induction on the room that is left. -/
theorem inStep_report (site : Site) (hsite : site.graph = g) {k : Scheduler}
    (hk : site.scheduler.maxReporterDepth = k.maxReporterDepth) (hplain : g.Plain top)
    (hunplugged : g.Unplugged top) (room : Nat) :
    ∀ (h : Handle) (s s' : Scene σ), Reporter g top h → Poised c g top s → Alike s s' →
      InStep c g top (report .empty site room h s)
        (report .empty { site with scheduler := k } room h s') := by
  subst hsite
  induction room with
  | zero =>
    intro h s s' _ hs halike
    unfold report
    simp only [halike.remembered? site.frame h, hk]
    cases s'.remembered? site.frame h with
    | some v => exact inStep_value halike hs v
    | none =>
      cases site.graph.get? h with
      | none => exact inStep_value halike hs _
      | some b =>
        simp only
        split
        · exact inStep_value halike hs _
        · exact inStep_failed halike hs _
  | succ room ih =>
    intro h s s' hr hs halike
    unfold report
    simp only [halike.remembered? site.frame h]
    cases s'.remembered? site.frame h with
    | some v => exact inStep_value halike hs v
    | none =>
      cases hb : site.graph.get? h with
      | none => exact inStep_value halike hs _
      | some b =>
        simp only
        split
        · exact inStep_value halike hs _
        · exact inStep_settle rfl k hb (hplain h b hr.within hb) (hr.noCall b hb)
            (inStep_gather ih _ [] s s' (reporter_of_input hunplugged hr.within hb) hs halike)

end Scene

/-! ### Calls -/

namespace Thread

/-- A thread that has taken back a yield. -/
def roused (t : Thread) : Thread := if t.status = .yielded then { t with status := .running } else t

/-- Enter the body of a procedure with arguments. -/
def enterBody (t : Thread) (definition : Handle) (arguments : Table String Value) : Thread :=
  { t with stack :=
      ⟨definition, false, Scheduler.inWarp t, some arguments, .empty, .fresh⟩ :: t.stack }

variable (t : Thread)

theorem timeless_roused : t.roused.timeless = t.timeless.roused := by
  unfold roused
  exact apply_ite timeless _ _ _

/-- Binding the arguments one by one makes a table of them. -/
theorem bindArguments_enterBody (definition : Handle) (p : Parameters)
    (supplied arguments : Table String Value) :
    (t.enterBody definition arguments).bindArguments p supplied =
      t.enterBody definition (p.names.zipIdx.foldl
        (fun a e => a.insert e.1 (argumentValue p supplied e.2)) arguments) := by
  have hfold : ∀ (l : List (String × Nat)) (a : Table String Value),
      l.foldl (fun t e => t.bindArgument e.1 (argumentValue p supplied e.2))
        (t.enterBody definition a) =
      t.enterBody definition
        (l.foldl (fun a e => a.insert e.1 (argumentValue p supplied e.2)) a) := by
    intro l
    induction l with
    | nil => exact fun _ => rfl
    | cons e rest ih => exact fun a => ih (a.insert _ _)
  exact hfold _ _

theorem exists_enterBody (g : Graph) (code : String) (supplied : Table String Value)
    (definition : Handle) : ∃ arguments, ∀ t : Thread,
      (match g.parameters? code with
        | some p => ((t.push definition).initArguments).bindArguments p supplied
        | none => (t.push definition).initArguments) = t.enterBody definition arguments := by
  cases g.parameters? code with
  | none => exact ⟨.empty, fun _ => rfl⟩
  | some p => exact ⟨_, fun t => t.bindArguments_enterBody definition p supplied .empty⟩

end Thread

namespace Scheduler

/-- Entering a procedure: nothing but the settling of the call depends on time. -/
theorem enterProcedure_cases (g : Graph) (code : String) (supplied : Table String Value) :
    (∀ (s : Scheduler) (now : Span) (t : Thread),
      s.enterProcedure now g t code supplied = (t, .unknown)) ∨
    ∃ definition arguments warp, g.definition? code = some definition ∧
      ∀ (s : Scheduler) (now : Span) (t : Thread),
        s.enterProcedure now g t code supplied =
          if s.maxCallDepth ≤ t.depth then (t, .tooDeep)
          else (s.settleCall now (t.enterBody definition arguments) warp
            (t.isRecursiveCall g code), .entered) := by
  cases hd : g.definition? code with
  | none => exact .inl fun s now t => by rw [enterProcedure, hd]
  | some definition =>
    obtain ⟨arguments, hbody⟩ := Thread.exists_enterBody g code supplied definition
    refine .inr ⟨definition, arguments, ((g.parameters? code).map (·.warp)).getD false, rfl,
      fun s now t => ?_⟩
    rw [enterProcedure, hd, ← hbody t]
    cases g.parameters? code <;> rfl

variable (s : Scheduler) (now : Span) {t : Thread}

theorem topBlock?_settleCall (t : Thread) (warp recursive : Bool) :
    (s.settleCall now t warp recursive).topBlock? = t.topBlock? := by
  unfold settleCall
  split
  · rfl
  · split
    · unfold Thread.modifyTop Thread.topBlock?
      split
      · rename_i hstack
        simp [hstack]
      · rfl
    · split <;> rfl

/-- In a warp frame there is nothing to do for a procedure that runs in warp. -/
theorem modifyTop_warp (hw : inWarp t = true) :
    (t.modifyTop fun f => { f with warp := true }) = t := by
  obtain ⟨_, _, _, stack, _⟩ := t
  cases stack with
  | nil => rfl
  | cons f rest =>
    obtain ⟨_, _, warp, _⟩ := f
    obtain rfl : warp = true := hw
    rfl

/-- But for the yield, a call is settled the same at all times. -/
theorem roused_settleCall (warp recursive : Bool)
    (hawake : t.status ≠ .parked ∧ t.status ≠ .yieldedTick)
    (hspent : t.status = .done → inWarp t = false ∧ recursive = false) :
    (s.settleCall now t warp recursive).roused =
      (if warp then t.modifyTop fun f => { f with warp := true } else t).roused := by
  by_cases hdone : t.status = .done
  · -- a thread that has ended does not yield
    obtain ⟨hw, rfl⟩ := hspent hdone
    simp [settleCall, hw]
  · have hyield : ({ t with status := .yielded } : Thread).roused = t.roused := by
      obtain ⟨_, _, _, _, status, _⟩ := t
      cases status with
      | running | yielded => rfl
      | done => exact absurd rfl hdone
      | parked => exact absurd rfl hawake.1
      | yieldedTick => exact absurd rfl hawake.2
    unfold settleCall
    split
    · rename_i hlate
      rw [hyield, modifyTop_warp (Bool.and_eq_true_iff.1 hlate).1, ite_self]
    · split
      · rfl
      · split
        · exact hyield
        · rfl

/-- So it is with a call that has entered its body. -/
theorem roused_settleCall_enterBody (g : Graph) (code : String) (definition : Handle)
    (arguments : Table String Value) (warp : Bool)
    (hawake : t.status ≠ .parked ∧ t.status ≠ .yieldedTick) (hspent : t.Spent) :
    (s.settleCall now (t.enterBody definition arguments) warp (t.isRecursiveCall g code)).roused =
      (if warp then (t.enterBody definition arguments).modifyTop fun f => { f with warp := true }
        else t.enterBody definition arguments).roused := by
  refine s.roused_settleCall now warp _ hawake fun hdone => ?_
  have hnone : t.stack = [] := hspent hdone
  simp [inWarp, Thread.enterBody, Thread.isRecursiveCall, hnone]

end Scheduler

namespace Scene

variable {σ : Type} {c : Settings} {g : Graph} {top : Handle} {s s' : Scene σ}

/-- A scene whose thread has taken back a yield. -/
def roused (s : Scene σ) : Scene σ := { s with thread := s.thread.roused }

/-- The scenes are alike, or a call in `block` has entered its procedure and they may differ in
whether it yielded. -/
inductive Nearly (block : Handle) (s s' : Scene σ) : Prop
  | alike : Alike s s' → Nearly block s s'
  | called {h : Handle} : s.thread.topBlock? = some h → h ≠ block → Alike s.roused s'.roused →
      Nearly block s s'

theorem nearly_startProcedure (h : Alike s s') (hs : Poised c g top s) {site : Site}
    (hsite : site.graph = g) {k : Scheduler} (hk : site.scheduler.maxCallDepth = k.maxCallDepth)
    {code : String} (supplied : Table String Value)
    (hne : ∀ definition, g.definition? code = some definition → definition ≠ site.block) :
    Nearly site.block (s.startProcedure site code supplied).1
      (s'.startProcedure { site with scheduler := k } code supplied).1 := by
  subst hsite
  have hdepth : s.thread.depth = s'.thread.depth :=
    h.read (F := fun s => s.thread.depth) fun _ => rfl
  have hrecursive : s.thread.isRecursiveCall site.graph code =
      s'.thread.isRecursiveCall site.graph code :=
    h.read (F := fun s => s.thread.isRecursiveCall site.graph code) fun _ => rfl
  rcases Scheduler.enterProcedure_cases site.graph code supplied with
    hunknown | ⟨definition, arguments, warp, hdefinition, henter⟩
  · simp only [startProcedure, hunknown]
    exact .alike h
  · by_cases hdeep : k.maxCallDepth ≤ s'.thread.depth
    · simp only [startProcedure, henter, hk, hdepth, if_pos hdeep]
      exact .alike (h.map (F := fun s =>
        { s with world := s.world.notify (.callTooDeep s.thread.id code s'.thread.depth) })
          fun _ => rfl)
    · simp only [startProcedure, henter, hk, hdepth, if_neg hdeep]
      have hspent' : s'.thread.Spent := by
        rw [Thread.Spent, ← h.status, ← h.stack]
        exact hs.spent
      refine .called (Scheduler.topBlock?_settleCall _ _ _ _ _) (hne definition hdefinition) ?_
      simp only [roused]
      rw [Scheduler.roused_settleCall_enterBody _ _ _ _ _ _ _ hs.awake hs.spent,
        Scheduler.roused_settleCall_enterBody _ _ _ _ _ _ _ (h.status ▸ hs.awake) hspent']
      refine h.map (F := fun s => { s with thread := (if warp then (s.thread.enterBody definition
        arguments).modifyTop fun f => { f with warp := true } else s.thread.enterBody definition
          arguments).roused }) fun s => congrArg (Scene.mk s.world.timeless) ?_
      cases warp
      · exact Thread.timeless_roused _
      · exact (Thread.timeless_roused _).trans
          (congrArg Thread.roused (Thread.timeless_modifyTop _ _))

theorem nearly_call (h : Alike s s') (hs : Poised c g top s) {site : Site}
    (hsite : site.graph = g) {k : Scheduler} (hk : site.scheduler.maxCallDepth = k.maxCallDepth)
    (args : Args)
    (hne : ∀ code definition, g.definition? code = some definition → definition ≠ site.block) :
    Nearly site.block (Primitive.call site args s)
      (Primitive.call { site with scheduler := k } args s') := by
  have hprogress : s'.progress? { site with scheduler := k } = s.progress? site :=
    (h.progress? site).symm
  have hblock : ({ site with scheduler := k } : Site).block? = site.block? := rfl
  unfold Primitive.call
  rw [hprogress, hblock]
  split
  · exact .alike h
  · split
    · exact .alike h
    · exact nearly_startProcedure (h.keep site .called) (hs.keep site .called) hsite hk _ (hne _)

theorem Lone.startProcedure (h : Lone c g top s) {site : Site} (hsite : site.graph = g)
    {code : String} (supplied : Table String Value)
    (hin : ∀ definition, g.definition? code = some definition → g.Within top definition) :
    Lone c g top (s.startProcedure site code supplied).1 := by
  subst hsite
  have hgoes := site.scheduler.goes_enterProcedure s.world.now site.graph s.thread supplied hin
  unfold Scene.startProcedure
  split
  · rename_i he
    rw [he] at hgoes
    exact h.goes hgoes
  · exact h
  · exact h.calm ⟨rfl, rfl, rfl, rfl, rfl, rfl, fun _ => rfl⟩

theorem Poised.call (h : Poised c g top s) {site : Site} (hsite : site.graph = g) (args : Args)
    {b : Block} (hw : g.Within top site.block) (hb : site.block? = some b)
    (hop : b.opcode = .procedure .call) : Lone c g top (Primitive.call site args s) := by
  unfold Primitive.call
  split
  · exact h.toLone
  · split
    · exact h.toLone
    · rename_i signature hsignature
      rw [hb] at hsignature
      refine (h.keep site .called).toLone.startProcedure hsite _ fun definition hdefinition => ?_
      exact hw.call (hsite ▸ hb) hop hsignature hdefinition

/-! ### Blocks -/

theorem topBlock?_forget (s : Scene σ) (frame : Nat) :
    (s.forget frame).thread.topBlock? = s.thread.topBlock? := by
  unfold forget Thread.modifyFrame Thread.topBlock?
  simp only
  split
  · rw [List.head?_eq_getElem?, List.getElem?_modify, List.head?_eq_getElem?]
    cases s.thread.stack[0]? with
    | none => rfl
    | some f =>
      simp only [Option.map_eq_map, Option.map_some]
      split <;> rfl
  · rfl

theorem roused_forget (s : Scene σ) (frame : Nat) :
    (s.forget frame).roused = s.roused.forget frame := by
  unfold forget roused Thread.roused Thread.modifyFrame
  simp only
  split <;> split <;> simp_all

theorem Alike.forget (h : Alike s s') (frame : Nat) : Alike (s.forget frame) (s'.forget frame) :=
  h.modifyFrame _ _

theorem Nearly.forget {block : Handle} (h : Nearly block s s') (frame : Nat) :
    Nearly block (s.forget frame) (s'.forget frame) := by
  cases h with
  | alike h => exact .alike (h.forget frame)
  | called ht hne h =>
    refine .called ((topBlock?_forget s frame).trans ht) hne ?_
    rw [roused_forget, roused_forget]
    exact h.forget frame

/-- What a block reported, if it is the one from which the thread started. -/
theorem agree_finish (site : Site) {r r' : Scene σ × Outcome} (h : Agree r r')
    (hnow : ∀ channel, r.2 ≠ .deferred channel) :
    Agree (finish site r) (finish site r') := by
  obtain ⟨s, o⟩ := r
  obtain ⟨s', o'⟩ := r'
  obtain ⟨halike, hanswer⟩ := h
  obtain rfl : o = o' := hanswer
  have hforget := Alike.forget halike site.frame
  cases o with
  | deferred channel => exact absurd rfl (hnow channel)
  | done => exact ⟨hforget, rfl⟩
  | failed fault => exact ⟨hforget, rfl⟩
  | value v =>
    have htop : (s.forget site.frame).thread.top = (s'.forget site.frame).thread.top :=
      hforget.read (F := fun s => s.thread.top) fun _ => rfl
    simp only [finish]
    by_cases hstarted : (s.forget site.frame).thread.top = some site.block
    · rw [if_pos hstarted, if_pos (htop ▸ hstarted)]
      exact ⟨hforget.map (F := fun s =>
        { s with thread := { s.thread with reported := some v } }) fun _ => rfl, rfl⟩
    · rw [if_neg hstarted, if_neg (htop ▸ hstarted)]
      exact ⟨hforget, rfl⟩

theorem Lone.finish {site : Site} {r : Scene σ × Outcome} (h : Lone c g top r.1)
    (hnow : ∀ channel, r.2 ≠ .deferred channel) : Lone c g top (finish site r).1 := by
  obtain ⟨s, o⟩ := r
  have hforget : Lone c g top (s.forget site.frame) := h.modifyFrame _ fun _ => rfl
  cases o with
  | deferred channel => exact absurd rfl (hnow channel)
  | done => exact hforget
  | failed fault => exact hforget
  | value v =>
    rw [Scene.finish]
    simp only
    split
    · exact hforget.goes (Thread.goes_reported _ _)
    · exact hforget

/-- **A block is executed alike but for the yield of a call**, and leaves the thread on its own. -/
theorem nearly_execute (huntimed : g.Untimed top) (h : Alike s s') (hs : Poised c g top s)
    {k k' : Scheduler} (hk : k.timeless = k'.timeless) {block : Handle}
    (htop : s.thread.topBlock? = some block) :
    Nearly block (s.execute .empty k g).1 (s'.execute .empty k' g).1 ∧
      (s.execute .empty k g).2 = (s'.execute .empty k' g).2 ∧
      Lone c g top (s.execute .empty k g).1 := by
  have hcalls : k.maxCallDepth = k'.maxCallDepth := (congrArg Scheduler.maxCallDepth hk :)
  have hreporters : k.maxReporterDepth = k'.maxReporterDepth :=
    (congrArg Scheduler.maxReporterDepth hk :)
  have hdepth : s'.thread.depth = s.thread.depth :=
    h.symm.read (F := fun s => s.thread.depth) fun _ => rfl
  have hin : g.Within top block := by
    obtain ⟨f, hf, rfl⟩ := Option.map_eq_some_iff.1 htop
    exact hs.within f (List.mem_of_mem_head? hf)
  unfold execute
  rw [← h.topBlock?, htop]
  simp only
  cases hb : g.get? block with
  | none => exact ⟨.alike h, rfl, hs.toLone⟩
  | some b =>
    have hplain := huntimed.plain block b hin hb
    have hgather := inStep_gather (inStep_report ⟨k, g, block, s.thread.depth - 1⟩ rfl hreporters
      huntimed.plain huntimed.unplugged k.maxReporterDepth) b.inputs.entries [] s s'
      (reporter_of_input huntimed.unplugged hin hb) hs h
    simp only [← hreporters, hdepth]
    generalize gather _ b.inputs.entries [] s = r at hgather ⊢
    generalize gather _ b.inputs.entries [] s' = r' at hgather ⊢
    obtain ⟨s₁, e⟩ := r
    obtain ⟨s₁', e'⟩ := r'
    obtain ⟨⟨halike, hanswer⟩, hpoised, hprompt⟩ := hgather
    cases hanswer
    cases e with
    | parked => exact absurd rfl hprompt
    | failed fault => exact ⟨.alike halike, rfl, hpoised.toLone⟩
    | value args =>
      by_cases hcall : b.opcode = .procedure .call
      · rw [hcall]
        have hne : ∀ code definition, g.definition? code = some definition →
            definition ≠ block := by
          rintro code definition hdefinition rfl
          have hopcode := huntimed.defines code definition hdefinition
          simp [Graph.opcode?, hb, hcall] at hopcode
        exact ⟨(nearly_call halike hpoised rfl hcalls args hne).forget _, rfl,
          (hpoised.call rfl args hin hb hcall).modifyFrame _ fun _ => rfl⟩
      · have hrun := hpoised.run ⟨k, g, block, s.thread.depth - 1⟩ args rfl hb hplain hcall
        have hagree := Primitive.agree_run ⟨k, g, block, s.thread.depth - 1⟩ args halike hb hplain
          hcall k'
        have hnow := answer_run hplain ⟨k, g, block, s.thread.depth - 1⟩ args s₁
        obtain ⟨hfinished, hfault⟩ := agree_finish ⟨k, g, block, s.thread.depth - 1⟩ hagree hnow
        exact ⟨.alike hfinished, hfault, hrun.toLone.finish hnow⟩

end Scene

end Stagecraft
