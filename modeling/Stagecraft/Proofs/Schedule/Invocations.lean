import Stagecraft.Proofs.Report.Calls
import Stagecraft.Proofs.Schedule.Makeup
import Stagecraft.Proofs.Schedule.Warp

/-!
# The primitives that a turn runs

A block runs primitives: those of the reporters plugged into it, one after the other, and then its
own. All else that happens in a turn is the scheduler's doing: it keeps books about the thread and
moves it from block to block. So a turn leads from one scene to another by way of the primitives
that it runs, also where it has not come to its end.

* `Scene.invocations`, `Pass.visitInvocations` : the primitives that a block runs, and a turn;
* `Scene.Executed` : how executing a block comes out, with what it runs on the way;
* `Scene.Tidies` : what the scheduler does with a scene by itself;
* `Scene.Along` : a scene leads to another by way of primitives;
* `Pass.along_visit`, `Pass.along_of_mem` : **a turn leads along the primitives that it runs**, and
  to each of them along the ones before it.
-/

namespace Stagecraft

/-- A block stands in an input of a live one. -/
def Graph.Plugs (g : Graph) (h : Handle) : Prop :=
  ∃ c b, g.get? c = some b ∧ h ∈ plugged b.inputs.entries

/-- The same limits: two schedulers at different points of a pass. -/
def Scheduler.Alike (k k' : Scheduler) : Prop := ∃ started resume stats,
  k' = { k with passStarted := started, resumeAt := resume, stats := stats }

namespace Scheduler.Alike

variable {k k' k'' : Scheduler}

theorem refl (k : Scheduler) : k.Alike k := ⟨k.passStarted, k.resumeAt, k.stats, rfl⟩

theorem trans (h : k.Alike k') (h' : k'.Alike k'') : k.Alike k'' := by
  obtain ⟨_, _, _, rfl⟩ := h
  obtain ⟨_, _, _, rfl⟩ := h'
  exact ⟨_, _, _, rfl⟩

theorem countBlock (k : Scheduler) : k.Alike k.countBlock := ⟨_, _, _, rfl⟩

theorem maxCallDepth (h : k.Alike k') : k'.maxCallDepth = k.maxCallDepth := by
  obtain ⟨_, _, _, rfl⟩ := h
  rfl

end Scheduler.Alike

/-- A primitive that is run where another one is, for a block and with its operation. -/
structure Invocation.At {σ : Type} (site : Site) (i : Invocation σ) : Prop where
  place : i.site = { site with block := i.block }
  opcode : ∃ b, site.graph.get? i.block = some b ∧ b.opcode = i.opcode

namespace Scene

variable {σ : Type} {ext : Extensions σ} {site : Site} {s s' s'' : Scene σ}
  {l l' : List (Invocation σ)}

/-! ### Evaluating inputs -/

/-- What evaluating inputs does: it runs reporters, and the executing frame remembers what they
gave. -/
inductive Evaluates (ext : Extensions σ) (site : Site) (s : Scene σ) :
    List (Invocation σ) → Scene σ → Prop
  | nil : Evaluates ext site s [] s
  | remember {l : List (Invocation σ)} {s' : Scene σ} (h : Handle) (v : Value) :
      Evaluates ext site s l s' → Evaluates ext site s l (s'.remember site.frame h v)
  | report {l : List (Invocation σ)} {i : Invocation σ} : Evaluates ext site s l i.before →
      i.At site → site.graph.Plugs i.block → Evaluates ext site s (l ++ [i]) (i.result ext).1

theorem Evaluates.trans (h : Evaluates ext site s l s') (h' : Evaluates ext site s' l' s'') :
    Evaluates ext site s (l ++ l') s'' := by
  induction h' with
  | nil => rwa [List.append_nil]
  | remember h v _ ih => exact ih.remember h v
  | report _ hat hp ih =>
    rw [← List.append_assoc]
    exact ih.report hat hp

/-- How an evaluation comes out: a reporter may have parked the thread at last. -/
def Comes {α : Type} (ext : Extensions σ) (site : Site) (s : Scene σ) (l : List (Invocation σ)) :
    Scene σ × Evaluation α → Prop
  | (s', .value _) => Evaluates ext site s l s'
  | (s', .failed _) => Evaluates ext site s l s'
  | (s', .parked) => ∃ s₁ channel h, Evaluates ext site s l s₁ ∧ s' = s₁.park channel (.reporter h)

/-- What comes first is evaluated first. -/
theorem Comes.after {α : Type} {r : Scene σ × Evaluation α} (h : Evaluates ext site s l s')
    (h' : Comes ext site s' l' r) : Comes ext site s (l ++ l') r := by
  obtain ⟨s₁, e⟩ := r
  cases e with
  | value v => exact h.trans h'
  | failed fault => exact h.trans h'
  | parked =>
    obtain ⟨s₂, channel, block, he, hs⟩ := h'
    exact ⟨s₂, channel, block, h.trans he, hs⟩

theorem comes_gather {report : Handle → Scene σ → Scene σ × Evaluation Value}
    {calls : Handle → Scene σ → List (Invocation σ)} (inputs : List (String × Input))
    (hreport : ∀ h ∈ plugged inputs, ∀ s, Comes ext site s (calls h s) (report h s)) :
    ∀ (done : List (String × Value)) (s : Scene σ),
      Comes ext site s (gatherCalls report calls inputs s) (gather report inputs done s) := by
  induction inputs with
  | nil => exact fun _ _ => .nil
  | cons e rest ih =>
    intro done s
    obtain ⟨name, input⟩ := e
    have hrest : ∀ h ∈ plugged rest, ∀ s, Comes ext site s (calls h s) (report h s) := by
      intro h hm
      obtain ⟨e, he, hsome⟩ := List.mem_filterMap.1 hm
      exact hreport h (List.mem_filterMap.2 ⟨e, List.mem_cons_of_mem _ he, hsome⟩)
    cases input with
    | literal v => exact ih hrest _ s
    | branch h => exact ih hrest _ s
    | reporter h =>
      have hr := hreport h (List.mem_filterMap.2 ⟨_, List.mem_cons_self, rfl⟩) s
      rw [gather, gatherCalls]
      rcases hh : report h s with ⟨s₁, e⟩
      rw [hh] at hr
      cases e with
      | value v => exact Comes.after hr (ih hrest _ s₁)
      | failed fault =>
        rw [List.append_nil]
        exact hr
      | parked =>
        rw [List.append_nil]
        exact hr

theorem comes_settle {h : Handle} {b : Block} (hb : site.graph.get? h = some b)
    (hp : site.graph.Plugs h) {e : Scene σ × Evaluation Args} (he : Comes ext site s l e) :
    Comes ext site s (l ++ ownCall site h b.opcode e) (settle ext site h b.opcode e) := by
  obtain ⟨s₁, e⟩ := e
  cases e with
  | failed fault =>
    rw [ownCall, settle, List.append_nil]
    exact he
  | parked =>
    rw [ownCall, settle, List.append_nil]
    exact he
  | value args =>
    have hrun : Evaluates ext site s (l ++ [⟨{ site with block := h }, b.opcode, args, s₁⟩]) _ :=
      Evaluates.report (i := ⟨{ site with block := h }, b.opcode, args, s₁⟩) he
        ⟨rfl, b, hb, rfl⟩ hp
    rw [ownCall, settle]
    split
    all_goals
      rename_i ho
      rw [Invocation.result, ho] at hrun
    · exact hrun.remember h _
    · exact hrun
    · exact ⟨_, _, _, hrun, rfl⟩
    · exact hrun

/-- Evaluating a reporter, by induction on the room that is left. -/
theorem comes_report (site : Site) (room : Nat) : ∀ (h : Handle), site.graph.Plugs h →
    ∀ s : Scene σ, Comes ext site s (reportCalls ext site room h s) (report ext site room h s) := by
  induction room with
  | zero =>
    intro h _ s
    rw [report, reportCalls]
    cases s.remembered? site.frame h with
    | some v => exact Evaluates.nil
    | none =>
      cases site.graph.get? h with
      | none => exact Evaluates.nil
      | some b =>
        by_cases hmenu : b.opcode.isMenu = true
        all_goals
          simp only [hmenu]
          exact Evaluates.nil
  | succ room ih =>
    intro h hp s
    rw [report, reportCalls]
    cases s.remembered? site.frame h with
    | some v => exact Evaluates.nil
    | none =>
      cases hb : site.graph.get? h with
      | none => exact Evaluates.nil
      | some b =>
        by_cases hmenu : b.opcode.isMenu = true
        · simp only [hmenu, if_true]
          exact Evaluates.nil
        · simp only [hmenu]
          exact comes_settle hb hp
            (comes_gather b.inputs.entries (fun c hc => ih c ⟨h, b, hb, hc⟩) [] s)

/-! ### Executing a block -/

/-- Where a block of the thread is executed. -/
def siteAt (k : Scheduler) (g : Graph) (s : Scene σ) (h : Handle) : Site :=
  ⟨k, g, h, s.thread.depth - 1⟩

/-- The primitives that executing the top block runs: those of reporters, and its own if it comes to
that. -/
def invocations (ext : Extensions σ) (k : Scheduler) (g : Graph) (s : Scene σ) :
    List (Invocation σ) :=
  match s.thread.topBlock? with
  | none => []
  | some h =>
    match g.get? h with
    | none => []
    | some b =>
      let site := siteAt k g s h
      gatherCalls (report ext site k.maxReporterDepth) (reportCalls ext site k.maxReporterDepth)
          b.inputs.entries s ++
        ownCall site h b.opcode (gather (report ext site k.maxReporterDepth) b.inputs.entries [] s)

/-- How executing the top block comes out. -/
inductive Executed (ext : Extensions σ) (k : Scheduler) (g : Graph) (s : Scene σ) :
    List (Invocation σ) → Scene σ × Option Fault → Prop
  /-- There is no block. -/
  | skipped : Executed ext k g s [] (s, none)
  /-- A reporter failed. -/
  | failed {h : Handle} {l : List (Invocation σ)} {s₁ : Scene σ} (f : Fault) :
      s.thread.topBlock? = some h → Evaluates ext (siteAt k g s h) s l s₁ →
      Executed ext k g s l (s₁, some f)
  /-- A reporter parked the thread. -/
  | parked {h : Handle} {l : List (Invocation σ)} {s₁ : Scene σ} (channel : Nat) (c : Handle) :
      s.thread.topBlock? = some h → Evaluates ext (siteAt k g s h) s l s₁ →
      Executed ext k g s l (s₁.park channel (.reporter c), none)
  /-- The primitive of the block was run. -/
  | ran {h : Handle} {l : List (Invocation σ)} {i : Invocation σ} :
      s.thread.topBlock? = some h → Evaluates ext (siteAt k g s h) s l i.before →
      i.At (siteAt k g s h) → i.block = h →
      Executed ext k g s (l ++ [i]) (finish (siteAt k g s h) (i.result ext))

/-- **These are all ways in which executing a block comes out.** -/
theorem executed (ext : Extensions σ) (k : Scheduler) (g : Graph) (s : Scene σ) :
    Executed ext k g s (s.invocations ext k g) (s.execute ext k g) := by
  rw [invocations, execute]
  cases htop : s.thread.topBlock? with
  | none => exact .skipped
  | some h =>
    cases hb : g.get? h with
    | none =>
      simp only [hb]
      exact .skipped
    | some b =>
      have hreport : ∀ c ∈ plugged b.inputs.entries, ∀ s' : Scene σ, Comes ext (siteAt k g s h) s'
          (reportCalls ext (siteAt k g s h) k.maxReporterDepth c s')
          (report ext (siteAt k g s h) k.maxReporterDepth c s') :=
        fun c hc => comes_report (siteAt k g s h) k.maxReporterDepth c ⟨h, b, hb, hc⟩
      have hg := comes_gather b.inputs.entries hreport [] s
      simp only [hb, siteAt] at hg ⊢
      rcases he : gather (report ext ⟨k, g, h, s.thread.depth - 1⟩ k.maxReporterDepth)
        b.inputs.entries [] s with ⟨s₁, e⟩
      rw [he] at hg
      cases e with
      | failed fault =>
        rw [ownCall, List.append_nil]
        exact .failed fault htop hg
      | parked =>
        rw [ownCall, List.append_nil]
        obtain ⟨s₂, channel, c, hs, rfl⟩ := hg
        exact .parked channel c htop hs
      | value args =>
        exact Executed.ran (i := ⟨siteAt k g s h, b.opcode, args, s₁⟩) htop hg ⟨rfl, b, hb, rfl⟩ rfl

end Scene

/-! ### What the scheduler does by itself -/

/-- The same script in the same place: something is noted about the thread. -/
structure Thread.Marked (t t' : Thread) : Prop where
  id : t'.id = t.id
  actor : t'.actor = t.actor
  top : t'.top = t.top
  stack : t'.stack = t.stack

/-- A primitive that is run in a turn: for a block of the program, and under the limits of the
pass. -/
structure Invocation.Within {σ : Type} (k : Scheduler) (g? : Option Graph) (i : Invocation σ) :
    Prop where
  graph : g? = some i.site.graph
  limits : k.Alike i.site.scheduler
  opcode : ∃ b, i.site.block? = some b ∧ b.opcode = i.opcode

theorem Invocation.Within.of_alike {σ : Type} {k k' : Scheduler} {g? : Option Graph}
    {i : Invocation σ} (hk : k.Alike k') (h : i.Within k' g?) : i.Within k g? :=
  ⟨h.graph, hk.trans h.limits, h.opcode⟩

namespace Scene

variable {σ : Type} {k k' : Scheduler} {g : Graph} {g? : Option Graph} {s s' s'' : Scene σ}
  {l l' : List (Invocation σ)}

/-- What the scheduler does with a scene by itself. -/
inductive Tidies (k : Scheduler) (g? : Option Graph) : Scene σ → Scene σ → Prop
  /-- Time passes, a result is looked for, a fault is recorded. -/
  | tend (s : Scene σ) {w : World σ} : s.world.Beside w → Tidies k g? s { s with world := w }
  | mark (s : Scene σ) {t : Thread} : s.thread.Marked t → Tidies k g? s { s with thread := t }
  /-- A frame remembers what a reporter gave, or forgets it. -/
  | memo (s : Scene σ) (n : Nat) (f : Table Handle Value → Table Handle Value) :
      Tidies k g? s { s with thread := { s.thread with
        stack := s.thread.stack.modify n fun x => { x with reported := f x.reported } } }
  | retire (s : Scene σ) : Tidies k g? s s.retire
  | restart (s : Scene σ) : Tidies k g? s { s with thread := s.thread.restart }
  /-- The thread moves on from its top block. -/
  | advance (s : Scene σ) {k' : Scheduler} {g : Graph} : k.Alike k' → g? = some g →
      Tidies k g? s { s with thread := (k'.advance s.world.now g s.thread).1 }

namespace Tidies

theorem sameCast (h : Tidies k g? s s') : World.SameCast s.world s'.world := by
  cases h with
  | tend hw => exact hw.cast
  | _ => exact .refl _

theorem actor (h : Tidies k g? s s') : s'.thread.actor = s.thread.actor := by
  cases h with
  | mark ht => exact ht.actor
  | advance => exact (Scheduler.advanced_of_advance rfl).moved.actor
  | _ => rfl

end Tidies

/-- A scene leads to another by way of primitives; in between there is only what the scheduler
does. -/
inductive Along (k : Scheduler) (g? : Option Graph) (s : Scene σ) :
    List (Invocation σ) → Scene σ → Prop
  | nil : Along k g? s [] s
  | tidy {l : List (Invocation σ)} {s' s'' : Scene σ} :
      Along k g? s l s' → Tidies k g? s' s'' → Along k g? s l s''
  | call {l : List (Invocation σ)} {i : Invocation σ} :
      Along k g? s l i.before → i.Within k g? → Along k g? s (l ++ [i]) (i.result .empty).1

namespace Along

theorem one (h : Tidies k g? s s') : Along k g? s [] s' := .tidy .nil h

theorem trans (h : Along k g? s l s') (h' : Along k g? s' l' s'') :
    Along k g? s (l ++ l') s'' := by
  induction h' with
  | nil => rwa [List.append_nil]
  | tidy _ ht ih => exact ih.tidy ht
  | call _ hi ih =>
    rw [← List.append_assoc]
    exact ih.call hi

/-- Nothing is run at last. -/
theorem quiet (h : Along k g? s l s') (h' : Along k g? s' [] s'') : Along k g? s l s'' :=
  List.append_nil l ▸ h.trans h'

theorem of_alike (hk : k.Alike k') (h : Along k' g? s l s') : Along k g? s l s' := by
  induction h with
  | nil => exact .nil
  | tidy _ ht ih =>
    refine ih.tidy ?_
    cases ht with
    | tend hw => exact .tend _ hw
    | mark ht => exact .mark _ ht
    | memo n f => exact .memo _ n f
    | retire => exact .retire _
    | restart => exact .restart _
    | advance hk' hg => exact .advance _ (hk.trans hk') hg
  | call _ hi ih => exact ih.call (hi.of_alike hk)

/-- **The primitives before one of them lead to it.** -/
theorem upto (h : Along k g? s l s') {front rest : List (Invocation σ)} {i : Invocation σ}
    (hl : l = front ++ i :: rest) : Along k g? s front i.before ∧ i.Within k g? := by
  induction h generalizing rest with
  | nil => simp at hl
  | tidy _ _ ih => exact ih hl
  | @call l j hj hin ih =>
    rcases List.eq_nil_or_concat rest with rfl | ⟨rest', j', rfl⟩
    · obtain ⟨rfl, hij⟩ := List.append_inj' hl rfl
      cases hij
      exact ⟨hj, hin⟩
    · rw [List.concat_eq_append, ← List.cons_append, ← List.append_assoc] at hl
      exact ih (List.append_inj' hl rfl).1

end Along

/-! ### A block -/

theorem tidies_memoFrame (s : Scene σ) (n : Nat) (f : Table Handle Value → Table Handle Value) :
    Tidies k g? s { s with thread := s.thread.modifyFrame n fun x =>
      { x with reported := f x.reported } } := by
  unfold Thread.modifyFrame
  split
  · exact .memo s _ f
  · exact .mark s ⟨rfl, rfl, rfl, rfl⟩

theorem tidies_memoTop (s : Scene σ) (f : Table Handle Value → Table Handle Value) :
    Tidies k g? s { s with thread := s.thread.modifyTop fun x =>
      { x with reported := f x.reported } } := by
  have hmemo : Tidies k g? s { s with thread := { s.thread with
      stack := s.thread.stack.modify 0 fun x => { x with reported := f x.reported } } } :=
    .memo s 0 f
  unfold Thread.modifyTop
  split
  · rename_i top rest hstack
    rw [hstack] at hmemo
    exact hmemo
  · exact .mark s ⟨rfl, rfl, rfl, rfl⟩

theorem along_finish (site : Site) (r : Scene σ × Outcome) :
    Along k g? r.1 [] (finish site r).1 := by
  have hforget : Along k g? r.1 [] (r.1.forget site.frame) :=
    .one (tidies_memoFrame r.1 site.frame fun _ => .empty)
  exact finish_cases (P := Along k g? r.1 []) (fun _ _ => .one (.mark _ ⟨rfl, rfl, rfl, rfl⟩))
    hforget fun _ hforget => hforget.tidy (.mark _ ⟨rfl, rfl, rfl, rfl⟩)

/-- A primitive of the block that is executed, or of a reporter of it, is one of the turn. -/
theorem within_of_at {i : Invocation σ} {site : Site} (hi : i.At site)
    (hk : k.Alike site.scheduler) : i.Within k (some site.graph) := by
  obtain ⟨hplace, b, hb, hop⟩ := hi
  refine ⟨by rw [hplace], by rw [hplace]; exact hk, b, ?_, hop⟩
  rw [Site.block?, hplace]
  exact hb

theorem Evaluates.along {site : Site} (h : Evaluates .empty site s l s')
    (hk : k.Alike site.scheduler) : Along k (some site.graph) s l s' := by
  induction h with
  | nil => exact .nil
  | remember h v _ ih => exact ih.tidy (tidies_memoFrame _ site.frame fun memo => memo.insert h v)
  | report _ hi _ ih => exact ih.call (within_of_at hi hk)

theorem Executed.along {r : Scene σ × Option Fault} (h : Executed .empty k' g s l r)
    (hk : k.Alike k') : Along k (some g) s l r.1 := by
  cases h with
  | skipped => exact .nil
  | failed f _ he => exact he.along hk
  | parked channel c _ he => exact (he.along hk).tidy (.mark _ ⟨rfl, rfl, rfl, rfl⟩)
  | @ran h _ i _ he hi _ =>
    have hcall : Along k (some g) s _ (i.result .empty).1 :=
      (he.along hk).call (within_of_at hi hk)
    exact hcall.quiet (along_finish (siteAt k' g s h) (i.result .empty))

theorem along_entered (s : Scene σ) : Along k g? s [] s.entered := by
  have htime : Along k g? s [] { s with world := s.world.elapse } :=
    .one (.tend s ⟨rfl, rfl, rfl, rfl, ⟨rfl, rfl, rfl, rfl, rfl, rfl, rfl⟩, rfl⟩)
  unfold entered startWarp
  split
  · exact htime.tidy (.mark _ ⟨rfl, rfl, rfl, rfl⟩)
  · exact htime

theorem along_fault (s : Scene σ) (opcode : String) (f : Fault) :
    Along k g? s [] (s.fault opcode f) := by
  have hrecord : Along k g? s []
      { s with world := s.world.recordFault ⟨s.thread.id, s.thread.actor, opcode, f⟩ } :=
    .one (.tend s ⟨rfl, rfl, rfl, rfl, ⟨rfl, rfl, rfl, rfl, rfl, rfl, rfl⟩, rfl⟩)
  exact hrecord.tidy (.retire _)

theorem Obeyed.along {r : Scene σ × Bool} (h : Obeyed s r) : Along k g? s [] r.1 := by
  have hnote : ∀ c, Along k g? s [] { s with world := { s.world with current := c } } := fun _ =>
    .one (.tend s ⟨rfl, rfl, rfl, rfl, ⟨rfl, rfl, rfl, rfl, rfl, rfl, rfl⟩, rfl⟩)
  cases h with
  | unasked => exact .nil
  | stopped => exact (hnote _).tidy (.retire _)
  | startsOver => exact (hnote _).tidy (.mark _ ⟨rfl, rfl, rfl, rfl⟩)

theorem Proceeded.along (hk : k.Alike k') {top : Handle} {warp : Bool} {r : Scene σ × Turn}
    (h : Proceeded k' g top warp s r) : Along k (some g) s [] r.1 := by
  cases h with
  | yielded | empty => exact .one (.mark s ⟨rfl, rfl, rfl, rfl⟩)
  | held | elsewhere => exact .nil
  | moved _ _ ha =>
    have hleft : Tidies k (some g) s _ := .advance s hk rfl
    rw [ha] at hleft
    exact .one hleft

end Scene

/-- The primitives that are run at a moment. -/
def Moment.invocations {σ : Type} (m : Moment σ) : List (Invocation σ) :=
  m.scene.entered.invocations .empty m.scheduler.countBlock m.graph

namespace Scene

variable {σ : Type} {k k' k₀ : Scheduler} {g : Graph} {s s' : Scene σ} {turn : Turn}

/-- The primitives of the top block, if there is one. -/
theorem flatMap_moment {top : Handle} (ht : s.thread.topBlock? = some top) :
    ((s.thread.topBlock?.map fun _ => (⟨k, g, s⟩ : Moment σ)).toList.flatMap
      Moment.invocations) = s.entered.invocations .empty k.countBlock g := by
  rw [ht]
  exact List.append_nil _

/-- **A block leads along its primitives**, however the thread gets past it. -/
theorem Stepped.along (h : Stepped .empty g k s k' s' turn) (hk : k₀.Alike k) :
    Along k₀ (some g) s
      ((s.thread.topBlock?.map fun _ => (⟨k, g, s⟩ : Moment σ)).toList.flatMap Moment.invocations)
      s' := by
  have hk' := hk.trans (.countBlock k)
  have hexec := (along_entered s).trans ((executed .empty k.countBlock g s.entered).along hk')
  rw [List.nil_append] at hexec
  cases h with
  | empty ht =>
    rw [ht]
    exact .one (.mark s ⟨rfl, rfl, rfl, rfl⟩)
  | @failed top s₁ f opcode ht hx =>
    rw [hx] at hexec
    exact flatMap_moment ht ▸ hexec.quiet (along_fault s₁ opcode f)
  | obeyed ht hx ho =>
    rw [hx] at hexec
    exact flatMap_moment ht ▸ hexec.quiet (obeyed_of_obey ho).along
  | moved ht hx _ hp =>
    rw [hx] at hexec
    exact flatMap_moment ht ▸ hexec.quiet ((proceeded_of_proceed hp).along hk')

theorem Stepped.alike (h : Stepped .empty g k s k' s' turn) : k.Alike k' := by
  cases h with
  | empty => exact .refl k
  | failed | obeyed | moved => exact .countBlock k

/-- **A turn leads along its primitives**, also one that does not come to its end. By induction on
its blocks. -/
theorem along_moments (hk : k₀.Alike k) (fuel : Nat) (s : Scene σ) :
    ∃ s', Along k₀ (some g) s ((moments g fuel k s).flatMap Moment.invocations) s' ∧
      ∀ r, takeTurn .empty g fuel k s = some r → r.2 = s' ∧ k₀.Alike r.1 := by
  induction fuel generalizing k s with
  | zero => exact ⟨s, .nil, fun r hr => by cases hr⟩
  | succ fuel ih =>
    rw [moments, takeTurn, List.flatMap_append]
    rcases hstep : s.stepBlock .empty g k with ⟨k', s₁, turn⟩
    have hstepped := stepped_of_stepBlock hstep
    have hblock := hstepped.along hk
    cases turn with
    | ends =>
      refine ⟨s₁, by rwa [List.flatMap_nil, List.append_nil], fun r hr => ?_⟩
      cases hr
      exact ⟨rfl, hk.trans hstepped.alike⟩
    | goesOn =>
      obtain ⟨s', hrest, hend⟩ := ih (hk.trans hstepped.alike) s₁
      exact ⟨s', hblock.trans hrest, hend⟩

end Scene

namespace Pass

open World Scene

variable {σ : Type} {k : Scheduler} {w : World σ} {t : Thread}

/-! ### A visit -/

/-- The primitives that are run in a visit. -/
def visitInvocations (fuel : Nat) (k : Scheduler) (w : World σ) (t : Thread) :
    List (Invocation σ) :=
  (visitMoments fuel k w t).flatMap Moment.invocations

theorem TakenIn.along {slot : Slotting} {v : Value} {r : Thread × Bool}
    (h : TakenIn k w t v slot r) : Along k (w.graph? t.actor) ⟨w, t⟩ [] ⟨w, r.1⟩ := by
  have hawake : Along k (w.graph? t.actor) ⟨w, t⟩ [] ⟨w, t.awake⟩ :=
    .one (.mark _ ⟨rfl, rfl, rfl, rfl⟩)
  cases h with
  | reporter h => exact hawake.tidy (tidies_memoTop _ fun memo => memo.insert h v)
  | retired => exact .one (.retire ⟨w, t⟩)
  | advanced hg ha =>
    have hforgot := hawake.tidy (tidies_memoTop _ fun _ => .empty)
    rw [hg] at hforgot ⊢
    have hleft := hforgot.tidy (.advance _ (.refl k) rfl)
    rwa [ha] at hleft

theorem Woken.sameCast {r : Scene σ × Bool} (h : Woken k w t r) : SameCast w r.1.world := by
  cases h with
  | free => exact .refl w
  | waits | takesIn | refused => exact ⟨rfl, rfl, rfl, rfl, rfl, rfl, rfl⟩

theorem Woken.along {r : Scene σ × Bool} (h : Woken k w t r) :
    Along k (w.graph? t.actor) ⟨w, t⟩ [] r.1 := by
  have hlook : ∀ channels : Table Nat Channel,
      Along k (w.graph? t.actor) ⟨w, t⟩ [] ⟨{ w with channels := channels }, t⟩ := fun _ =>
    .one (.tend ⟨w, t⟩ ⟨rfl, rfl, rfl, rfl, ⟨rfl, rfl, rfl, rfl, rfl, rfl, rfl⟩, rfl⟩)
  cases h with
  | free => exact .one (.mark _ ⟨rfl, rfl, rfl, rfl⟩)
  | waits => exact hlook _
  | takesIn _ _ ht => exact (hlook _).trans (takenIn_of_takeIn ht).along
  | refused => exact (hlook _).trans (along_fault _ _ _)

theorem along_letRun (fuel : Nat) (k : Scheduler) (w : World σ) (t : Thread) :
    ∃ s', Along k (w.graph? t.actor) ⟨w, t⟩
        ((runMoments fuel k w t).flatMap Moment.invocations) s' ∧
      ∀ r, letRun .empty fuel k w t = some r → r.2 = s' ∧ k.Alike r.1 := by
  unfold runMoments
  cases hg : w.graph? t.actor with
  | none =>
    refine ⟨_, .one (.retire ⟨w, t⟩), fun r hr => ?_⟩
    rw [letRun, hg] at hr
    cases hr
    exact ⟨rfl, .refl k⟩
  | some g =>
    have hstage : ∀ (s : Scene σ) (c : Option Current), Along k (some g) s []
        { s with world := { s.world with current := c } } := fun s c =>
      .one (.tend s ⟨rfl, rfl, rfl, rfl, ⟨rfl, rfl, rfl, rfl, rfl, rfl, rfl⟩, rfl⟩)
    have hrest : ∀ s : Scene σ, Along k (some g) s [] { s with thread := s.thread.atRest } := by
      intro s
      unfold Thread.atRest
      split
      · exact Along.tidy (.one (.restart s)) (.mark _ ⟨rfl, rfl, rfl, rfl⟩)
      · exact .one (.mark s ⟨rfl, rfl, rfl, rfl⟩)
    obtain ⟨s₁, hturn, hend⟩ := along_moments (g := g) (.refl k) fuel ⟨onStage w t, t⟩
    have hrun := (hstage ⟨w, t⟩ _).trans hturn
    -- the thread starts over if it was asked to, and leaves the stage
    refine ⟨_, (hrun.quiet (hrest s₁)).quiet (hstage _ none), fun r hr => ?_⟩
    rw [letRun_of_graph hg] at hr
    obtain ⟨r₁, he, rfl⟩ := Option.map_eq_some_iff.1 hr
    obtain ⟨rfl, hk⟩ := hend _ he
    exact ⟨rfl, hk⟩

/-- **A visit leads along its primitives**, also one that does not come to its end. -/
theorem along_visit (fuel : Nat) (k : Scheduler) (w : World σ) (t : Thread) :
    ∃ s', Along k (w.graph? t.actor) ⟨w, t⟩ (visitInvocations fuel k w t) s' ∧
      ∀ r, visit .empty fuel k w t = some r → r.2 = s' ∧ k.Alike r.1 := by
  unfold visitInvocations visitMoments visit
  cases t.status with
  | done | yieldedTick =>
    refine ⟨_, .nil, fun r hr => ?_⟩
    cases hr
    exact ⟨rfl, .refl k⟩
  | running | yielded => exact along_letRun fuel k w t
  | parked =>
    simp only
    rcases hw : wake k w t with ⟨scene, on⟩
    have hwoken := woken_of_wake hw
    have hwake := hwoken.along
    cases on with
    | true =>
      have hgraph : scene.world.graph? scene.thread.actor = w.graph? t.actor := by
        rw [hwoken.moved.actor, hwoken.sameCast.graph?]
      obtain ⟨s', hrun, hend⟩ := along_letRun fuel k scene.world scene.thread
      rw [hgraph] at hrun
      exact ⟨s', hwake.trans hrun, hend⟩
    | false =>
      have hrest : Tidies k (w.graph? t.actor) scene
          { scene with thread := { scene.thread with warpSince := none } } :=
        .mark scene ⟨rfl, rfl, rfl, rfl⟩
      refine ⟨_, hwake.tidy hrest, fun r hr => ?_⟩
      cases hr
      exact ⟨rfl, .refl k⟩

/-! ### The turn at a place -/

/-- The world while the thread at a place is out for its turn. -/
def without (p : Pass σ) (i : Nat) : World σ :=
  { p.world with threads := p.world.threads.set i .absent }

/-- The primitives that are run in the turn at a place. -/
def visitAtInvocations (fuel : Nat) (p : Pass σ) (i : Nat) : List (Invocation σ) :=
  (visitAtMoments fuel p i).flatMap Moment.invocations

theorem visitAtInvocations_of_getElem? {fuel : Nat} {p : Pass σ} {i : Nat}
    (ht : p.world.threads[i]? = some t) :
    visitAtInvocations fuel p i = visitInvocations fuel p.scheduler (p.without i) t := by
  simp only [visitAtInvocations, visitAtMoments, ht, visitInvocations, without]

/-- **The turn at a place**: there is no thread, or it leaves the list, is led along the primitives
of its turn, and comes back to its place. -/
theorem along_visitAt {fuel : Nat} {p p' : Pass σ} {i : Nat}
    (h : visitAt .empty fuel p i = some p') :
    (visitAtInvocations fuel p i = [] ∧ p' = p) ∨
      ∃ t s, p.world.threads[i]? = some t ∧
        Along p.scheduler (p.world.graph? t.actor) ⟨p.without i, t⟩
          (visitAtInvocations fuel p i) s ∧
        p'.world = { s.world with threads := s.world.threads.set i s.thread } ∧
        p.scheduler.Alike p'.scheduler := by
  obtain ⟨ht, rfl⟩ | ⟨t, k, scene, ht, hv, rfl⟩ := visitAt_cases h
  · exact .inl ⟨by simp [visitAtInvocations, visitAtMoments, ht], rfl⟩
  · obtain ⟨s, halong, hend⟩ := along_visit fuel p.scheduler (p.without i) t
    obtain ⟨rfl, hk⟩ := hend _ hv
    rw [visitAtInvocations_of_getElem? ht]
    exact .inr ⟨t, scene, ht, halong, rfl, hk⟩

/-- **To each primitive of a turn the ones before it lead**, also in a turn that does not come to
its end. -/
theorem along_of_mem {fuel : Nat} {p : Pass σ} {i : Nat} {front rest : List (Invocation σ)}
    {j : Invocation σ} (h : visitAtInvocations fuel p i = front ++ j :: rest) :
    ∃ t, p.world.threads[i]? = some t ∧
      Along p.scheduler (p.world.graph? t.actor) ⟨p.without i, t⟩ front j.before ∧
      j.Within p.scheduler (p.world.graph? t.actor) := by
  cases ht : p.world.threads[i]? with
  | none => simp [visitAtInvocations, visitAtMoments, ht] at h
  | some t =>
    obtain ⟨s, halong, -⟩ := along_visit fuel p.scheduler (p.without i) t
    rw [visitAtInvocations_of_getElem? ht] at h
    exact ⟨t, rfl, halong.upto h⟩

end Pass

end Stagecraft
