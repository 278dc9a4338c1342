import Stagecraft.Proofs.Report.Calls

/-!
# One attempt at a block

A block is executed from the start after each result that its reporters had to wait for, and its
frame remembers what they have given so far. So an attempt runs the reporters that are left, in
order, until one of them has to wait or the block has all that it needs. It never fails while the
reporters do what reporters do.

* `Scene.Recalls` : the frame remembers what reporters gave, and nothing else;
* `Scene.Proceeds` : how far an evaluation gets, and what it runs on the way;
* `Scene.proceeds_report`, `Attempt.proceeds` : **an evaluation gets as far as its reporters let
  it**.
-/

namespace Stagecraft

namespace Scene

variable {σ : Type} {ext : Extensions σ} {g : Graph} {f : Frame} {rest : List Frame}
  {past more : List (Answered σ)} {s s' : Scene σ}

/-! ### The frame that executes a block -/

section Memo

variable (h : Handle) (v : Value)

theorem remembered?_of_stack (hs : s.thread.stack = f :: rest) :
    s.remembered? rest.length h = f.reported.get? h := by
  simp [remembered?, Thread.frameAt?, hs]

theorem stack_remember (hs : s.thread.stack = f :: rest) :
    (s.remember rest.length h v).thread.stack =
      { f with reported := f.reported.insert h v } :: rest := by
  simp [remember, Thread.modifyFrame, hs]

end Memo

/-- The stack is as it was, but for what its top frame remembers: what reporters gave. They were run
once each, and were given what the ones before them gave. -/
structure Recalls (g : Graph) (f : Frame) (rest : List Frame) (past : List (Answered σ))
    (s : Scene σ) : Prop where
  memo : ∃ memo : Table Handle Value, s.thread.stack = { f with reported := memo } :: rest ∧
    ∀ h, memo.get? h = recalled? past h
  nodup : (ran past).Nodup
  fed : ∀ e ∈ past, g.Fed past e.1

namespace Recalls

theorem remembered? (hs : Recalls g f rest past s) (h : Handle) :
    s.remembered? rest.length h = recalled? past h := by
  obtain ⟨memo, hstack, hmemo⟩ := hs.memo
  rw [remembered?_of_stack h hstack]
  exact hmemo h

/-- Only the stack matters. -/
theorem of_stack (hs : Recalls g f rest past s) (h : s'.thread.stack = s.thread.stack) :
    Recalls g f rest past s' :=
  ⟨by rw [h]; exact hs.memo, hs.nodup, hs.fed⟩

/-- A frame that remembers what one more reporter gave. -/
theorem insert (hs : Recalls g f rest past s) {i : Invocation σ} {v : Value}
    (hnew : i.block ∉ ran past) (hfed : g.Fed past i) {memo : Table Handle Value}
    (hbefore : s.thread.stack = { f with reported := memo } :: rest)
    (hstack : s'.thread.stack = { f with reported := memo.insert i.block v } :: rest) :
    Recalls g f rest (past ++ [(i, v)]) s' := by
  have hmemo : ∀ h, memo.get? h = recalled? past h := by
    obtain ⟨memo', hmemo', hrecalled⟩ := hs.memo
    have hsame : memo' = memo :=
      congrArg Frame.reported (List.cons.inj (hmemo'.symm.trans hbefore)).1
    exact hsame ▸ hrecalled
  refine ⟨⟨_, hstack, fun h => ?_⟩, ?_, fun e he => ?_⟩
  · by_cases hh : h = i.block
    · subst hh
      rw [Table.get?_insert_self, recalled?_append_of_notMem hnew]
      simp [recalled?]
    · rw [Table.get?_insert_of_ne _ hh, hmemo]
      by_cases hm : h ∈ ran past
      · exact (recalled?_append_of_mem hm).symm
      · rw [recalled?_append_of_notMem hm, recalled?_eq_none_iff.2 hm]
        simp [recalled?, Ne.symm hh]
  · rw [ran_append]
    exact hs.nodup.append (List.nodup_singleton _) (List.disjoint_singleton.2 hnew)
  · rcases List.mem_append.1 he with he | he
    · exact (hs.fed e he).append
    · rw [List.mem_singleton.1 he]
      exact hfed.append

/-- Whatever is below a reporter that was run was run before. -/
theorem closed (hs : Recalls g f rest past s) : ∀ h ∈ ran past, ∀ b, g.reporter? h = some b →
    ∀ c ∈ plugged b.inputs.entries, (g.reporter? c).isSome = true → c ∈ ran past := by
  intro h hh b hb c hc hrc
  obtain ⟨e, he, rfl⟩ := List.mem_map.1 hh
  exact (hs.fed e he).before b hb c hc hrc

end Recalls

/-! ### How far an evaluation gets -/

/-- An evaluation runs reporters of a list, in order and but for those that were run before, until
all have given a value or one of them has to wait; the thread is then parked on the result. -/
inductive Proceeds {α : Type} (ext : Extensions σ) (g : Graph) (f : Frame) (rest : List Frame)
    (past : List (Answered σ)) (target : List Handle) (reads : List (Answered σ) → α → Prop) :
    List (Invocation σ) → Scene σ × Evaluation α → Prop
  | finished {s : Scene σ} {a : α} (new : List (Answered σ)) :
      (∀ e ∈ new, (e.1.result ext).2 = .value e.2) →
      ran (past ++ new) = (ran past ++ target).eraseDups → Recalls g f rest (past ++ new) s →
      reads (past ++ new) a →
      Proceeds ext g f rest past target reads (new.map (·.1)) (s, .value a)
  | parked {s : Scene σ} (new : List (Answered σ)) {i : Invocation σ} {channel : Nat} :
      (∀ e ∈ new, (e.1.result ext).2 = .value e.2) → (i.result ext).2 = .deferred channel →
      ran (past ++ new) ++ [i.block] <+: (ran past ++ target).eraseDups →
      Recalls g f rest (past ++ new) s → g.Fed (past ++ new) i →
      s.thread.pending = some ⟨channel, .reporter i.block⟩ → s.thread.status = .parked →
      Proceeds ext g f rest past target reads (new.map (·.1) ++ [i]) (s, .parked)

namespace Proceeds

variable {α β : Type} {target target' : List Handle} {reads : List (Answered σ) → α → Prop}
  {calls : List (Invocation σ)} {r : Scene σ × Evaluation α}

theorem imp (h : Proceeds ext g f rest past target reads calls r)
    {reads' : List (Answered σ) → α → Prop}
    (himp : ∀ more a, reads (past ++ more) a → reads' (past ++ more) a) :
    Proceeds ext g f rest past target reads' calls r := by
  cases h with
  | finished new hnew hran hs hreads => exact .finished new hnew hran hs (himp new _ hreads)
  | parked new hnew hi hsofar hs hfed hp hst => exact .parked new hnew hi hsofar hs hfed hp hst

/-- An evaluation that waits does so whatever else was to come. -/
theorem parked_append (h : Proceeds ext g f rest past target reads calls (s, .parked))
    (target' : List Handle) (reads' : List (Answered σ) → β → Prop) :
    Proceeds ext g f rest past (target ++ target') reads' calls (s, .parked) := by
  cases h with
  | parked new hnew hi hsofar hs hfed hp hst =>
    refine .parked new hnew hi (hsofar.trans ?_) hs hfed hp hst
    rw [← List.append_assoc]
    exact eraseDups_prefix _ _

/-- One evaluation after another. -/
theorem append {new : List (Answered σ)} (hnew : ∀ e ∈ new, (e.1.result ext).2 = .value e.2)
    (hran : ran (past ++ new) = (ran past ++ target).eraseDups)
    (h : Proceeds ext g f rest (past ++ new) target' reads calls r) :
    Proceeds ext g f rest past (target ++ target') reads (new.map (·.1) ++ calls) r := by
  have htarget : (ran (past ++ new) ++ target').eraseDups =
      (ran past ++ (target ++ target')).eraseDups := by
    rw [hran, eraseDups_eraseDups_append, List.append_assoc]
  have hall : ∀ {new' : List (Answered σ)}, (∀ e ∈ new', (e.1.result ext).2 = .value e.2) →
      ∀ e ∈ new ++ new', (e.1.result ext).2 = .value e.2 :=
    fun hnew' => List.forall_mem_append.2 ⟨hnew, hnew'⟩
  cases h with
  | finished new' hnew' hran' hs hreads =>
    rw [← List.map_append]
    rw [List.append_assoc] at hran' hs hreads
    exact .finished (new ++ new') (hall hnew') (hran'.trans htarget) hs hreads
  | parked new' hnew' hi hsofar hs hfed hp hst =>
    rw [← List.append_assoc, ← List.map_append]
    rw [List.append_assoc past] at hsofar hs hfed
    exact .parked (new ++ new') (hall hnew') hi (htarget ▸ hsofar) hs hfed hp hst

end Proceeds

/-! ### Inputs -/

/-- Inputs that are evaluated one after the other. -/
theorem proceeds_gather {report : Handle → Scene σ → Scene σ × Evaluation Value}
    {calls : Handle → Scene σ → List (Invocation σ)} {room : Nat} (inputs : List (String × Input))
    (hreport : ∀ h ∈ plugged inputs, ∀ {past : List (Answered σ)} {s : Scene σ},
      Recalls g f rest past s → (∀ i ∈ calls h s, i.Behaves ext) →
      Proceeds ext g f rest past (g.postorder room h) (fun past v => v = g.valueOf past h)
        (calls h s) (report h s))
    (hnests : ∀ h ∈ plugged inputs, g.nests room h = true) :
    ∀ (done : List (String × Value)) {past : List (Answered σ)} {s : Scene σ},
      Recalls g f rest past s → (∀ i ∈ gatherCalls report calls inputs s, i.Behaves ext) →
      Proceeds ext g f rest past ((plugged inputs).flatMap (g.postorder room))
        (fun past a => a.entries = done.reverse ++ g.reading past inputs)
        (gatherCalls report calls inputs s) (gather report inputs done s) := by
  induction inputs with
  | nil =>
    intro done past s hs _
    have hran : ran (past ++ []) = (ran past ++ []).eraseDups := by
      rw [List.append_nil, List.append_nil, eraseDups_of_nodup hs.nodup]
    exact .finished [] (fun e he => by cases he) hran (by rwa [List.append_nil])
      (List.append_nil _).symm
  | cons e inputs ih =>
    obtain ⟨name, input⟩ := e
    cases input with
    | literal v =>
      intro done past s hs hb
      refine (ih hreport hnests ((name, v) :: done) hs hb).imp fun more a ha => ?_
      rw [ha, List.reverse_cons, List.append_assoc]
      rfl
    | branch h =>
      intro done past s hs hb
      exact (ih hreport hnests done hs hb).imp fun more a ha => ha
    | reporter h =>
      intro done past s hs hb
      have hmem : h ∈ plugged ((name, .reporter h) :: inputs) := List.mem_cons_self
      have hfirst := hreport h hmem hs fun i hi => hb i (List.mem_append_left _ hi)
      have hrest := ih (fun c hc => hreport c (List.mem_cons_of_mem _ hc))
        (fun c hc => hnests c (List.mem_cons_of_mem _ hc))
      rw [gatherCalls] at hb
      rw [gatherCalls, gather]
      rcases hr : report h s with ⟨s₁, e⟩
      rw [hr] at hfirst hb
      generalize calls h s = first at hfirst hb
      cases e with
      | parked =>
        rw [List.append_nil]
        exact hfirst.parked_append _ _
      | failed fault => cases hfirst
      | value v =>
        cases hfirst with
        | finished new hnew hran hs₁ hv =>
          have hlater := hrest ((name, v) :: done) hs₁ fun i hi =>
            hb i (List.mem_append_right _ hi)
          refine Proceeds.append hnew hran (hlater.imp fun more a ha => ?_)
          -- the value that was read stays, whatever is run later
          have hstays : v = g.valueOf (past ++ new ++ more) h := by
            rw [hv]
            refine (Graph.valueOf_append fun hrun => ?_).symm
            obtain ⟨b, hb⟩ := Option.isSome_iff_exists.1 hrun
            rw [hran, List.mem_eraseDups]
            exact List.mem_append_right _ (Graph.mem_postorder_self (hnests h hmem) hb)
          rw [ha, List.reverse_cons, List.append_assoc, hstays]
          rfl

/-! ### Reporters -/

section Report

variable {site : Site} {h : Handle} {b : Block}

/-- A reporter that was run before gives what it gave. -/
theorem proceeds_remembered (hframe : site.frame = rest.length)
    (hs : Recalls site.graph f rest past s) (hh : h ∈ ran past) (room : Nat) :
    Proceeds ext site.graph f rest past (site.graph.postorder room h)
      (fun past v => v = site.graph.valueOf past h) (reportCalls ext site room h s)
      (report ext site room h s) := by
  obtain ⟨v, hv⟩ := Option.ne_none_iff_exists'.1 fun hn => recalled?_eq_none_iff.1 hn hh
  have hmemo : s.remembered? site.frame h = some v := by rw [hframe, hs.remembered?, hv]
  obtain ⟨e, he, rfl⟩ := List.mem_map.1 hh
  obtain ⟨b, hb, -⟩ := (hs.fed e he).args
  have hran : ran (past ++ []) = (ran past ++ site.graph.postorder room e.1.block).eraseDups := by
    rw [eraseDups_append_of_subset (Graph.subset_of_closed hs.closed room hh),
      eraseDups_of_nodup hs.nodup, List.append_nil]
  have hreads : v = site.graph.valueOf (past ++ []) e.1.block := by
    rw [List.append_nil, Graph.valueOf_of_reporter hb, hv]
    rfl
  unfold reportCalls report
  simp only [hmemo]
  exact .finished [] (fun e he => by cases he) hran (by rwa [List.append_nil]) hreads

/-- A block that is gone and a menu are not run. -/
theorem proceeds_unrun (hframe : site.frame = rest.length)
    (hs : Recalls site.graph f rest past s) (hb : site.graph.reporter? h = none) (room : Nat) :
    Proceeds ext site.graph f rest past (site.graph.postorder room h)
      (fun past v => v = site.graph.valueOf past h) (reportCalls ext site room h s)
      (report ext site room h s) := by
  have hnew : h ∉ ran past := by
    intro hh
    obtain ⟨e, he, rfl⟩ := List.mem_map.1 hh
    obtain ⟨b, hb', -⟩ := (hs.fed e he).args
    rw [hb] at hb'
    cases hb'
  have hmemo : s.remembered? site.frame h = none := by
    rw [hframe, hs.remembered?, recalled?_eq_none_iff.2 hnew]
  have hfinished : ∀ v, v = site.graph.valueOf past h → Proceeds ext site.graph f rest past []
      (fun past v => v = site.graph.valueOf past h) [] (s, .value v) := by
    intro v hv
    have hran : ran (past ++ []) = (ran past ++ []).eraseDups := by
      rw [List.append_nil, List.append_nil, eraseDups_of_nodup hs.nodup]
    exact .finished [] (fun e he => by cases he) hran (by rwa [List.append_nil])
      (by rwa [List.append_nil])
  rw [Graph.postorder_of_none hb]
  unfold reportCalls report
  simp only [hmemo]
  cases hget : site.graph.get? h with
  | none => exact hfinished _ (by simp only [Graph.valueOf, hget])
  | some b =>
    have hmenu : b.opcode.isMenu = true := by simpa [Graph.reporter?, hget] using hb
    simp only [hmenu, if_true]
    exact hfinished _ (by simp only [Graph.valueOf, hget, hmenu, if_true])

/-- A reporter that is run gives its value, or has to be waited for. -/
theorem proceeds_own (hframe : site.frame = rest.length) (hb : site.graph.reporter? h = some b)
    {new : List (Answered σ)} {target : List Handle} {args : Args}
    (hi : Invocation.Behaves ext ⟨{ site with block := h }, b.opcode, args, s⟩)
    (hnew : ∀ e ∈ new, (e.1.result ext).2 = .value e.2)
    (hs : Recalls site.graph f rest (past ++ new) s)
    (hfed : site.graph.Fed (past ++ new) ⟨{ site with block := h }, b.opcode, args, s⟩)
    (hnot : h ∉ ran (past ++ new))
    (hnext : ran (past ++ new) ++ [h] = (ran past ++ target).eraseDups) :
    Proceeds ext site.graph f rest past target (fun past v => v = site.graph.valueOf past h)
      (new.map (·.1) ++ [⟨{ site with block := h }, b.opcode, args, s⟩])
      (settle ext site h b.opcode (s, .value args)) := by
  rw [settle]
  generalize hinv : (⟨{ site with block := h }, b.opcode, args, s⟩ : Invocation σ) = i
    at hi hfed ⊢
  have hblock : i.block = h := hinv ▸ rfl
  have hrun : Primitive.run ext b.opcode { site with block := h } args s = i.result ext :=
    hinv ▸ rfl
  have hstack : (i.result ext).1.thread.stack = s.thread.stack := hi.steady.trans (hinv ▸ rfl)
  rw [← hblock] at hnot hnext
  rw [hrun]
  rcases hres : i.result ext with ⟨s₁, o⟩
  rw [hres] at hstack
  rcases hi.returns with ⟨v, hv⟩ | ⟨channel, hc⟩
  · rw [hres] at hv
    cases hv
    have hran : ran (past ++ (new ++ [(i, v)])) = (ran past ++ target).eraseDups := by
      rw [← List.append_assoc, ran_append, ← hnext]
      rfl
    -- the executing frame is still on top, so the value is kept where it is looked for
    obtain ⟨memo, hmemo, -⟩ := hs.memo
    have hs₁ : Recalls site.graph f rest (past ++ (new ++ [(i, v)]))
        (s₁.remember site.frame h v) := by
      rw [← List.append_assoc]
      refine hs.insert hnot hfed hmemo ?_
      rw [hframe, stack_remember h v (hstack.trans hmemo), hblock]
    have hvalue : v = site.graph.valueOf (past ++ (new ++ [(i, v)])) h := by
      rw [← List.append_assoc, Graph.valueOf_of_reporter hb, ← hblock,
        recalled?_append_of_notMem hnot]
      simp [recalled?]
    have hall : ∀ e ∈ new ++ [(i, v)], (e.1.result ext).2 = .value e.2 := by
      refine List.forall_mem_append.2 ⟨hnew, List.forall_mem_singleton.2 ?_⟩
      rw [hres]
    have hcalls : new.map (·.1) ++ [i] = (new ++ [(i, v)]).map (·.1) := by
      rw [List.map_append]
      rfl
    rw [hcalls]
    exact .finished (new ++ [(i, v)]) hall hran hs₁ hvalue
  · -- nothing is remembered yet: the reporter counts as run once its result has come
    rw [hres] at hc
    cases hc
    have hdeferred : (i.result ext).2 = .deferred channel := by rw [hres]
    have hpark : Recalls site.graph f rest (past ++ new) (s₁.park channel (.reporter h)) :=
      hs.of_stack hstack
    exact .parked new hnew hdeferred (hnext ▸ List.prefix_refl _) hpark hfed (hblock ▸ rfl) rfl

/-- Once its inputs are evaluated, a reporter is run itself. -/
theorem proceeds_settle (hframe : site.frame = rest.length)
    (hb : site.graph.reporter? h = some b) (hself : h ∉ ran past) {inner : List Handle}
    (houter : h ∉ inner)
    (hinner : ∀ c ∈ plugged b.inputs.entries, (site.graph.reporter? c).isSome = true → c ∈ inner)
    {calls : List (Invocation σ)} {r : Scene σ × Evaluation Args}
    (hr : Proceeds ext site.graph f rest past inner
      (fun past a => a.entries = site.graph.reading past b.inputs.entries) calls r)
    (hown : ∀ i ∈ ownCall site h b.opcode r, i.Behaves ext) :
    Proceeds ext site.graph f rest past (inner ++ [h])
      (fun past v => v = site.graph.valueOf past h) (calls ++ ownCall site h b.opcode r)
      (settle ext site h b.opcode r) := by
  obtain ⟨s, e⟩ := r
  cases e with
  | parked =>
    rw [ownCall, List.append_nil, settle]
    exact hr.parked_append _ _
  | failed fault => cases hr
  | value args =>
    cases hr with
    | finished new hnew hran hs hreads =>
      have hfresh : h ∉ ran past ++ inner := by simp [hself, houter]
      have hnot : h ∉ ran (past ++ new) := by
        rw [hran, List.mem_eraseDups]
        exact hfresh
      have hnext : ran (past ++ new) ++ [h] = (ran past ++ (inner ++ [h])).eraseDups := by
        rw [hran, ← List.append_assoc, eraseDups_append_singleton hfresh]
      have hfed : site.graph.Fed (past ++ new) ⟨{ site with block := h }, b.opcode, args, s⟩ := by
        refine ⟨⟨b, hb, rfl, congrArg Args.mk hreads⟩, fun b' hb' c hc hrc => ?_⟩
        cases Option.some.inj (hb.symm.trans hb')
        rw [hran, List.mem_eraseDups]
        exact List.mem_append_right _ (hinner c hc hrc)
      exact proceeds_own hframe hb (hown _ (List.mem_singleton_self _)) hnew hs hfed hnot hnext

/-- **An evaluation gets as far as its reporters let it.** This is an induction on the room. -/
theorem proceeds_report (hframe : site.frame = rest.length) (room : Nat) :
    ∀ {h : Handle} {past : List (Answered σ)} {s : Scene σ}, site.graph.nests room h = true →
      Recalls site.graph f rest past s → (∀ i ∈ reportCalls ext site room h s, i.Behaves ext) →
      Proceeds ext site.graph f rest past (site.graph.postorder room h)
        (fun past v => v = site.graph.valueOf past h) (reportCalls ext site room h s)
        (report ext site room h s) := by
  induction room with
  | zero =>
    intro h past s hn hs _
    exact proceeds_unrun hframe hs (Option.isNone_iff_eq_none.1 hn) 0
  | succ room ih =>
    intro h past s hn hs hbehaves
    by_cases hh : h ∈ ran past
    · exact proceeds_remembered hframe hs hh _
    · cases hb : site.graph.reporter? h with
      | none => exact proceeds_unrun hframe hs hb _
      | some b =>
        obtain ⟨hget, hmenu⟩ := Option.filter_eq_some_iff.1 hb
        have hmemo : s.remembered? site.frame h = none := by
          rw [hframe, hs.remembered?, recalled?_eq_none_iff.2 hh]
        have hrun : ¬b.opcode.isMenu = true := by simpa using hmenu
        have hplugged : ∀ c ∈ plugged b.inputs.entries, site.graph.nests room c = true :=
          fun c hc => Graph.nests_of_plugged hn hb hc
        unfold reportCalls at hbehaves ⊢
        unfold report
        simp only [hmemo, hget, hrun] at hbehaves ⊢
        have hbelow : ∀ c ∈ plugged b.inputs.entries, ∀ {past : List (Answered σ)} {s : Scene σ},
            Recalls site.graph f rest past s →
            (∀ i ∈ reportCalls ext site room c s, i.Behaves ext) →
            Proceeds ext site.graph f rest past (site.graph.postorder room c)
              (fun past v => v = site.graph.valueOf past c) (reportCalls ext site room c s)
              (report ext site room c s) :=
          fun c hc _ _ hs hb => ih (hplugged c hc) hs hb
        have hinputs := proceeds_gather b.inputs.entries hbelow hplugged [] hs
          fun i hi => hbehaves i (List.mem_append_left _ hi)
        rw [Graph.postorder_of_some hb]
        refine proceeds_settle hframe hb hh (fun hm => ?_) (fun c hc hrc => ?_) hinputs
          fun i hi => hbehaves i (List.mem_append_right _ hi)
        · obtain ⟨c, hc, hm⟩ := List.mem_flatMap.1 hm
          exact Graph.notMem_postorder hb hc hn hm
        · obtain ⟨d, hd⟩ := Option.isSome_iff_exists.1 hrc
          exact List.mem_flatMap.2 ⟨c, hc, Graph.mem_postorder_self (hplugged c hc) hd⟩

end Report

end Scene

/-- **An attempt gets as far as its reporters let it.** -/
theorem Attempt.proceeds {σ : Type} {ext : Extensions σ} {g : Graph} {past : List (Answered σ)}
    (a : Attempt σ g) (hs : Scene.Recalls g a.frame a.rest past a.before) {limit : Nat}
    (hlimit : limit ≤ a.scheduler.maxReporterDepth)
    (hnests : ∀ h ∈ plugged a.block.inputs.entries, g.nests limit h = true)
    (hbehaves : ∀ i ∈ a.calls ext, i.Behaves ext) :
    Scene.Proceeds ext g a.frame a.rest past
      ((plugged a.block.inputs.entries).flatMap (g.postorder limit))
      (fun past args => args = ⟨g.reading past a.block.inputs.entries⟩) (a.calls ext)
      (a.evaluation ext) := by
  have hframe : a.site.frame = a.rest.length := rfl
  have hroom : ∀ h ∈ plugged a.block.inputs.entries,
      g.nests a.scheduler.maxReporterDepth h = true :=
    fun h hh => Graph.nests_mono hlimit (hnests h hh)
  have hgather := Scene.proceeds_gather a.block.inputs.entries
    (fun h hh _ _ hs hb => Scene.proceeds_report hframe _ (hroom h hh) hs hb) hroom [] hs hbehaves
  rw [← Graph.flatMap_postorder_eq hlimit hnests]
  exact hgather.imp fun _ _ h => congrArg Args.mk h

end Stagecraft
