import Stagecraft.Proofs.Schedule.Presence
import Stagecraft.Proofs.Schedule.Staged
import Stagecraft.Proofs.Schedule.Standing

/-!
# Waiting for other threads

A block that broadcasts and waits keeps the threads that its broadcast has started on its frame,
and the thread that executes it yields until all of them have ended. They are threads of their
own, which are active when the broadcast is over. Whatever else they and others do, ending is for
good, so the block comes to its end in the first turn in which its primitive finds that none of
them is active.

* `World.Starts` : what starting threads does to the lists;
* `World.starts_broadcast` : a broadcast gives the threads that it starts;
* `Execution.Awaits` : how a block comes out that waits for others;
* `Execution.Vigil` : what a thread executes while it waits;
* `Execution.vigil_of_plays` : **broadcasting and waiting, at any block of a run**.
-/

namespace Stagecraft

namespace World

open Thread

variable {σ : Type} {w w' w'' : World σ} {R R' : List ThreadId}

/-! ### Threads that are started -/

/-- Some threads are started: they stand at their top blocks, and nothing happens to the others. -/
structure Starts (R : List ThreadId) (w w' : World σ) : Prop where
  next_le : w.nextThread ≤ w'.nextThread
  /-- They are new, or they were running. -/
  known : ∀ r ∈ R, w.nextThread ≤ r ∨
    ∃ t ∈ w.threads ++ w.spawned, t.id = r ∧ t.isDone = false
  anew : ∀ r ∈ R, ∃ t ∈ w'.threads ++ w'.spawned, t.id = r ∧ t.isDone = false ∧ t.Anew
  /-- No other thread is new. -/
  old : ∀ t ∈ w'.threads ++ w'.spawned, t.id ∈ R ∨ t ∈ w.threads ++ w.spawned
  /-- No other thread is lost. -/
  kept : ∀ t ∈ w.threads ++ w.spawned, t.id ∈ R ∨ t ∈ w'.threads ++ w'.spawned

/-- Whatever leaves the threads alone. -/
theorem Starts.of_eq (hn : w'.nextThread = w.nextThread) (ht : w'.threads = w.threads)
    (hs : w'.spawned = w.spawned) : Starts [] w w' := by
  refine ⟨Nat.le_of_eq hn.symm, fun _ h => (by cases h), fun _ h => (by cases h),
    fun t h => .inr ?_, fun t h => .inr ?_⟩
  · rwa [ht, hs] at h
  · rwa [ht, hs]

theorem Starts.trans (h : Starts R w w') (h' : Starts R' w' w'') : Starts (R ++ R') w w'' := by
  refine ⟨Nat.le_trans h.next_le h'.next_le, fun r hr => ?_, fun r hr => ?_, fun t ht => ?_,
    fun t ht => ?_⟩
  · rcases List.mem_append.1 hr with hr | hr
    · exact h.known r hr
    · rcases h'.known r hr with hle | ⟨t, ht, rfl, hd⟩
      · exact .inl (Nat.le_trans h.next_le hle)
      · exact (h.old t ht).elim (h.known t.id) fun ht => .inr ⟨t, ht, rfl, hd⟩
  · rcases List.mem_append.1 hr with hr | hr
    · obtain ⟨t, ht, rfl, hanew⟩ := h.anew r hr
      exact (h'.kept t ht).elim (h'.anew t.id) fun ht => ⟨t, ht, rfl, hanew⟩
    · exact h'.anew r hr
  · rcases h'.old t ht with hr | ht
    · exact .inl (List.mem_append_right _ hr)
    · exact (h.old t ht).imp_left (List.mem_append_left _)
  · rcases h.kept t ht with hr | ht
    · exact .inl (List.mem_append_left _ hr)
    · exact (h'.kept t ht).imp_left (List.mem_append_right _)

theorem starts_pushThread (w : World σ) (actor : ActorId) (top : Handle) :
    Starts [(w.pushThread actor top).2] w (w.pushThread actor top).1 := by
  have hid : (w.pushThread actor top).2 = w.nextThread := by
    unfold pushThread
    simp only
    split <;> rfl
  have hmem : ∀ t, t ∈ (w.pushThread actor top).1.threads ++ (w.pushThread actor top).1.spawned ↔
      t = .start w.nextThread actor top ∨ t ∈ w.threads ++ w.spawned := fun t =>
    (w.perm_pushThread actor top).mem_iff.trans List.mem_cons
  rw [hid]
  refine ⟨(grown_pushThread w actor top).next_le, fun r hr => ?_, fun r hr => ?_, fun t ht => ?_,
    fun t ht => .inr ((hmem t).2 (.inr ht))⟩
  · exact .inl (Nat.le_of_eq (List.mem_singleton.1 hr).symm)
  · rw [List.mem_singleton.1 hr]
    exact ⟨_, (hmem _).2 (.inl rfl), rfl, rfl, rfl, by simp [Thread.start, idle]⟩
  · rcases (hmem t).1 ht with rfl | ht
    · exact .inl (List.mem_singleton.2 rfl)
    · exact .inr ht

theorem modifyFirst_append (p : Thread → Bool) (f : Thread → Thread) (l l' : List Thread) :
    modifyFirst p f (l ++ l') =
      if l.any p then modifyFirst p f l ++ l' else l ++ modifyFirst p f l' := by
  induction l with
  | nil => rfl
  | cons t rest ih =>
    rw [List.cons_append, modifyFirst, modifyFirst, ih, List.any_cons]
    cases p t with
    | true => rfl
    | false =>
      simp only [Bool.false_or, Bool.false_eq_true, if_false]
      split <;> rfl

/-- A script that runs is started over. -/
theorem starts_modifyRunning {actor : ActorId} {top : Handle} {t : Thread}
    (h : w.running? actor top = some t) :
    Starts [t.id] w (w.modifyRunning actor top Thread.restart) := by
  have hlists : (w.modifyRunning actor top Thread.restart).threads ++
      (w.modifyRunning actor top Thread.restart).spawned =
        modifyFirst (runsScript actor top) Thread.restart (w.threads ++ w.spawned) := by
    rw [modifyFirst_append, modifyRunning]
    split <;> rfl
  obtain ⟨before, after, hold, hnew⟩ := modifyFirst_of_find? Thread.restart h
  rw [hnew] at hlists
  have hrun : t.isDone = false := by
    have hp := List.find?_some h
    simp only [runsScript, Bool.and_eq_true, Bool.not_eq_true'] at hp
    exact hp.2
  refine ⟨(grown_modifyRunning edited_restart w actor top).next_le, fun r hr => ?_, fun r hr => ?_,
    fun u hu => ?_, fun u hu => ?_⟩
  · rw [List.mem_singleton.1 hr]
    exact .inr ⟨t, by simp [hold], rfl, hrun⟩
  · rw [List.mem_singleton.1 hr]
    exact ⟨t.restart, by simp [hlists], rfl, rfl, t.anew_restart⟩
  · rw [hlists] at hu
    rw [hold]
    rcases List.mem_append.1 hu with hu | hu
    · exact .inr (List.mem_append_left _ hu)
    · rcases List.mem_cons.1 hu with rfl | hu
      · exact .inl (List.mem_singleton.2 rfl)
      · exact .inr (List.mem_append_right _ (List.mem_cons_of_mem _ hu))
  · rw [hold] at hu
    rw [hlists]
    rcases List.mem_append.1 hu with hu | hu
    · exact .inr (List.mem_append_left _ hu)
    · rcases List.mem_cons.1 hu with rfl | hu
      · exact .inl (List.mem_singleton.2 rfl)
      · exact .inr (List.mem_append_right _ (List.mem_cons_of_mem _ hu))

theorem starts_startScript (w : World σ) (restarts : Bool) (actor : ActorId) (top : Handle) :
    Starts (w.startScript restarts actor top).2.toList w (w.startScript restarts actor top).1 := by
  unfold startScript
  split
  · exact .of_eq rfl rfl rfl
  · split
    · rename_i hrunning
      split
      · exact starts_modifyRunning hrunning
      · exact .of_eq rfl rfl rfl
    · exact starts_pushThread w actor top

theorem starts_startScripts (restarts : Bool) (scripts : List (ActorId × Handle)) :
    ∀ w : World σ,
      Starts (startScripts restarts scripts w).2 w (startScripts restarts scripts w).1 := by
  induction scripts with
  | nil => exact fun _ => .of_eq rfl rfl rfl
  | cons script rest ih =>
    intro w
    rw [startScripts]
    exact (starts_startScript w restarts script.1 script.2).trans (ih _)

/-- **A broadcast gives the threads that it starts.** -/
theorem starts_broadcast (w : World σ) (message : String) :
    Starts (w.broadcast message).2 w (w.broadcast message).1 := by
  unfold broadcast raise startHats
  split
  · exact .of_eq rfl rfl rfl
  · exact starts_startScripts _ _ w

/-- The thread that is out for its turn is none of those. -/
theorem Misses.not_started {id : ThreadId} (h : w.Misses id) (hs : Starts R w w') : id ∉ R := by
  intro hr
  rcases hs.known id hr with hle | ⟨t, ht, hid, -⟩
  · exact absurd h.own_lt (Nat.not_lt.2 hle)
  · exact h.apart t ht hid

end World

/-! ### The primitive -/

namespace Scene

variable {σ : Type} {ext : Extensions σ} {site : Site} {s s' : Scene σ} {l : List (Invocation σ)}

/-- Evaluating inputs only acts. -/
theorem Evaluates.acts (h : Evaluates ext site s l s') : Acts ext s s' := by
  induction h with
  | nil => exact .refl s
  | remember b v _ ih => exact ih.trans (acts_remember _ _ b v)
  | @report _ i _ _ _ ih => exact ih.trans (Primitive.acts_run i.site i.args i.before i.opcode)

end Scene

namespace Execution

open World Scene Thread

variable {σ : Type} {e x : Execution σ} {f F : Frame} {below : List Frame} {i : Invocation σ}
  {R : List ThreadId}

/-- The thread that executes a block is on stage, and all that its inputs run leaves it there. -/
structure OnStage (x : Execution σ) : Prop extends x.Staged where
  current : x.scene.world.current.map (·.id) = some x.thread.id
  orderly : x.ext.Orderly
  keepsStage : x.ext.KeepsStage
  plugs : x.graph.PlugsValues x.ext

/-- The primitive finds the thread on stage, and the others in the lists. -/
theorem OnStage.before (hx : x.OnStage) (h : x.Ran f i) :
    Onward x.scene.world i.before.world ∧ i.before.world.Misses x.thread.id ∧
      i.before.world.current.map (·.id) = some x.thread.id := by
  obtain ⟨l, -, he⟩ := h.inputs
  have hacts := he.acts
  have hmeanwhile := upheld_meanwhile hx.orderly
  have hentered : Onward x.scene.world x.entered.world :=
    ⟨hmeanwhile.tend rfl rfl rfl rfl ⟨rfl, rfl, rfl, rfl, rfl, rfl, rfl⟩, .of_eq rfl⟩
  have hbefore := hentered.trans ⟨hmeanwhile.acts hacts, hacts.sameStage hx.keepsStage⟩
  have hmisses : x.entered.world.Misses x.thread.id := hx.misses.of_grown (.of_eq rfl rfl rfl rfl)
  exact ⟨hbefore, hmisses.of_grown ((hacts.conserves hx.orderly).world.grown hmisses.inPass),
    Eq.trans hbefore.stage hx.current⟩

/-- What happens to a thread behind its block does not start others. -/
theorem nextThread_after {s : Scene σ} (hs : e.thread.stack = f :: below)
    (hx : e.executed = (s, none)) : e.after.2.1.world.nextThread = s.world.nextThread := by
  rcases ho : s.obey with ⟨s', asked⟩
  cases asked with
  | true =>
    rw [after_of_obeyed hs hx ho]
    cases obeyed_of_obey ho <;> rfl
  | false =>
    cases obey_fst_of_false ho
    obtain ⟨t, -, he⟩ := (proceeded_after hs hx ho).moves
    rw [he]

/-- How a block comes out that waits for others, in the world that its primitive finds. -/
inductive Awaits (x : Execution σ) (F : Frame) (below : List Frame) (R : List ThreadId)
    (w : World σ) : Prop
  /-- One of them has not ended. -/
  | waits {r : ThreadId} : r ∈ R → ¬ w.Ended r → x.Keeps F below [] → Awaits x F below R w
  /-- All of them have ended. -/
  | ended : (∀ r ∈ R, w.Ended r) → x.MovesPast → Awaits x F below R w

/-- Waiting for others is yielding while one of them is active. -/
theorem awaits_of_executed {s : Scene σ} {memo : Table Handle Value}
    (hs : x.thread.stack = f :: below)
    (hx : x.executed = finish (x.site f.block) (Primitive.awaitThreads R s, .done))
    (ht : s.thread = { x.entered.thread with stack := { F with reported := memo } :: below })
    (hb : F.block = f.block) (hrunning : x.thread.status = .running)
    (hactive : ∀ r ∈ R, s.world.isActive r = false ↔ s.world.Ended r) :
    x.Awaits F below R s.world := by
  have hst : s.thread.status = .running := by
    rw [ht]
    exact x.status_entered.trans hrunning
  cases hany : R.any s.world.isActive with
  | true =>
    rw [Primitive.awaitThreads, if_pos hany] at hx
    obtain ⟨r, hr, hact⟩ := List.any_eq_true.1 hany
    refine .waits hr (fun hended => ?_) ?_
    · rw [(hactive r hr).2 hended] at hact
      cases hact
    · have hforget : (s.yield.forget (x.site f.block).frame).thread =
          { x.entered.thread with
            stack := { F with reported := .empty } :: below, status := .yielded } := by
        rw [forget, frame_site hs, yield, ht, modifyFrame_top rfl]
      refine keeps_of_executed hs hx ⟨⟨.empty, by rw [hforget]; rfl⟩, fun hi => absurd rfl hi,
        fun _ hp => ?_⟩ (.inr ?_)
      · rw [hforget] at hp
        cases hp
      · rw [hforget]
        simp
  | false =>
    rw [Primitive.awaitThreads, if_neg (by simp [hany])] at hx
    have hforget : (s.forget (x.site f.block).frame).thread =
        { x.entered.thread with stack := { F with reported := .empty } :: below } := by
      rw [forget, frame_site hs, ht, modifyFrame_top rfl]
    refine .ended (fun r hr => (hactive r hr).1 (by simpa using List.any_eq_false.1 hany r hr)) ?_
    exact movesPast_of_executed hs hx (by rw [hforget]; exact x.status_entered.trans hrunning)
      (by rw [hforget]; exact congrArg some hb)

/-- Of threads that are started, the running one can tell when they have ended. -/
theorem isActive_iff {w : World σ} {id r : ThreadId} (hw : w.Misses id)
    (hstage : w.current.map (·.id) = some id) (hne : r ≠ id) (hlt : r < w.nextThread) :
    w.isActive r = false ↔ w.Ended r :=
  isActive_eq_false_iff hw.nodup hlt fun h => hne (Option.some.inj (h.symm.trans hstage))

/-- **The first execution broadcasts**, and waits for the threads that it has started. -/
theorem awaits_of_broadcast (hs : e.thread.stack = f :: below)
    (hfresh : ∀ R, f.progress ≠ .awaiting R) (he : e.OnStage) (hcall : e.call? = some i)
    (hop : i.opcode = .event .broadcastAndWait) :
    let b := i.before.world.broadcast (i.args.text "BROADCAST_INPUT")
    Starts b.2 i.before.world b.1 ∧ (i.result e.ext).1.world = b.1 ∧
      (∀ r ∈ b.2, r ≠ e.thread.id ∧ r < e.after.2.1.world.nextThread ∧ ¬ b.1.Ended r) ∧
      e.Awaits { f with progress := .awaiting b.2 } below b.2 b.1 := by
  intro b
  have hran := ran_of_call hs hcall
  obtain ⟨memo, hthread⟩ := hran.before hs he.plugs
  obtain ⟨-, hmisses, hcurrent⟩ := he.before hran
  have hstarts : Starts b.2 i.before.world b.1 := starts_broadcast _ _
  have hmisses' : b.1.Misses e.thread.id := hmisses.of_grown (grown_raise _ _)
  have hnew : ∀ r ∈ b.2, r ≠ e.thread.id ∧ r < b.1.nextThread ∧ ¬ b.1.Ended r := fun r hr => by
    obtain ⟨t, ht, rfl, hd, -⟩ := hstarts.anew r hr
    refine ⟨fun h => hmisses.not_started hstarts (h ▸ hr), hmisses'.lt t ht, fun hended => ?_⟩
    rw [hended.done t ht rfl] at hd
    cases hd
  have hprogress : i.before.progress? i.site = some f.progress := by
    rw [progress?, hran.site, frame_site hs, hthread, frameAt?_top rfl, Option.map_some]
  let s : Scene σ := { i.before with world := b.1 }.keep i.site (.awaiting b.2)
  have hresult : i.result e.ext = (Primitive.awaitThreads b.2 s, .done) := by
    rw [Invocation.result, hop]
    change (Primitive.broadcastAndWait i.site i.args i.before, Outcome.done) = _
    rw [Primitive.broadcastAndWait, hprogress]
    split
    · rename_i R hR
      exact absurd (Option.some.inj hR) (hfresh R)
    · rfl
  have hworld : (Primitive.awaitThreads b.2 s).world = b.1 := by
    unfold Primitive.awaitThreads
    split <;> rfl
  have hkept : s.thread = { e.entered.thread with
      stack := { f with progress := .awaiting b.2, reported := memo } :: below } := by
    change i.before.thread.modifyFrame i.site.frame _ = _
    rw [hran.site, frame_site hs, hthread, modifyFrame_top rfl]
  have hstage' : b.1.current.map (·.id) = some e.thread.id :=
    Eq.trans (sameStage_startHats _ _ _ _) hcurrent
  have hx := hran.executed
  rw [hresult] at hx
  have hawaits : e.Awaits { f with progress := .awaiting b.2 } below b.2 s.world :=
    awaits_of_executed hs hx hkept rfl he.running fun r hr =>
      isActive_iff hmisses' hstage' (hnew r hr).1 (hnew r hr).2.1
  refine ⟨hstarts, by rw [hresult, hworld], fun r hr => ?_, hawaits⟩
  obtain ⟨hne, hlt, hactive⟩ := hnew r hr
  refine ⟨hne, ?_, hactive⟩
  rw [nextThread_after hs hx]
  change r < (Primitive.awaitThreads b.2 s).world.nextThread
  rwa [hworld]

/-- **Later it only looks** whether they have ended. -/
theorem awaits_of_awaiting {memo : Table Handle Value}
    (hs : x.thread.stack = { F with reported := memo } :: below) (hF : F.progress = .awaiting R)
    (hop : x.graph.opcode? F.block = some (.event .broadcastAndWait)) (hx : x.OnStage)
    (hR : ∀ r ∈ R, r ≠ x.thread.id ∧ r < x.scene.world.nextThread) (hcall : x.call? = some i) :
    (i.result x.ext).1.world = i.before.world ∧ Onward x.scene.world i.before.world ∧
      x.Awaits F below R i.before.world := by
  have hran := ran_of_call hs hcall
  obtain ⟨m, hthread⟩ := hran.before hs hx.plugs
  obtain ⟨honward, hmisses, hcurrent⟩ := hx.before hran
  have hprogress : i.before.progress? i.site = some (.awaiting R) := by
    rw [progress?, hran.site, frame_site hs, hthread, frameAt?_top rfl, Option.map_some, hF]
  have hresult : i.result x.ext = (Primitive.awaitThreads R i.before, .done) := by
    rw [Invocation.result, Option.some.inj (hran.opcode.symm.trans hop)]
    change (Primitive.broadcastAndWait i.site i.args i.before, Outcome.done) = _
    rw [Primitive.broadcastAndWait, hprogress]
  have hexec := hran.executed
  rw [hresult] at hexec
  refine ⟨?_, honward, awaits_of_executed hs hexec hthread rfl hx.running fun r hr =>
    isActive_iff hmisses hcurrent (hR r hr).1
      (Nat.lt_of_lt_of_le (hR r hr).2 honward.meanwhile.next_le)⟩
  rw [hresult, Primitive.awaitThreads]
  split <;> rfl

/-! ### The wait -/

/-- What a thread executes while it waits for others: the block that has started them, over and over
until none of them is active. -/
structure Vigil (R : List ThreadId) (F : Frame) (below : List Frame)
    (vigil rest : List (Execution σ)) : Prop where
  /-- The thread stands at the block, and what is below stays as it is. -/
  holds : ∀ x ∈ vigil, x.thread.Holds F below []
  /-- The primitive leaves the world alone. -/
  once : ∀ x ∈ vigil, ∀ j, x.call? = some j → (j.result x.ext).1.world = j.before.world
  /-- While one of them has not ended it waits; when all have, the thread moves past the block. -/
  each : ∀ before x after j, vigil = before ++ x :: after → x.call? = some j →
    (∃ r ∈ R, ¬ j.before.world.Ended r) ∧ (∃ r ∈ R, ¬ x.scene.world.Ended r) ∨
      (∀ r ∈ R, j.before.world.Ended r) ∧ x.MovesPast ∧ after = []
  /-- Only when the thread starts over it does not come to that. -/
  next : (∀ x ∈ vigil, ∀ j, x.call? = some j → ∃ r ∈ R, ¬ j.before.world.Ended r) →
    ∀ x ∈ rest.head?, x.thread.Anew

/-- The thread starts over before it comes back to the block. -/
theorem Vigil.nil {rest : List (Execution σ)} (h : ∀ x ∈ rest.head?, x.thread.Anew) :
    Vigil R F below [] rest :=
  ⟨fun _ hx => (by cases hx), fun _ hx => (by cases hx), fun before x after j h => (by simp at h),
    fun _ => h⟩

/-- It finds that all of them have ended. -/
theorem Vigil.singleton {rest : List (Execution σ)}
    (hholds : e.thread.Holds F below []) (hcall : e.call? = some i)
    (hworld : (i.result e.ext).1.world = i.before.world)
    (hended : ∀ r ∈ R, i.before.world.Ended r) (hpast : e.MovesPast) :
    Vigil R F below [e] rest := by
  refine ⟨fun x hx => ?_, fun x hx j hj => ?_, fun before x after j happend hj => ?_,
    fun hnone => ?_⟩
  · rw [List.mem_singleton.1 hx]
    exact hholds
  · rw [List.mem_singleton.1 hx] at hj ⊢
    cases hcall.symm.trans hj
    exact hworld
  · rcases List.singleton_eq_append_iff.1 happend with ⟨rfl, h⟩ | ⟨-, h⟩ <;> cases h
    cases hcall.symm.trans hj
    exact .inr ⟨hended, hpast, rfl⟩
  · obtain ⟨r, hr, hactive⟩ := hnone e (List.mem_cons_self ..) i hcall
    exact absurd (hended r hr) hactive

/-- It finds that one of them has not ended, or the primitive is not run. -/
theorem Vigil.cons {vigil rest : List (Execution σ)} (h : Vigil R F below vigil rest)
    (hholds : e.thread.Holds F below [])
    (hcall : ∀ j, e.call? = some j → (j.result e.ext).1.world = j.before.world ∧
      (∃ r ∈ R, ¬ j.before.world.Ended r) ∧ ∃ r ∈ R, ¬ e.scene.world.Ended r) :
    Vigil R F below (e :: vigil) rest := by
  refine ⟨List.forall_mem_cons.2 ⟨hholds, h.holds⟩,
    List.forall_mem_cons.2 ⟨fun j hj => (hcall j hj).1, h.once⟩,
    fun before x after j happend hj => ?_,
    fun hnone => h.next fun x hx => hnone x (List.mem_cons_of_mem _ hx)⟩
  cases before with
  | nil =>
    obtain ⟨rfl, -⟩ := List.cons.inj happend
    exact .inl (hcall j hj).2
  | cons y before => exact h.each before x after j (List.cons.inj happend).2 hj

/-- By induction on the blocks of the thread. -/
theorem exists_vigil (hF : F.progress = .awaiting R) : ∀ (later : List (Execution σ))
    {e : Execution σ}, e.Keeps F below [] → (e :: later).IsChain Next →
      (∀ x ∈ later, x.OnStage ∧ x.graph.opcode? F.block = some (.event .broadcastAndWait) ∧
        ∀ r ∈ R, r ≠ x.thread.id ∧ r < x.scene.world.nextThread) →
      ∃ vigil rest, later = vigil ++ rest ∧ Vigil R F below vigil rest := by
  intro later
  induction later with
  | nil =>
    intro e _ _ _
    exact ⟨[], [], rfl, .nil fun _ hx => by cases hx⟩
  | cons e' later ih =>
    intro e hkeeps hchain hall
    obtain ⟨hnext, hchain'⟩ := List.isChain_cons_cons.1 hchain
    obtain ⟨hon, hop, hR⟩ := hall e' (List.mem_cons_self ..)
    rcases hnext.holds hkeeps with hanew | ⟨inner', hholds, hinner⟩
    · refine ⟨[], e' :: later, rfl, .nil fun x hx => ?_⟩
      cases hx
      exact hanew
    · cases hinner rfl
      obtain ⟨memo, hs⟩ := hholds.stack
      -- the wait goes on unless the primitive finds that all of them have ended
      have hgo : e'.Keeps F below [] → (∀ j, e'.call? = some j →
          (j.result e'.ext).1.world = j.before.world ∧ (∃ r ∈ R, ¬ j.before.world.Ended r) ∧
            ∃ r ∈ R, ¬ e'.scene.world.Ended r) →
          ∃ vigil rest, e' :: later = vigil ++ rest ∧ Vigil R F below vigil rest := by
        intro hkeeps' hcall
        obtain ⟨vigil, rest, rfl, hvigil⟩ :=
          ih hkeeps' hchain' fun x hx => hall x (List.mem_cons_of_mem _ hx)
        exact ⟨e' :: vigil, rest, rfl, hvigil.cons hholds hcall⟩
      cases hcall : e'.call? with
      | none =>
        refine hgo (keeps_unrun hs hop hon.plugs hcall) fun j hj => ?_
        cases hcall.symm.trans hj
      | some i =>
        obtain ⟨hworld, honward, hawaits⟩ := awaits_of_awaiting hs hF hop hon hR hcall
        cases hawaits with
        | waits hr hactive hkeeps' =>
          refine hgo hkeeps' fun j hj => ?_
          cases hcall.symm.trans hj
          exact ⟨hworld, ⟨_, hr, hactive⟩, _, hr, fun hended => hactive (honward.ended hended)⟩
        | ended hended hpast =>
          exact ⟨[e'], later, rfl, .singleton hholds hcall hworld hended hpast⟩

/-- **Broadcasting and waiting.** The threads that the broadcast starts are active, and the one
that waits is none of them. If there are none it moves past the block in the same turn. Otherwise
it executes nothing but this block, which does not broadcast again, until all of them have ended;
the first time that its primitive finds this it moves past the block in the same turn. A thread
that has ended stays so. Only starting over keeps the waiting thread from that, or never having
another turn. -/
theorem vigil_of_plays {ext : Extensions σ} {w w' : World σ} {l : List (Execution σ)}
    {P : Extensions σ → Prop} {front later : List (Execution σ)} (hw : w.Reachable)
    (h : Plays P w l w') (hP : ∀ ext, P ext → ext.Orderly ∧ ext.KeepsStage) (hext : P ext)
    (fuel : Nat) (id : ThreadId) (hrun : own id (l ++ ofStep ext fuel w') = front ++ e :: later)
    (hgraph : ∀ x ∈ e :: later, x.graph.PlugsValues x.ext ∧
      x.graph.opcode? f.block = some (.event .broadcastAndWait))
    (hs : e.thread.stack = f :: below) (hfresh : ∀ R, f.progress ≠ .awaiting R)
    (hcall : e.call? = some i) :
    let b := i.before.world.broadcast (i.args.text "BROADCAST_INPUT")
    Starts b.2 i.before.world b.1 ∧ (i.result e.ext).1.world = b.1 ∧ id ∉ b.2 ∧
      (b.2 = [] → e.MovesPast) ∧
      (b.2 ≠ [] → ∃ vigil rest, later = vigil ++ rest ∧
        Vigil b.2 { f with progress := .awaiting b.2 } below vigil rest) ∧
      (e :: later).Pairwise fun x y => ∀ r, x.scene.world.Ended r → y.scene.world.Ended r := by
  intro b
  obtain ⟨hchain, hstaged⟩ := tail_of_plays hw h (fun ext hp => (hP ext hp).1) hext fuel id hrun
  have htells := tells_presence (settled_of_reachable hw) h hP hext fuel
  have hown : ∀ x ∈ e :: later, x ∈ l ++ ofStep ext fuel w' ∧ x.thread.id = id := fun x hx => by
    have hmem : x ∈ own id (l ++ ofStep ext fuel w') := hrun ▸ List.mem_append_right front hx
    exact (diary σ).mem_own.1 hmem
  have hon : ∀ x ∈ e :: later, x.OnStage := fun x hx =>
    ⟨(hstaged x hx).2, (htells.each x (hown x hx).1).1, (hP _ (hstaged x hx).1).1,
      (hP _ (hstaged x hx).1).2, (hgraph x hx).1⟩
  have horder : (e :: later).Pairwise fun x y =>
      x.after.2.1.world.nextThread ≤ y.scene.world.nextThread ∧
        ∀ r, x.scene.world.Ended r → y.scene.world.Ended r := by
    have hfilter := htells.order.filter fun x => decide ((diary σ).id x = id)
    change (own id (l ++ ofStep ext fuel w')).Pairwise _ at hfilter
    rw [hrun] at hfilter
    refine (List.pairwise_append.1 hfilter).2.1.imp_of_mem fun hx _ hxy => ⟨hxy.1, fun r hr => ?_⟩
    exact hxy.2 r ((htells.each _ (hown _ hx).1).2.ended hr)
  have he := hon e (List.mem_cons_self ..)
  have hid := (hown e (List.mem_cons_self ..)).2
  have hop : i.opcode = .event .broadcastAndWait := Option.some.inj
    ((ran_of_call hs hcall).opcode.symm.trans (hgraph e (List.mem_cons_self ..)).2)
  obtain ⟨hstarts, hworld, hR, hawaits⟩ := awaits_of_broadcast hs hfresh he hcall hop
  refine ⟨hstarts, hworld, fun hr => (hR id hr).1 hid.symm, fun hnone => ?_, fun hsome => ?_,
    horder.imp fun hxy => hxy.2⟩
  · cases hawaits with
    | waits hr _ _ =>
      rw [show b.2 = [] from hnone] at hr
      cases hr
    | ended _ hpast => exact hpast
  · cases hawaits with
    | ended hended _ =>
      obtain ⟨r, hr⟩ := List.exists_mem_of_ne_nil _ hsome
      exact absurd (hended r hr) (hR r hr).2.2
    | waits _ _ hkeeps =>
      refine exists_vigil rfl later hkeeps hchain fun x hx => ?_
      have hx' := List.mem_cons_of_mem e hx
      refine ⟨hon x hx', (hgraph x hx').2, fun r hr => ⟨fun hrx => ?_, ?_⟩⟩
      · exact (hR r hr).1 (hrx.trans ((hown x hx').2.trans hid.symm))
      · exact Nat.lt_of_lt_of_le (hR r hr).2.1 ((List.pairwise_cons.1 horder).1 x hx).1

end Execution

namespace World

open Execution

/-- A script that sends a message and waits, and one that receives it. -/
def rally : Graph :=
  Graph.empty.run
    [.create { Block.detached "call" (.event .broadcastAndWait) with
        inputs := Table.empty.insert "BROADCAST_INPUT" (.literal (.text "go"))
        next := some ⟨1, 0⟩
        topLevel := true },
      .create { Block.detached "show" (.looks .show) with parent := some ⟨0, 0⟩ },
      .create { Block.detached "receive" (.event .whenBroadcastReceived) with
        fields := Table.empty.insert "BROADCAST_OPTION" ⟨"go", none⟩
        next := some ⟨3, 0⟩
        topLevel := true },
      .create { Block.detached "hide" (.looks .hide) with parent := some ⟨2, 0⟩ }]

/-- The script that sends the message has been started. -/
def rallyWorld : World Unit :=
  (((blank .standard ()).addSprite "Cat" rally).1.pushThread 0 ⟨0, 0⟩).1

theorem reachable_rallyWorld : rallyWorld.Reachable := by
  have hactor : ((blank .standard ()).addSprite "Cat" rally).1.Reachable :=
    (Reachable.blank Settings.standard ()).deed (.tend rfl rfl rfl rfl)
  exact hactor.deed (.pushThread _ 0 ⟨0, 0⟩)

theorem keepsStage_empty : Extensions.KeepsStage (.empty : Extensions Unit) :=
  fun _ _ hget => by cases hget

/-- The message is sent in the first step, and the thread waits until the third one. -/
theorem vigil_of_plays_rally : rallyWorld.Reachable ∧ ∃ l w e later i f,
    Execution.Plays (· = .empty) rallyWorld l w ∧
      own 1 (l ++ ofStep .empty 9 w) = [] ++ e :: later ∧
      e.thread.stack = [f] ∧ f.progress = .fresh ∧ e.call? = some i ∧
      (i.before.world.broadcast (i.args.text "BROADCAST_INPUT")).2 = [2] ∧
      ∃ vigil rest, later = vigil ++ rest ∧
        Vigil [2] { f with progress := .awaiting [2] } [] vigil rest := by
  have hshape : (rallyWorld.step .empty 9).bind (fun p => (p.1.step .empty 9).map fun q =>
      (own 1 (ofStep .empty 9 rallyWorld ++ (ofStep .empty 9 p.1 ++ []) ++
        ofStep .empty 9 q.1)).map fun e =>
          (e.thread.stack.map fun f => (f.block, f.progress == .fresh),
          e.graph.plugsReporters, e.graph.opcode? ⟨0, 0⟩)) =
      some ([[(⟨0, 0⟩, true)], [(⟨0, 0⟩, false)], [(⟨0, 0⟩, false)], [(⟨1, 0⟩, true)]].map fun s =>
        (s, true, some (.event .broadcastAndWait))) := by
    decide +kernel
  have hsent : (own 1 (ofStep .empty 9 rallyWorld)).head?.map (fun e => e.call?.map fun i =>
      (i.before.world.broadcast (i.args.text "BROADCAST_INPUT")).2) = some (some [2]) := by
    decide +kernel
  obtain ⟨⟨w₁, _⟩, h₁, hshape⟩ := Option.bind_eq_some_iff.1 hshape
  obtain ⟨⟨w₂, _⟩, h₂, hshape⟩ := Option.map_eq_some_iff.1 hshape
  obtain ⟨e, he, hsent⟩ := Option.map_eq_some_iff.1 hsent
  obtain ⟨i, hcall, hR⟩ := Option.map_eq_some_iff.1 hsent
  obtain ⟨rest, hfirst⟩ := List.head?_eq_some_iff.1 he
  have hplays : Execution.Plays (· = .empty) rallyWorld
      (ofStep .empty 9 rallyWorld ++ (ofStep .empty 9 w₁ ++ [])) w₂ :=
    .step rfl h₁ (.step rfl h₂ (.nil w₂))
  obtain ⟨later, hrun⟩ : ∃ later, own 1 (ofStep .empty 9 rallyWorld ++
      (ofStep .empty 9 w₁ ++ []) ++ ofStep .empty 9 w₂) = [] ++ e :: later := by
    have happ := (diary Unit).own_append 1 (ofStep .empty 9 rallyWorld)
      (ofStep .empty 9 w₁ ++ [] ++ ofStep .empty 9 w₂)
    rw [show (diary Unit).own 1 (ofStep .empty 9 rallyWorld) = e :: rest from hfirst] at happ
    exact ⟨_, (List.append_assoc _ _ _ ▸ happ :)⟩
  rw [hrun] at hshape
  obtain ⟨hstack, hlater⟩ := List.cons.inj hshape
  obtain ⟨f, hs, hf⟩ := List.map_eq_singleton_iff.1 (Prod.mk.inj hstack).1
  obtain ⟨hblock, hfresh⟩ := Prod.mk.inj hf
  have hfresh : f.progress = .fresh := by simpa using hfresh
  have hgraph : ∀ x ∈ e :: later, x.graph.PlugsValues x.ext ∧
      x.graph.opcode? f.block = some (.event .broadcastAndWait) := fun x hx => by
    obtain ⟨-, hstaged⟩ := tail_of_plays reachable_rallyWorld hplays
      (fun _ hp => hp ▸ orderly_empty) rfl 9 1 hrun
    obtain ⟨stack, -, hstack⟩ := List.mem_map.1 (hshape ▸ List.mem_map_of_mem hx)
    simp only [Prod.mk.injEq] at hstack
    refine ⟨?_, ?_⟩
    · rw [(hstaged x hx).1]
      exact (Graph.plugsReporters_of_check hstack.2.1.symm).plugsValues Extensions.spares_empty
    · rw [hblock]
      exact hstack.2.2.symm
  have hvigil := vigil_of_plays reachable_rallyWorld hplays
    (fun _ hp => hp ▸ ⟨orderly_empty, keepsStage_empty⟩) rfl 9 1 hrun hgraph hs
    (fun R hR => by cases hfresh.symm.trans hR) hcall
  obtain ⟨-, -, -, -, hwaits, -⟩ := hvigil
  rw [hR] at hwaits
  exact ⟨reachable_rallyWorld, _, w₂, e, later, i, f, hplays, hrun, hs, hfresh, hcall, hR,
    hwaits (by simp)⟩

/-- A reporter of the host, whose value has to be waited for. -/
def hesitant : Extensions Unit := Table.empty.insert "host_name" fun _ _ s =>
  let (w, channel) := s.world.openChannel (.settled (.text "go"))
  ({ s with world := w }, .outcome (.deferred channel))

/-- Three scripts that send a message and wait: with such a reporter, in a branch, and with a wait
in another input. It is received by a script of two turns. -/
def haste : Graph :=
  Graph.empty.run
    [.create { Block.detached "call" (.event .broadcastAndWait) with
        inputs := Table.empty.insert "BROADCAST_INPUT" (.reporter ⟨1, 0⟩)
        topLevel := true },
      .create { Block.detached "name" (.custom "host_name") with parent := some ⟨0, 0⟩ },
      .create { Block.detached "when" (.control .ifThen) with
        inputs := (Table.empty.insert "CONDITION" (.literal (.flag true))).insert "SUBSTACK"
          (.branch ⟨3, 0⟩)
        next := some ⟨4, 0⟩
        topLevel := true },
      .create { Block.detached "branch" (.event .broadcastAndWait) with
        inputs := Table.empty.insert "BROADCAST_INPUT" (.literal (.text "go"))
        parent := some ⟨2, 0⟩ },
      .create { Block.detached "show" (.looks .show) with parent := some ⟨2, 0⟩ },
      .create { Block.detached "mixed" (.event .broadcastAndWait) with
        inputs := (Table.empty.insert "BROADCAST_INPUT" (.literal (.text "go"))).insert "X"
          (.reporter ⟨6, 0⟩)
        topLevel := true },
      .create { Block.detached "wait" (.control .wait) with
        inputs := Table.empty.insert "DURATION" (.literal (.text "1"))
        parent := some ⟨5, 0⟩ },
      .create { Block.detached "receive" (.event .whenBroadcastReceived) with
        fields := Table.empty.insert "BROADCAST_OPTION" ⟨"go", none⟩
        next := some ⟨8, 0⟩
        topLevel := true },
      .create { Block.detached "repeat" (.control .repeatTimes) with
        inputs := (Table.empty.insert "TIMES" (.literal (.text "1"))).insert "SUBSTACK"
          (.branch ⟨9, 0⟩)
        parent := some ⟨7, 0⟩ },
      .create { Block.detached "hide" (.looks .hide) with parent := some ⟨8, 0⟩ }]

/-- One of the scripts has been started. -/
def hasteWorld (top : Nat) : World Unit :=
  (((blank .standard ()).addSprite "Cat" haste).1.pushThread 0 ⟨top, 0⟩).1

/-- The world after some steps. -/
def hasten : Nat → World Unit → Option (World Unit)
  | 0, w => some w
  | n + 1, w => (w.step hesitant 9).bind fun p => hasten n p.1

/-- What a step executes: the thread, its blocks, the primitives that are run, and whether the
second thread has not ended. -/
def outline (w : World Unit) : List (ThreadId × List Nat × List Opcode × Bool) :=
  (ofStep hesitant 9 w).map fun e => (e.thread.id, e.thread.stackBlocks.map (·.index),
    e.calls.map (·.opcode), e.scene.world.isActive 2)

/-- **Three ways in which it is not so simple.** The second thread has ended in the fourth step,
but in the fifth one the first thread only evaluates its reporter again. When the block is deleted
the thread moves past it at once. And a wait in an input takes the frame for itself, so that the
block broadcasts again in every turn and the second thread starts over. -/
theorem outline_haste :
    ((hasten 3 (hasteWorld 0)).map outline = some
        [(1, [0], [.event .broadcastAndWait], true), (2, [8], [.control .repeatTimes], true)] ∧
      (hasten 4 (hasteWorld 0)).map outline = some [(1, [0], [.custom "host_name"], false)]) ∧
    (outline (hasteWorld 2) = [(1, [2], [.control .ifThen], false),
        (1, [2, 3], [.event .broadcastAndWait], false)] ∧
      (hasten 1 (hasteWorld 2)).map (fun w =>
          (outline (w.editGraph 0 fun g => (g.delete ⟨3, 0⟩).1)).take 2) = some
        [(1, [2, 3], [], true), (1, [4], [.looks .show], true)]) ∧
    ∀ n ∈ [1, 2, 3], (hasten n (hasteWorld 5)).map outline = some
      [(1, [5], [.control .wait, .event .broadcastAndWait], true),
        (2, [7], [.event .whenBroadcastReceived], true), (2, [8], [.control .repeatTimes], true),
        (2, [8, 9], [.looks .hide], true)] := by
  refine ⟨⟨?_, ?_⟩, ⟨?_, ?_⟩, ?_⟩ <;> decide +kernel

end World

end Stagecraft
