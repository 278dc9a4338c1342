import Stagecraft.Proofs.Cast.Programs
import Stagecraft.Proofs.Schedule.Fairness
import Stagecraft.Proofs.Schedule.Timeline

/-!
# How threads stand when they execute a block

A yield lasts until the turn is over, so a thread that rests has not yielded, and every block is
executed by a thread that is running. Meanwhile the thread is in none of the lists, and no thread
that is in one has its id.

* `World.Rested` : no thread in the lists has yielded;
* `Execution.Staged` : how a thread and the world stand when a block is executed;
* `Execution.staged_of_plays` : **so they stand at every block of a run**;
* `Execution.graph_ofStep` : a step executes the programs of the sprites.
-/

namespace Stagecraft

namespace World

open Thread

variable {σ : Type} {w w' : World σ}

/-- No thread in the lists has yielded. -/
def Rested (w : World σ) : Prop := ∀ t ∈ w.threads ++ w.spawned, t.status ≠ .yielded

theorem status_handled {t t' : Thread} (h : Handled t t') (ht : t.status ≠ .yielded) :
    t'.status ≠ .yielded := by
  cases h with
  | kept => exact ht
  | stopped => simp
  | startedOver => simp

theorem Descends.rested (h : Descends w w') (hw : w.Rested) : w'.Rested := by
  intro t' ht'
  rcases h.origin t' ht' with ⟨-, actor, top, hstart⟩ | ⟨t, ht, hh⟩
  · exact status_handled hstart (by simp [start, idle])
  · exact status_handled hh (hw t ht)

/-- Threads go from one list to the other, or leave. -/
theorem Rested.of_subset (hw : w.Rested)
    (h : w'.threads ++ w'.spawned ⊆ w.threads ++ w.spawned) : w'.Rested :=
  fun t ht => hw t (h ht)

theorem Deed.rested (h : Deed w w') (hw : w.Rested) : w'.Rested := by
  cases h with
  | tend _ _ ht hs => exact hw.of_subset (by rw [ht, hs]; exact List.Subset.refl _)
  | pushThread actor top => exact (tends_pushThread w actor top).descends.rested hw
  | toggleScript actor top =>
    unfold World.toggleScript
    split
    · exact ((tends_modifyRunning (fun t _ => t.handled_retire) w).trans
        (tends_dropFinished _)).descends.rested hw
    · intro t' ht'
      simp only [mapThreads, ← List.map_append] at ht'
      obtain ⟨t, ht, rfl⟩ := List.mem_map.1 ht'
      have hst := (tends_pushThread w actor top).descends.rested hw t ht
      split <;> exact hst
  | stopActor actor keep => exact (tends_stopActor w actor keep).descends.rested hw
  | startHats hat fields only => exact (tends_startHats w hat fields only).descends.rested hw
  | createClone source => exact (tends_createClone w source).descends.rested hw
  | deleteClone id => exact (tends_deleteClone w id).descends.rested hw
  | stopAll => exact (tends_stopAll w).descends.rested hw
  | greenFlag => exact (tends_greenFlag w).descends.rested hw

theorem Deeds.rested (h : Deeds w w') (hw : w.Rested) : w'.Rested := by
  induction h with
  | refl => exact hw
  | tail _ hd ih => exact hd.rested ih

theorem upheld_rested {ext : Extensions σ} (hext : ext.Orderly) :
    Upheld ext fun w w' => w.Rested → w'.Rested where
  trans h h' hw := h' (h hw)
  tend _ _ ht hs _ hw := hw.of_subset (by rw [ht, hs]; exact List.Subset.refl _)
  effect h := h.tends.descends.rested
  extended hget site args s := (hext _ _ hget site args s).1.rested

theorem Aside.rested (h : Aside w w') (hw : w.Rested) : w'.Rested := by
  intro t' ht'
  obtain ⟨t, ht, he⟩ := h.origin t' ht'
  rcases he with rfl | rfl
  · exact hw _ ht
  · unfold Thread.due
    split
    · simp
    · exact hw _ ht

end World

namespace Scene

variable {σ : Type} {ext : Extensions σ} {g : Graph} {k k' : Scheduler} {s s' : Scene σ}
  {turn : Turn}

/-- A yield does not last: a thread whose turn goes on is running, and one whose turn is over has
not yielded, unless it starts over now. -/
theorem Stepped.status (h : Stepped ext g k s k' s' turn) :
    (turn = .goesOn → s'.thread.status = .running) ∧
      (s'.thread.restarting = true ∨ s'.thread.status ≠ .yielded) := by
  cases h with
  | empty => exact ⟨fun h => (by cases h), .inr (by simp)⟩
  | failed opcode _ _ => exact ⟨fun h => (by cases h), .inr (by simp [fault, Thread.retire])⟩
  | obeyed _ _ ho =>
    refine ⟨fun h => (by cases h), ?_⟩
    cases obeyed_of_obey ho with
    | stopped => exact .inr (by simp [Thread.retire])
    | startsOver => exact .inl rfl
  | moved _ _ _ hp =>
    cases proceeded_of_proceed hp with
    | yielded => exact ⟨fun _ => rfl, .inr (by simp)⟩
    | held hst =>
      exact ⟨fun h => (by cases h), .inr (by rcases hst with hst | hst | hst <;> simp [hst])⟩
    | empty => exact ⟨fun h => (by cases h), .inr (by simp)⟩
    | moved hst _ ha =>
      have hadvanced := Scheduler.advanced_of_advance ha
      refine ⟨fun hturn => ?_, .inr (hadvanced.unyielding (by simp [hst]))⟩
      subst hturn
      exact hadvanced.status.trans hst
    | elsewhere hst => exact ⟨fun _ => hst, .inr (by simp [hst])⟩

/-- A turn leaves no yield behind, by induction on its blocks. -/
theorem status_takeTurn {fuel : Nat} (h : takeTurn ext g fuel k s = some (k', s')) :
    s'.thread.restarting = true ∨ s'.thread.status ≠ .yielded :=
  takeTurn_induction (P := fun _ s' => s'.thread.restarting = true ∨ s'.thread.status ≠ .yielded)
    (fun hstep => hstep.status.2) (fun _ ih => ih) fuel h

end Scene

namespace Pass

variable {σ : Type} {ext : Extensions σ} {fuel : Nat} {k k' : Scheduler} {w : World σ} {t : Thread}
  {s : Scene σ}

theorem Performed.status (h : Performed ext fuel k w t k' s) : s.thread.status ≠ .yielded := by
  cases h with
  | gone => simp [Thread.retire]
  | turn _ hturn =>
    unfold Thread.atRest
    split
    · simp [Thread.restart]
    · rename_i hr
      exact (Scene.status_takeTurn hturn).resolve_left hr

/-- A thread that rests has not yielded. -/
theorem Visited.status (h : Visited ext fuel k w t k' s) (ht : t.status ≠ .yielded) :
    s.thread.status ≠ .yielded := by
  cases h with
  | passed => exact ht
  | runs _ hr | wakes _ _ hr => exact (performed_of_letRun hr).status
  | waits _ hw =>
    cases woken_of_wake hw with
    | waits => exact ht
    | takesIn _ _ htake => exact (takenIn_of_takeIn htake).status.2
    | refused => simp [Scene.fault, Thread.retire]

end Pass

/-! ### The thread that is out for its turn -/

namespace World

variable {σ : Type} {w w' w₀ : World σ} {id : ThreadId} {finished : List ThreadId}

/-- A thread is out for its turn: the others have ids of their own. -/
structure Misses (w : World σ) (id : ThreadId) : Prop where
  inPass : w.inPass = true
  nodup : ((w.threads ++ w.spawned).map (·.id)).Nodup
  apart : ∀ t ∈ w.threads ++ w.spawned, t.id ≠ id
  lt : ∀ t ∈ w.threads ++ w.spawned, t.id < w.nextThread
  own_lt : id < w.nextThread

theorem Misses.of_grown (h : w.Misses id) (hg : Grown w w') : w'.Misses id := by
  have hids : (w'.threads ++ w'.spawned).map (·.id) =
      (w.threads ++ w.spawned).map (·.id) ++ issued w w' := by
    rw [List.map_append, List.map_append, hg.threads, hg.spawned, h.inPass, if_pos rfl, if_pos rfl,
      List.append_nil, List.append_assoc]
  have hcases : ∀ t ∈ w'.threads ++ w'.spawned,
      (∃ u ∈ w.threads ++ w.spawned, u.id = t.id) ∨
        w.nextThread ≤ t.id ∧ t.id < w'.nextThread := by
    intro t ht
    have hid : t.id ∈ (w.threads ++ w.spawned).map (·.id) ++ issued w w' :=
      hids ▸ List.mem_map_of_mem ht
    rcases List.mem_append.1 hid with hid | hid
    · exact .inl (List.mem_map.1 hid)
    · rw [issued, List.mem_range'_1, Nat.add_sub_of_le hg.next_le] at hid
      exact .inr hid
  refine ⟨hg.inPass.trans h.inPass, ?_, fun t ht => ?_, fun t ht => ?_,
    Nat.lt_of_lt_of_le h.own_lt hg.next_le⟩
  · rw [hids]
    refine List.nodup_append.2 ⟨h.nodup, List.nodup_range', fun a ha b hb => ?_⟩
    obtain ⟨u, hu, rfl⟩ := List.mem_map.1 ha
    exact Nat.ne_of_lt (Nat.lt_of_lt_of_le (h.lt u hu) (List.mem_range'_1.1 hb).1)
  · rcases hcases t ht with ⟨u, hu, hid⟩ | ⟨hle, -⟩
    · exact hid ▸ h.apart u hu
    · exact Nat.ne_of_gt (Nat.lt_of_lt_of_le h.own_lt hle)
  · rcases hcases t ht with ⟨u, hu, hid⟩ | ⟨-, hlt⟩
    · exact Nat.lt_of_lt_of_le (hid ▸ h.lt u hu) hg.next_le
    · exact hlt

/-- A thread leaves the list for its turn, and one without an id stands in for it. -/
theorem misses_of_amid (hw : w.Settled) (hn : w.Counted) (ha : Amid w finished w₀) {i : Nat}
    {t : Thread} (ht : w₀.threads[i]? = some t) :
    ({ w₀ with threads := w₀.threads.set i .absent } : World σ).Misses t.id := by
  obtain ⟨hi, -⟩ := List.getElem?_eq_some_iff.1 ht
  have hpos : ∀ u ∈ w₀.threads ++ w₀.spawned, u.id ≠ 0 := fun u hu =>
    Nat.ne_of_gt (hn.of_amid ha hu)
  have hlt := ha.lt hw
  have hnodup := ha.nodup hw
  have hset : w₀.threads.set i .absent ++ w₀.spawned =
      (w₀.threads ++ w₀.spawned).set i .absent := (List.set_append_left i _ hi).symm
  have ht' : (w₀.threads ++ w₀.spawned)[i]? = some t := by
    rw [List.getElem?_append_left hi, ht]
  have hmem := List.mem_of_getElem? ht'
  generalize w₀.threads ++ w₀.spawned = l at hpos hlt hnodup hset ht' hmem
  have hcases : ∀ u ∈ l.set i .absent, u = .absent ∨ u ∈ l ∧ u.id ≠ t.id := by
    intro u hu
    obtain ⟨j, hj⟩ := List.mem_iff_getElem?.1 hu
    by_cases hij : i = j
    · subst hij
      rw [List.getElem?_set_self (by simpa using (List.getElem?_eq_some_iff.1 hj).1)] at hj
      exact .inl (Option.some.inj hj).symm
    · rw [List.getElem?_set_ne hij] at hj
      refine .inr ⟨List.mem_of_getElem? hj, fun hid => hij ?_⟩
      have hmap : (l.map (·.id))[j]? = (l.map (·.id))[i]? := by
        rw [List.getElem?_map, List.getElem?_map, hj, ht', Option.map_some, Option.map_some, hid]
      have hlt : j < (l.map (·.id)).length := by
        simpa using (List.getElem?_eq_some_iff.1 hj).1
      exact ((List.getElem?_inj hlt hnodup).1 hmap).symm
  refine ⟨ha.inPass, ?_, fun u hu => ?_, fun u hu => ?_, hlt t hmem⟩
  · simp only [hset, List.map_set]
    refine hnodup.set fun hzero => ?_
    obtain ⟨u, hu, hid⟩ := List.mem_map.1 hzero
    exact hpos u hu hid
  all_goals
    simp only [hset] at hu
  · rcases hcases u hu with rfl | ⟨-, hne⟩
    · exact (hpos t hmem).symm
    · exact hne
  · rcases hcases u hu with rfl | ⟨hu, -⟩
    · exact Nat.lt_of_le_of_lt (Nat.zero_le _) (hlt t hmem)
    · exact hlt u hu

end World

/-! ### Every block of a run -/

/-- How a thread and the world stand when a block is executed. -/
structure Execution.Staged {σ : Type} (e : Execution σ) : Prop where
  running : e.thread.status = .running
  misses : e.scene.world.Misses e.thread.id

namespace Scene

variable {σ : Type} {ext : Extensions σ} {g : Graph}

/-- So they stand at every block of a turn, by induction on the blocks. -/
theorem staged_executions (hext : ext.Orderly) (fuel : Nat) : ∀ (k : Scheduler) (s : Scene σ),
    s.thread.status = .running → s.world.Misses s.thread.id →
      ∀ e ∈ executions ext g fuel k s, e.ext = ext ∧ e.Staged := by
  refine executions_induction (P := fun _ s l _ => s.thread.status = .running →
      s.world.Misses s.thread.id → ∀ e ∈ l, e.ext = ext ∧ e.Staged)
    (fun _ _ _ _ _ he => by cases he) (fun _ _ _ _ _ _ he => by cases he)
    (fun _ _ hst hw => ?_) (fun _ hstep ih hst hw => ?_) fuel
  · exact List.forall_mem_singleton.2 ⟨rfl, hst, hw⟩
  · have hstepped := stepped_of_stepBlock hstep
    have hc := hstepped.conserves hext
    refine List.forall_mem_cons.2 ⟨⟨rfl, hst, hw⟩, ih (hstepped.status.1 rfl) ?_⟩
    rw [hc.id]
    exact hw.of_grown (hc.world.grown hw.inPass)

end Scene

namespace Pass

open World

variable {σ : Type} {ext : Extensions σ} {w w₀ : World σ} {finished : List ThreadId}

theorem staged_runExecutions (hext : ext.Orderly) (fuel : Nat) (k : Scheduler) {w : World σ}
    {t : Thread} (hst : t.status = .running) (hw : w.Misses t.id) :
    ∀ e ∈ runExecutions ext fuel k w t, e.ext = ext ∧ e.Staged :=
  runExecutions_cases (P := fun l _ => ∀ e ∈ l, e.ext = ext ∧ e.Staged) (fun _ he => by cases he)
    fun _ _ => Scene.staged_executions hext fuel _ _ hst (hw.of_grown (.of_eq rfl rfl rfl rfl))

theorem staged_visitExecutions (hext : ext.Orderly) (fuel : Nat) (k : Scheduler) {w : World σ}
    {t : Thread} (hst : t.status ≠ .yielded) (hw : w.Misses t.id) :
    ∀ e ∈ visitExecutions ext fuel k w t, e.ext = ext ∧ e.Staged := by
  refine visitExecutions_cases (P := fun l _ => ∀ e ∈ l, e.ext = ext ∧ e.Staged)
    (fun _ he => by cases he) (fun ht => ?runs) (fun s _ he => ?wakes)
    (fun _ _ _ _ he => by cases he)
  case runs => exact staged_runExecutions hext fuel k (ht.resolve_right hst) hw
  case wakes =>
    have hc := (woken_of_wake he).conserves
    refine staged_runExecutions hext fuel k (woken_of_wake he).running ?_
    rw [hc.id]
    exact hw.of_grown (hc.world.grown hw.inPass)

/-- The turn at a place. -/
theorem staged_visitAt (hext : ext.Orderly) (hw : w.Settled) (hn : w.Counted) (fuel : Nat)
    {p : Pass σ} (ha : Amid w finished p.world) (hr : p.world.Rested) (i : Nat) :
    ∀ e ∈ visitExecutions.visitAt ext fuel p i, e.ext = ext ∧ e.Staged := by
  unfold Log.visitAt
  split
  · exact fun _ he => by cases he
  · rename_i t ht
    exact staged_visitExecutions hext fuel p.scheduler
      (hr t (List.mem_append_left _ (List.mem_of_getElem? ht))) (misses_of_amid hw hn ha ht)

theorem rested_visitAt (hext : ext.Orderly) {fuel i : Nat} {p p' : Pass σ}
    (hr : p.world.Rested) (h : visitAt ext fuel p i = some p') : p'.world.Rested := by
  obtain ⟨-, rfl⟩ | ⟨t, k, s, ht, hv, rfl⟩ := visitAt_cases h
  · exact hr
  · have habsent :
        ({ p.world with threads := p.world.threads.set i .absent } : World σ).Rested := by
      intro u hu
      rcases Thread.mem_set hu with hu | rfl
      · exact hr u hu
      · simp [Thread.absent]
    have hturn := (upheld_rested hext).visit hv habsent
    intro u hu
    rcases Thread.mem_set hu with hu | rfl
    · exact hturn u hu
    · exact (visited_of_visit hv).status
        (hr t (List.mem_append_left _ (List.mem_of_getElem? ht)))

end Pass

namespace World

variable {σ : Type} {ext : Extensions σ} {w w' : World σ} {ended : List ThreadId}

/-- Something is told of the entries of turns in which no other thread has yielded. -/
theorem rested_step {β : Type} (log : Log σ β) {Q : β → Prop} {fuel : Nat} (hext : ext.Orderly)
    (hw : w.Settled) (hr : w.Rested)
    (hQ : ∀ {p : Pass σ} {i : Nat} {finished : List ThreadId}, Amid w finished p.world →
      p.world.Rested → ∀ b ∈ log.visitAt ext fuel p i, Q b) :
    (∀ b ∈ log.step ext fuel w, Q b) ∧
      ∀ w' ended, w.step ext fuel = some (w', ended) → w'.Rested := by
  obtain ⟨hall, hend⟩ :=
    annals_step (annals_lasting Aside.rested (fun hv hr => Pass.rested_visitAt hext hr hv) hQ)
      hext hw
  refine ⟨hall hr, fun w' ended hstep => ?_⟩
  obtain ⟨p, hp, rfl⟩ := exists_rounds_of_step hw.idle hstep
  have hafter := (aside_afterPass p).rested ((hend p ended hp) hr).1
  have hevents := (tends_dispatchEvents (afterPass p)).descends.rested hafter
  exact hevents.of_subset (List.Subset.refl _)

theorem rested_of_reachable (hw : w.Reachable) : w.Rested := by
  induction hw with
  | blank settings host dice => exact fun t ht => by cases ht
  | deed _ hd ih => exact hd.rested ih
  | step hext hw hstep ih =>
    exact (rested_step (fun _ _ _ _ _ => ([] : List Unit)) (Q := fun _ => True) hext
      (settled_of_reachable hw) ih fun _ _ _ _ => trivial).2 _ _ hstep

end World

namespace Execution

open World

variable {σ : Type} {ext : Extensions σ} {w w' : World σ} {l : List (Execution σ)}
  {P : Extensions σ → Prop}

/-- **So a thread and the world stand at every block of a run**, also in a step that has not come to
its end. -/
theorem staged_of_plays (hw : w.Reachable) (h : Plays P w l w') (hP : ∀ ext, P ext → ext.Orderly)
    (hext : P ext) (fuel : Nat) : ∀ e ∈ l ++ ofStep ext fuel w', P e.ext ∧ e.Staged := by
  have hstep : ∀ {ext : Extensions σ} {w : World σ}, P ext → w.Settled → w.Counted → w.Rested →
      ∀ fuel, (∀ e ∈ ofStep ext fuel w, P e.ext ∧ e.Staged) ∧
        ∀ w' ended, w.step ext fuel = some (w', ended) → w'.Rested := by
    intro ext w hext hw hn hr fuel
    refine rested_step Pass.visitExecutions (hP ext hext) hw hr fun ha hr e he => ?_
    obtain ⟨hself, hstaged⟩ := Pass.staged_visitAt (hP ext hext) hw hn fuel ha hr _ e he
    exact ⟨hself ▸ hext, hstaged⟩
  suffices hrun : w.Settled → w.Counted → w.Rested →
      (∀ e ∈ l, P e.ext ∧ e.Staged) ∧ w'.Settled ∧ w'.Counted ∧ w'.Rested by
    obtain ⟨hl, hs, hn, hr⟩ :=
      hrun (settled_of_reachable hw) (counted_of_reachable hw) (rested_of_reachable hw)
    exact fun e he => (List.mem_append.1 he).elim (hl e) ((hstep hext hs hn hr fuel).1 e)
  clear hw
  induction h with
  | nil w => exact fun hs hn hr => ⟨fun _ he => (by cases he), hs, hn, hr⟩
  | deed hd _ ih =>
    intro hs hn hr
    have hf := hd.conserves.follows hs
    exact ih hf.settled (hn.of_follows hf) (hd.rested hr)
  | step hext' hstep' _ ih =>
    intro hs hn hr
    have hf := follows_of_step (hP _ hext') hs hstep'
    obtain ⟨hl, hend⟩ := hstep hext' hs hn hr _
    obtain ⟨hrest, hfinal⟩ := ih hf.settled (hn.of_follows hf) (hend _ _ hstep')
    exact ⟨fun e he => (List.mem_append.1 he).elim (hl e) (hrest e), hfinal⟩

/-- From some block of a thread on, its blocks follow each other. -/
theorem tail_of_plays (hw : w.Reachable) (h : Plays P w l w') (hP : ∀ ext, P ext → ext.Orderly)
    (hext : P ext) (fuel : Nat) (id : ThreadId) {front rest : List (Execution σ)}
    (hrun : own id (l ++ ofStep ext fuel w') = front ++ rest) :
    rest.IsChain Next ∧ ∀ e ∈ rest, P e.ext ∧ e.Staged := by
  have hchain := chain_of_plays hw h hP hext fuel id
  rw [hrun] at hchain
  refine ⟨(List.isChain_append.1 hchain).2.1, fun e he => ?_⟩
  have hmem : e ∈ own id (l ++ ofStep ext fuel w') := hrun ▸ List.mem_append_right front he
  exact staged_of_plays hw h hP hext fuel e ((diary σ).mem_own.1 hmem).1

end Execution

/-! ### The program -/

namespace Pass

variable {σ : Type} {ext : Extensions σ} {w : World σ} {t : Thread}

/-- The program that is executed is the one of the actor. -/
theorem graph_visitExecutions (fuel : Nat) (k : Scheduler) :
    ∀ e ∈ visitExecutions ext fuel k w t, w.graph? t.actor = some e.graph := by
  have hrun : ∀ (w : World σ) (t : Thread), ∀ e ∈ runExecutions ext fuel k w t,
      w.graph? t.actor = some e.graph := by
    intro w t
    refine runExecutions_cases (P := fun l _ => ∀ e ∈ l, w.graph? t.actor = some e.graph)
      (fun _ he => by cases he) fun g hg e he => ?_
    rw [((Scene.turns_executions ext g fuel k ⟨onStage w t, t⟩).setting e he).2, hg]
  refine visitExecutions_cases (P := fun l _ => ∀ e ∈ l, w.graph? t.actor = some e.graph)
    (fun _ he => by cases he) (fun _ => hrun w t) (fun s _ hw e he => ?wakes)
    (fun _ _ _ _ he => by cases he)
  case wakes =>
    have hwoken := woken_of_wake hw
    have hg := hrun s.world s.thread e he
    rwa [hwoken.moved.actor, hwoken.sameCast.graph?] at hg

end Pass

namespace Execution

open World

variable {σ : Type} {w : World σ} {program : SpriteId → Graph}

/-- Built-in primitives do not change programs, so a step executes those of the sprites. -/
theorem graph_ofStep (hset : w.Settled) (hw : w.Programmed program) (fuel : Nat) :
    ∀ e ∈ ofStep .empty fuel w, ∃ sprite, e.graph = program sprite := by
  refine (annals_step (annals_lasting (I := (·.Programmed program))
    (fun ha hp => hp.of_eq (SamePlay.of_cast ha.cast).programs)
    (fun hv hp => hp.of_eq (samePlay_of_changed (Pass.changed_visitAt hv)).programs)
    fun {p i _} _ hp e he => ?_) orderly_empty hset).1 hw
  unfold Log.visitAt at he
  cases ht : p.world.threads[i]? with
  | none =>
    rw [ht] at he
    cases he
  | some t =>
    rw [ht] at he
    have hg : ({ p.world with threads := p.world.threads.set i .absent } : World σ).graph? t.actor =
        some e.graph := Pass.graph_visitExecutions fuel _ e he
    obtain ⟨a, -, hgraph⟩ := hp.graph? hg
    exact ⟨a.sprite, hgraph⟩

end Execution

end Stagecraft
