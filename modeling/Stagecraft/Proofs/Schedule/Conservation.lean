import Stagecraft.Proofs.Graph.Operation
import Stagecraft.Proofs.Schedule.Rounds

/-!
# Threads are conserved

A step runs the rounds of a pass, lets the threads that were started meanwhile join the list, and
then starts the scripts of the queued events. So the list after a step has three parts: what is left
of the list before, the threads of the pass, and those of the events. Threads started in a step
execute nothing before the next one.

* `World.settled_of_reachable` : between steps a world is settled;
* `World.conserved_of_step` : **a step conserves the threads**.
-/

namespace Stagecraft.World

variable {σ : Type} {ext : Extensions σ} {w w' : World σ} {fuel : Nat} {ended : List ThreadId}

/-! ### The parts of a step -/

/-- A step up to the end of its rounds, before the threads that were started join the list. -/
def roundsOfStep (ext : Extensions σ) (fuel : Nat) (w : World σ) :
    Option (Pass σ × List ThreadId) :=
  match w.scheduler with
  | none => none
  | some s =>
    let s := s.configure w.settings
    Pass.rounds ext fuel fuel (Pass.firstPlace s w.threads)
      (Pass.begin s { w with scheduler := none }) []

/-- The thread of every block that a step executes. -/
def trace (ext : Extensions σ) (fuel : Nat) (w : World σ) : List ThreadId :=
  match w.scheduler with
  | none => []
  | some s =>
    let s := s.configure w.settings
    Pass.roundsTrace ext fuel fuel (Pass.firstPlace s w.threads)
      (Pass.begin s { w with scheduler := none }) []

/-- The world once a pass is over, before events are looked at. -/
def afterPass (p : Pass σ) : World σ :=
  { p.finish.world with scheduler := some p.finish.scheduler }

/-- A step is the rounds of a pass, and then the queued events. -/
theorem exists_rounds_of_step (hw : w.inPass = false) (h : w.step ext fuel = some (w', ended)) :
    ∃ p, w.roundsOfStep ext fuel = some (p, ended) ∧
      w' = (afterPass p).dispatchEvents.flushCloud.1 := by
  unfold step at h
  unfold roundsOfStep
  cases hs : w.scheduler with
  | none =>
    rw [inPass, hs] at hw
    cases hw
  | some s =>
    rw [hs] at h
    simp only [Pass.run] at h ⊢
    split at h
    · cases h
    · rename_i p finished hrun
      obtain ⟨⟨q, _⟩, hrounds, he⟩ := Option.map_eq_some_iff.1 hrun
      cases he
      cases h
      exact ⟨q, hrounds, rfl⟩

theorem grown_of_step (hw : w.Settled) (h : w.step ext fuel = some (w', ended)) :
    ∃ p, w.roundsOfStep ext fuel = some (p, ended) ∧ Grown (afterPass p) w' := by
  obtain ⟨p, hp, rfl⟩ := exists_rounds_of_step hw.idle h
  exact ⟨p, hp, (grown_dispatchEvents (afterPass p)).trans (.of_eq rfl rfl rfl rfl)⟩

theorem amid_roundsOfStep (hext : ext.Orderly) (hw : w.Settled) {p : Pass σ}
    (h : w.roundsOfStep ext fuel = some (p, ended)) : Amid w ended p.world := by
  unfold roundsOfStep at h
  split at h
  · cases h
  · rename_i s _
    exact Pass.amid_rounds hext hw (Pass.amid_begin hw (s.configure w.settings)) h

theorem mem_of_mem_trace (hext : ext.Orderly) (hw : w.Settled) {id : ThreadId}
    (h : id ∈ w.trace ext fuel) : id ∈ w.threads.map (·.id) := by
  unfold trace at h
  split at h
  · cases h
  · rename_i s _
    exact Pass.mem_roundsTrace hext hw fuel (Pass.amid_begin hw (s.configure w.settings)) h

/-- The trace of a step is complete: it is as long as the count of the blocks. -/
theorem length_trace {p : Pass σ} (h : w.roundsOfStep ext fuel = some (p, ended)) :
    (w.trace ext fuel).length = p.scheduler.stats.blocksExecuted := by
  unfold roundsOfStep at h
  unfold trace
  cases hs : w.scheduler with
  | none =>
    rw [hs] at h
    cases h
  | some s =>
    rw [hs] at h
    have hcount := Pass.length_roundsTrace fuel h
    exact (hcount.trans (Nat.zero_add _)).symm

/-- The list once the threads that were started have joined it. -/
theorem ids_afterPass {p : Pass σ} (ha : Amid w ended p.world) :
    (afterPass p).threads.map (·.id) = (w.threads.map (·.id)).filter (· ∉ ended) ++
      (p.world.spawned.filter fun t => !t.isDone).map (·.id) := by
  simp only [afterPass, Pass.finish, List.map_append, ha.threads]

/-- The world is settled again once a pass is over. -/
theorem settled_afterPass (hw : w.Settled) {p : Pass σ} (ha : Amid w ended p.world) :
    (afterPass p).Settled := by
  -- ids from before the pass are below the next one, those from the pass start there
  have hold : ∀ id ∈ (w.threads.map (·.id)).filter (· ∉ ended), id < w.nextThread := fun id hid =>
    hw.lt_of_mem (List.mem_of_mem_filter hid)
  have hnew : ∀ id ∈ (p.world.spawned.filter fun t => !t.isDone).map (·.id),
      w.nextThread ≤ id ∧ id < p.world.nextThread := by
    intro id hid
    have hm : id ∈ issued w p.world := ha.spawned ▸ (List.filter_sublist.map _).subset hid
    rw [issued, List.mem_range'_1, Nat.add_sub_of_le ha.next_le] at hm
    exact hm
  refine ⟨rfl, rfl, ?_, ?_⟩
  · rw [ids_afterPass ha]
    refine List.pairwise_append.2 ⟨hw.sorted.filter _, ?_, fun a ha' b hb => ?_⟩
    · have hsorted : (p.world.spawned.map (·.id)).Pairwise (· < ·) :=
        ha.spawned ▸ List.pairwise_lt_range'
      exact hsorted.sublist (List.filter_sublist.map _)
    · exact Nat.lt_of_lt_of_le (hold a ha') (hnew b hb).1
  · intro t ht
    have hid : t.id ∈ (afterPass p).threads.map (·.id) := List.mem_map.2 ⟨t, ht, rfl⟩
    rw [ids_afterPass ha] at hid
    rcases List.mem_append.1 hid with hid | hid
    · exact Nat.lt_of_lt_of_le (hold _ hid) ha.next_le
    · exact (hnew _ hid).2

/-- The threads that a step starts are where they start when it is over. -/
theorem untried_of_step (hext : ext.Orderly) (hw : w.Settled)
    (h : w.step ext fuel = some (w', ended)) : Untried w.nextThread w' := by
  obtain ⟨p, hp, hg⟩ := grown_of_step hw h
  refine hg.untried _ fun t ht hle => (amid_roundsOfStep hext hw hp).untried t ?_ hle
  -- those of the pass were where they start when they joined the list
  have ht : t ∈ p.world.threads ++ p.world.spawned.filter fun t => !t.isDone := by
    simpa [afterPass, Pass.finish] using ht
  rcases List.mem_append.1 ht with hm | hm
  · exact List.mem_append_left _ hm
  · exact List.mem_append_right _ (List.mem_of_mem_filter hm)

/-! ### Reachable worlds -/

/-- A world that a host can get to: it starts blank, and it is changed by deeds and stepped, with
extensions that may be others in every step. -/
inductive Reachable : World σ → Prop
  | blank (settings : Settings) (host : σ) (dice : Nat → Nat := fun _ => 0) :
      Reachable (blank settings host dice)
  | deed {w w' : World σ} : Reachable w → Deed w w' → Reachable w'
  | step {ext : Extensions σ} {fuel : Nat} {w w' : World σ} {ended : List ThreadId} :
      ext.Orderly → Reachable w → w.step ext fuel = some (w', ended) → Reachable w'

theorem settled_blank (settings : Settings) (host : σ) (dice : Nat → Nat) :
    (blank settings host dice).Settled :=
  ⟨rfl, rfl, List.Pairwise.nil, fun t ht => by cases ht⟩

/-- **Between steps a world is settled.** -/
theorem settled_of_reachable (hw : w.Reachable) : w.Settled := by
  induction hw with
  | blank settings host dice => exact settled_blank settings host dice
  | deed _ h ih => exact (h.conserves.follows ih).settled
  | step hext _ h ih =>
    obtain ⟨p, hp, hg⟩ := grown_of_step ih h
    exact (settled_afterPass ih (amid_roundsOfStep hext ih hp)).of_grown hg

/-- **A step conserves the threads.** The list after a step consists of the threads before it
without those that ended, in the same order; of the threads that the pass started and did not stop
again, in the order in which they were started; and of those that the queued events started, in
order. Every thread that ended was in the list and is told once, and ids go up along the list. The
threads that the step started execute none of its blocks: those that are left are where they
start. -/
theorem conserved_of_step (hext : ext.Orderly) (hw : w.Reachable)
    (h : w.step ext fuel = some (w', ended)) :
    ∃ p : Pass σ, w.roundsOfStep ext fuel = some (p, ended) ∧
      w'.threads.map (·.id) = (w.threads.map (·.id)).filter (· ∉ ended) ++
        (p.world.spawned.filter fun t => !t.isDone).map (·.id) ++ issued p.world w' ∧
      p.world.spawned.map (·.id) = issued w p.world ∧
      (∀ id ∈ ended, id ∈ w.threads.map (·.id)) ∧ ended.Nodup ∧
      (w'.threads.map (·.id)).Pairwise (· < ·) ∧
      (w.trace ext fuel).length = p.scheduler.stats.blocksExecuted ∧
      (∀ id ∈ w.trace ext fuel, id ∈ w.threads.map (·.id) ∧ id ∉ issued w w') ∧
      ∀ t ∈ w'.threads, t.id ∈ issued w w' → t.Unstarted := by
  have hset := settled_of_reachable hw
  obtain ⟨p, hp, hg⟩ := grown_of_step hset h
  have ha := amid_roundsOfStep hext hset hp
  have hset' := settled_afterPass hset ha
  have hthreads := hg.threads
  rw [hset'.idle, ids_afterPass ha] at hthreads
  refine ⟨p, hp, hthreads, ha.spawned, ha.finished_mem, ha.finished_nodup,
    (hset'.of_grown hg).sorted, length_trace hp, ?_, ?_⟩
  · intro id hid
    -- a thread from before the step has an id that was not given out in it
    have hmem := mem_of_mem_trace hext hset hid
    refine ⟨hmem, fun hi => ?_⟩
    exact Nat.not_le.2 (hset.lt_of_mem hmem) (List.mem_range'_1.1 hi).1
  · intro t ht hi
    exact untried_of_step hext hset h t (List.mem_append_left _ ht) (List.mem_range'_1.1 hi).1

/-! ### A step with all three parts -/

/-- An extension that starts a thread at its own block. -/
def spark : Extensions Unit := Table.empty.insert "host_spark" fun site _ s =>
  ({ s with world := (s.world.pushThread s.thread.actor site.block).1 }, .outcome .done)

/-- A block of the extension, an endless loop and a hat, each on its own. -/
def sparkProgram : Graph :=
  Graph.empty.run
    [.create { Block.detached "spark" (.custom "host_spark") with topLevel := true },
      .create { Block.detached "loop" (.control .forever) with topLevel := true },
      .create { Block.detached "hat" (.event .whenFlagClicked) with topLevel := true }]

/-- Two threads, one at the extension's block and one at the loop, and a green flag in the queue. -/
def sparkWorld : World Unit :=
  ((((blank .standard ()).addSprite "Cat" sparkProgram).1.pushThread 0 ⟨0, 0⟩).1.pushThread 0
    ⟨1, 0⟩).1.queueEvent .greenFlag

theorem orderly_spark : spark.Orderly := by
  intro name handler hget site args s
  by_cases hname : name = "host_spark"
  · subst hname
    rw [spark, Table.get?_insert_self] at hget
    cases hget
    exact ⟨.single (.pushThread s.world s.thread.actor site.block), rfl⟩
  · rw [spark, Table.get?_insert_of_ne _ hname] at hget
    cases hget

theorem reachable_sparkWorld : sparkWorld.Reachable := by
  have hactor : ((blank .standard ()).addSprite "Cat" sparkProgram).1.Reachable :=
    (Reachable.blank Settings.standard ()).deed (.tend rfl rfl rfl rfl)
  exact ((hactor.deed (.pushThread _ 0 ⟨0, 0⟩)).deed (.pushThread _ 0 ⟨1, 0⟩)).deed
    (.tend rfl rfl rfl rfl)

/-- The first thread starts one and ends, the second goes on, and the flag starts another one. -/
theorem conserved_of_step_spark :
    spark.Orderly ∧ sparkWorld.Reachable ∧
      ∃ w', sparkWorld.step spark 5 = some (w', [1]) ∧ w'.threads.map (·.id) = [2, 3, 4] ∧
        ∀ id ∈ sparkWorld.trace spark 5, id ∈ [1, 2] := by
  have hrun : (sparkWorld.step spark 5).map (fun r => (r.1.threads.map (·.id), r.2)) =
      some ([2, 3, 4], [1]) := by decide +kernel
  obtain ⟨⟨w', ended⟩, hstep, he⟩ := Option.map_eq_some_iff.1 hrun
  obtain ⟨hids, rfl⟩ := Prod.mk.inj he
  obtain ⟨p, -, -, -, -, -, -, -, htrace, -⟩ :=
    conserved_of_step orderly_spark reachable_sparkWorld hstep
  exact ⟨orderly_spark, reachable_sparkWorld, w', hstep, hids, fun id hid => (htrace id hid).1⟩

end Stagecraft.World
