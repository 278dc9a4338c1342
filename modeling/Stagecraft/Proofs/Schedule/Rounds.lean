import Stagecraft.Proofs.Schedule.Turns
import Mathlib.Data.List.Nodup

/-!
# Rounds

A pass takes each thread out of the list for its turn, lets other threads be started, started over
and stopped meanwhile, and drops those that ended after every round. `World.Amid` says what holds
all the while: the list has the ids that it had when the pass began, in their order, without those
of the threads that were dropped, and the threads started since then wait in the order of their ids.

* `Pass.amid_visitAt` : a visit keeps this;
* `Pass.amid_collect` : so does the end of a round;
* `Pass.amid_rounds` : so does a whole pass, by induction on visits and rounds;
* `Pass.mem_roundsTrace` : the blocks that a pass executes are of threads that were there before.
-/

namespace Stagecraft

/-! ### Lists without some of their elements -/

/-- What a test leaves out is told from what it keeps by what makes elements different. -/
theorem map_filter_not {α β : Type} [DecidableEq β] {f : α → β} {l : List α}
    (hn : (l.map f).Nodup) (p : α → Bool) :
    (l.filter fun a => !p a).map f = (l.map f).filter (· ∉ (l.filter p).map f) := by
  rw [List.filter_map]
  congr 1
  refine List.filter_congr fun a ha => ?_
  have hiff : f a ∈ (l.filter p).map f ↔ p a = true := by
    constructor
    · intro hm
      obtain ⟨b, hb, hf⟩ := List.mem_map.1 hm
      obtain ⟨hb, hp⟩ := List.mem_filter.1 hb
      rwa [← List.inj_on_of_nodup_map hn hb ha hf]
    · exact fun hp => List.mem_map.2 ⟨a, List.mem_filter.2 ⟨ha, hp⟩, rfl⟩
  simp only [Function.comp_apply, hiff, decide_not, Bool.decide_eq_true]

namespace World

variable {σ : Type} {w w' w'' : World σ} {finished : List ThreadId}

/-- A state in a pass that began in a settled state, once some threads were dropped. -/
structure Amid (w : World σ) (finished : List ThreadId) (w' : World σ) : Prop where
  inPass : w'.inPass = true
  next_le : w.nextThread ≤ w'.nextThread
  threads : w'.threads.map (·.id) = (w.threads.map (·.id)).filter (· ∉ finished)
  spawned : w'.spawned.map (·.id) = issued w w'
  untried : Untried w.nextThread w'
  finished_mem : ∀ id ∈ finished, id ∈ w.threads.map (·.id)
  finished_nodup : finished.Nodup

theorem Settled.lt_of_mem (hw : w.Settled) {id : ThreadId} (hid : id ∈ w.threads.map (·.id)) :
    id < w.nextThread := by
  obtain ⟨t, ht, rfl⟩ := List.mem_map.1 hid
  exact hw.lt t ht

theorem Settled.nodup (hw : w.Settled) : (w.threads.map (·.id)).Nodup :=
  hw.sorted.imp Nat.ne_of_lt

theorem Amid.mem_of_mem (ha : Amid w finished w') {t : Thread} (ht : t ∈ w'.threads) :
    t.id ∈ w.threads.map (·.id) := by
  have hm : t.id ∈ (w.threads.map (·.id)).filter (· ∉ finished) :=
    ha.threads ▸ List.mem_map.2 ⟨t, ht, rfl⟩
  exact (List.mem_filter.1 hm).1

theorem Amid.of_grown (ha : Amid w finished w') (h : Grown w' w'') : Amid w finished w'' := by
  have hthreads := h.threads
  have hspawned := h.spawned
  rw [ha.inPass, if_pos rfl] at hthreads hspawned
  refine ⟨h.inPass.trans ha.inPass, Nat.le_trans ha.next_le h.next_le, ?_, ?_,
    h.untried _ ha.untried, ha.finished_mem, ha.finished_nodup⟩
  · rw [hthreads, List.append_nil, ha.threads]
  · rw [hspawned, ha.spawned, issued_append ha.next_le h.next_le]

theorem Amid.elapse (ha : Amid w finished w') : Amid w finished w'.elapse :=
  ha.of_grown (.of_eq rfl rfl rfl rfl)

/-- Ids are unique in a pass. -/
theorem Amid.nodup (hw : w.Settled) (ha : Amid w finished w') :
    ((w'.threads ++ w'.spawned).map (·.id)).Nodup := by
  rw [List.map_append, ha.threads, ha.spawned]
  refine List.nodup_append.2 ⟨hw.nodup.filter _, List.nodup_range', fun a ha b hb => ?_⟩
  exact Nat.ne_of_lt (Nat.lt_of_lt_of_le (hw.lt_of_mem (List.mem_of_mem_filter ha))
    (List.mem_range'_1.1 hb).1)

theorem Amid.lt (hw : w.Settled) (ha : Amid w finished w') :
    ∀ t ∈ w'.threads ++ w'.spawned, t.id < w'.nextThread := by
  intro t ht
  rcases List.mem_append.1 ht with ht | ht
  · exact Nat.lt_of_lt_of_le (hw.lt_of_mem (ha.mem_of_mem ht)) ha.next_le
  · have hid : t.id ∈ issued w w' := ha.spawned ▸ List.mem_map.2 ⟨t, ht, rfl⟩
    rw [issued, List.mem_range'_1, Nat.add_sub_of_le ha.next_le] at hid
    exact hid.2

end World

namespace Pass

open World

variable {σ : Type} {ext : Extensions σ} {w : World σ} {finished : List ThreadId}

/-! ### The steps of a pass -/

theorem amid_begin (hw : w.Settled) (s : Scheduler) :
    Amid w [] (begin s { w with scheduler := none }).world := by
  have hids : (begin s { w with scheduler := none }).world.threads.map (·.id) =
      w.threads.map (·.id) := by
    simp only [begin, List.map_map]
    refine List.map_congr_left fun t _ => ?_
    simp only [Function.comp_apply]
    split <;> rfl
  have hspawned : (begin s { w with scheduler := none }).world.spawned = [] := hw.spawned
  refine ⟨rfl, Nat.le_refl _, ?_, ?_, ?_, (fun _ h => by cases h), List.nodup_nil⟩
  · rw [hids]
    simp
  · rw [hspawned]
    exact (issued_eq_nil rfl).symm
  · intro t ht hle
    -- all threads are from before
    have ht' : t ∈ (begin s { w with scheduler := none }).world.threads := by
      rwa [hspawned, List.append_nil] at ht
    have hlt := hw.lt_of_mem (hids ▸ List.mem_map.2 ⟨t, ht', rfl⟩)
    exact absurd hle (Nat.not_le.2 hlt)

/-- **A visit keeps threads in their places.** The visited one comes back to its place, and the
others are edited or started meanwhile. -/
theorem amid_visitAt (hext : ext.Orderly) (hw : w.Settled) {fuel i : Nat} {p p' : Pass σ}
    (ha : Amid w finished p.world) (h : visitAt ext fuel p i = some p') :
    Amid w finished p'.world := by
  obtain ⟨-, rfl⟩ | ⟨t, k, s, ht, hv, rfl⟩ := visitAt_cases h
  · exact ha
  · have hc := conserves_visit hext hv
    have hg := hc.world.grown ha.inPass
    have hmem : t ∈ p.world.threads := List.mem_of_getElem? ht
    have hthreads := hg.threads
    have hspawned := hg.spawned
    have hin : ({ p.world with threads := p.world.threads.set i .absent } : World σ).inPass =
        true := ha.inPass
    rw [hin, if_pos rfl] at hthreads hspawned
    refine ⟨hg.inPass.trans ha.inPass, Nat.le_trans ha.next_le hg.next_le, ?_, ?_, ?_,
      ha.finished_mem, ha.finished_nodup⟩
    · -- the id at the place is that of the visited thread again
      have hi : (p.world.threads.map (·.id))[i]? = some t.id := by
        rw [List.getElem?_map, ht]
        rfl
      obtain ⟨hlt, hget⟩ := List.getElem?_eq_some_iff.1 hi
      simp only [List.map_set, hthreads, List.append_nil, List.set_set, hc.id]
      rw [← hget, List.set_getElem_self, ha.threads]
    · exact hspawned.trans (by
        rw [ha.spawned]
        exact issued_append ha.next_le hg.next_le)
    · have hset : Untried w.nextThread
          ({ p.world with threads := p.world.threads.set i .absent } : World σ) := by
        intro t' ht' hle
        rcases Thread.mem_set ht' with hm | rfl
        · exact ha.untried t' hm hle
        · exact fun hd => by cases hd
      intro t' ht' hle
      rcases Thread.mem_set ht' with hm | rfl
      · exact hg.untried _ hset t' hm hle
      · -- the visited thread is from before the pass
        have hlt := hw.lt_of_mem (ha.mem_of_mem hmem)
        rw [hc.id] at hle
        exact absurd hle (Nat.not_le.2 hlt)

/-- **The end of a round** drops the threads that ended. -/
theorem amid_collect (hw : w.Settled) {p : Pass σ} (ha : Amid w finished p.world) :
    Amid w (p.collect finished).2 (p.collect finished).1.world := by
  have hnodup : (p.world.threads.map (·.id)).Nodup := ha.threads ▸ hw.nodup.filter _
  -- what is dropped now was in the list until now, so it was not dropped before
  have hended : ∀ id ∈ (p.world.threads.filter (·.isDone)).map (·.id),
      id ∈ (w.threads.map (·.id)).filter (· ∉ finished) := by
    intro id hid
    rw [← ha.threads]
    exact (List.filter_sublist.map _).subset hid
  refine ⟨ha.inPass, ha.next_le, ?_, ha.spawned, ?_, ?_, ?_⟩
  · simp only [collect]
    rw [map_filter_not hnodup, ha.threads, List.filter_filter]
    refine List.filter_congr fun id _ => ?_
    simp only [List.mem_append, not_or, Bool.decide_and, Bool.and_comm]
  · intro t ht hle
    refine ha.untried t ?_ hle
    rcases List.mem_append.1 ht with hm | hm
    · exact List.mem_append_left _ (List.mem_of_mem_filter hm)
    · exact List.mem_append_right _ hm
  · intro id hid
    rcases List.mem_append.1 hid with hid | hid
    · exact ha.finished_mem id hid
    · exact (List.mem_filter.1 (hended id hid)).1
  · refine List.nodup_append.2 ⟨ha.finished_nodup, hnodup.sublist (List.filter_sublist.map _), ?_⟩
    rintro a ha' b hb rfl
    have := (List.mem_filter.1 (hended a hb)).2
    simp only [decide_eq_true_eq] at this
    exact this ha'

/-! ### A round and a pass -/

theorem amid_visitAll (hext : ext.Orderly) (hw : w.Settled) {fuel : Nat} (places : List Nat)
    {s : Scheduler} {w' : World σ} {p' : Pass σ} {exhausted : Bool} (ha : Amid w finished w')
    (h : visitAll ext fuel places ⟨s, w'⟩ = some (p', exhausted)) : Amid w finished p'.world :=
  visitAll_induction (P := Amid w finished) (fun ha h => amid_visitAt hext hw ha h) Amid.elapse
    places (p := ⟨s, w'⟩) ha h

/-- **A whole pass.** -/
theorem amid_rounds (hext : ext.Orderly) (hw : w.Settled) {turnFuel fuel first : Nat}
    {p p' : Pass σ} {finished finished' : List ThreadId} (ha : Amid w finished p.world)
    (h : rounds ext turnFuel fuel first p finished = some (p', finished')) :
    Amid w finished' p'.world :=
  rounds_induction (P := Amid w) (fun ha h => amid_visitAt hext hw ha h) Amid.elapse
    (amid_collect hw) fuel ha h

/-! ### What a pass executes -/

/-- The thread of every block that is executed in the turn at a place. -/
def visitAtTrace (ext : Extensions σ) (fuel : Nat) (p : Pass σ) (i : Nat) : List ThreadId :=
  match p.world.threads[i]? with
  | none => []
  | some t =>
    visitTrace ext fuel p.scheduler { p.world with threads := p.world.threads.set i .absent } t

/-- The thread of every block that is executed in turns at the listed places. -/
def visitAllTrace (ext : Extensions σ) (fuel : Nat) : List Nat → Pass σ → List ThreadId
  | [], _ => []
  | i :: rest, p =>
    visitAtTrace ext fuel p i ++
      match visitAt ext fuel p i with
      | none => []
      | some p =>
        let p := { p with world := p.world.elapse }
        if p.scheduler.budgetExhausted p.world.now then [] else visitAllTrace ext fuel rest p

/-- The thread of every block that is executed in the rounds of a pass. -/
def roundsTrace (ext : Extensions σ) (turnFuel : Nat) :
    Nat → Nat → Pass σ → List ThreadId → List ThreadId
  | 0, _, _, _ => []
  | fuel + 1, first, p, finished =>
    let p := { p with scheduler := countRound p.scheduler }
    let places := order first p.world.threads.length
    visitAllTrace ext turnFuel places p ++
      match visitAll ext turnFuel places p with
      | none => []
      | some (p, exhausted) =>
        let (p, finished) := p.collect finished
        let p := { p with scheduler := noteBudget p.scheduler exhausted }
        if p.goesAround exhausted then roundsTrace ext turnFuel fuel 0 p finished else []

theorem mem_visitAllTrace (hext : ext.Orderly) (hw : w.Settled) {fuel : Nat} {id : ThreadId}
    (places : List Nat) : ∀ {s : Scheduler} {w' : World σ}, Amid w finished w' →
      id ∈ visitAllTrace ext fuel places ⟨s, w'⟩ → id ∈ w.threads.map (·.id) := by
  induction places with
  | nil =>
    intro _ _ _ h
    cases h
  | cons i rest ih =>
    intro s w' ha h
    rw [visitAllTrace] at h
    rcases List.mem_append.1 h with h | h
    · unfold visitAtTrace at h
      split at h
      · cases h
      · rename_i t ht
        rw [mem_visitTrace hext h]
        exact ha.mem_of_mem (List.mem_of_getElem? ht)
    · split at h
      · cases h
      · rename_i p₁ hv
        have ha₁ : Amid w finished p₁.world.elapse :=
          (amid_visitAt (p := ⟨s, w'⟩) hext hw ha hv).elapse
        simp only at h
        split at h
        · cases h
        · exact ih ha₁ h

/-- **A pass executes blocks of threads that were in the list when it began.** -/
theorem mem_roundsTrace (hext : ext.Orderly) (hw : w.Settled) {turnFuel : Nat} {id : ThreadId}
    (fuel : Nat) : ∀ {first : Nat} {s : Scheduler} {w' : World σ} {finished : List ThreadId},
      Amid w finished w' → id ∈ roundsTrace ext turnFuel fuel first ⟨s, w'⟩ finished →
        id ∈ w.threads.map (·.id) := by
  induction fuel with
  | zero =>
    intro _ _ _ _ _ h
    cases h
  | succ fuel ih =>
    intro first s w' finished ha h
    rw [roundsTrace] at h
    simp only at h
    rcases List.mem_append.1 h with h | h
    · exact mem_visitAllTrace hext hw _ ha h
    · split at h
      · cases h
      · rename_i hv
        have hc := amid_collect hw (amid_visitAll hext hw _ ha hv)
        split at h
        · exact ih hc h
        · cases h

/-! ### The traces are complete -/

theorem length_visitAtTrace {fuel i : Nat} {p p' : Pass σ} (h : visitAt ext fuel p i = some p') :
    p'.scheduler.stats.blocksExecuted =
      p.scheduler.stats.blocksExecuted + (visitAtTrace ext fuel p i).length := by
  unfold visitAtTrace
  obtain ⟨ht, rfl⟩ | ⟨t, k, s, ht, hv, rfl⟩ := visitAt_cases h
  · rw [ht]
    rfl
  · rw [ht]
    exact length_visitTrace hv

theorem length_visitAllTrace {fuel : Nat} (places : List Nat) :
    ∀ {p p' : Pass σ} {exhausted : Bool}, visitAll ext fuel places p = some (p', exhausted) →
      p'.scheduler.stats.blocksExecuted =
        p.scheduler.stats.blocksExecuted + (visitAllTrace ext fuel places p).length := by
  induction places with
  | nil =>
    intro _ _ _ h
    cases h
    rfl
  | cons i rest ih =>
    intro p p' exhausted h
    rw [visitAll] at h
    rw [visitAllTrace, List.length_append]
    cases hv : visitAt ext fuel p i with
    | none =>
      rw [hv] at h
      cases h
    | some p₁ =>
      have hcount := length_visitAtTrace hv
      simp only [hv] at h ⊢
      rw [← Nat.add_assoc, ← hcount]
      split at h
      · rename_i hb
        cases h
        rw [if_pos hb]
        rfl
      · rename_i hb
        rw [if_neg hb]
        exact ih h

/-- **The trace of a pass is as long as the count of its blocks.** -/
theorem length_roundsTrace {turnFuel : Nat} (fuel : Nat) :
    ∀ {first : Nat} {p p' : Pass σ} {finished finished' : List ThreadId},
      rounds ext turnFuel fuel first p finished = some (p', finished') →
        p'.scheduler.stats.blocksExecuted = p.scheduler.stats.blocksExecuted +
          (roundsTrace ext turnFuel fuel first p finished).length := by
  induction fuel with
  | zero =>
    intro _ _ _ _ _ h
    cases h
  | succ fuel ih =>
    intro first p p' finished finished' h
    rw [rounds] at h
    rw [roundsTrace]
    simp only at h ⊢
    rw [List.length_append]
    cases hv : visitAll ext turnFuel (order first p.world.threads.length)
        ⟨countRound p.scheduler, p.world⟩ with
    | none =>
      rw [hv] at h
      cases h
    | some r =>
      have hcount := length_visitAllTrace _ hv
      simp only [hv] at h ⊢
      split at h
      · rename_i hg
        rw [if_pos hg, ← Nat.add_assoc, ih h]
        exact congrArg (· + _) hcount
      · rename_i hg
        cases h
        rw [if_neg hg]
        exact hcount

end Pass

end Stagecraft
