import Stagecraft.Proofs.Schedule.Journal
import Stagecraft.Proofs.Schedule.Rotation
import Mathlib.Data.Option.Basic

/-!
# Waiting for a turn

A pass that runs out of time is taken up again at the first thread that it did not get to. So a
thread is passed over by a pass only if the pass gave turns to threads before it. This bounds how
long it has to wait, but not by the length of the list: threads that join the list get their turns
before those at its head once turns have gone past them, and when the thread at which a pass should
go on is gone the pass begins at the head.

* `World.turns` : the threads that have a turn in a step;
* `World.turns_of_step` : all threads have one, or the next pass goes on where this one stopped;
* `World.patience_of_step` : a thread that is passed over loses patience, up to the threads that
  join;
* `World.turn_of_passes` : **a thread gets its turn at the latest after `n (n + 1) / 2` passes**,
  one more for each thread that is started, where `n` is the length of the list;
* `World.turn_of_steady` : with the same threads all the while `n` passes are enough;
* `World.passed_over_relay` : scripts that start each other in a circle keep another one waiting.
-/

namespace Stagecraft

namespace Pass

open World

variable {σ : Type} {ext : Extensions σ} {w : World σ} {finished : List ThreadId}

/-- The thread that a visit is for. -/
def visited (p : Pass σ) (i : Nat) : List ThreadId := (p.world.threads[i]?.map (·.id)).toList

/-- Turns at the listed places are taken in order: at all of them, or the pass stops before one of
them and notes its thread. -/
theorem visited_visitAll (hext : ext.Orderly) (hw : w.Settled) {fuel : Nat} (places : List Nat) :
    ∀ {s : Scheduler} {w' : World σ} {p' : Pass σ} {exhausted : Bool}, Amid w finished w' →
      (∀ i ∈ places, i < w'.threads.length) →
      visitAll ext fuel places ⟨s, w'⟩ = some (p', exhausted) →
        (visitAllJournal visited ext fuel places ⟨s, w'⟩).map some =
            places.map (fun i => (w'.threads.map (·.id))[i]?) ∨
          ∃ front i rest, places = front ++ i :: rest ∧ front ≠ [] ∧ exhausted = true ∧
            p'.scheduler.resumeAt = (w'.threads.map (·.id))[i]? ∧
            (visitAllJournal visited ext fuel places ⟨s, w'⟩).map some =
              front.map (fun i => (w'.threads.map (·.id))[i]?) := by
  induction places with
  | nil => exact fun _ _ _ => Or.inl rfl
  | cons i rest ih =>
    intro s w' p' exhausted ha hlt h
    have hi := hlt i List.mem_cons_self
    have hthis : (visited (⟨s, w'⟩ : Pass σ) i).map some = [(w'.threads.map (·.id))[i]?] := by
      simp [visited, List.getElem?_eq_getElem hi]
    rw [visitAll] at h
    rw [visitAllJournal, List.map_append, hthis]
    cases hv : visitAt ext fuel ⟨s, w'⟩ i with
    | none =>
      rw [hv] at h
      cases h
    | some p₁ =>
      have ha₁ : Amid w finished p₁.world.elapse :=
        (amid_visitAt (p := ⟨s, w'⟩) hext hw ha hv).elapse
      -- a visit leaves the ids where they are
      have hids : p₁.world.elapse.threads.map (·.id) = w'.threads.map (·.id) :=
        ha₁.threads.trans ha.threads.symm
      simp only [hv] at h ⊢
      split at h
      · rename_i hb
        rw [if_pos hb]
        obtain ⟨hp, rfl⟩ := Prod.mk.inj (Option.some.inj h)
        cases rest with
        | nil => exact Or.inl rfl
        | cons j rest =>
          refine Or.inr ⟨[i], j, rest, rfl, by simp, rfl, ?_, rfl⟩
          rw [← hp, ← hids, List.getElem?_map]
          rfl
      · rename_i hb
        rw [if_neg hb]
        have hlen : p₁.world.elapse.threads.length = w'.threads.length := by
          simpa using congrArg List.length hids
        have hrest := ih ha₁ (fun j hj => hlen ▸ hlt j (List.mem_cons_of_mem _ hj)) h
        rw [hids] at hrest
        rcases hrest with hall | ⟨front, j, rest', hsplit, -, hex, hresume, hcut⟩
        · exact Or.inl (by rw [hall]; rfl)
        · refine Or.inr ⟨i :: front, j, rest', by rw [hsplit]; rfl, by simp, hex, hresume, ?_⟩
          rw [hcut]
          rfl

/-- Turns start at a place of the list and go around it. -/
theorem map_order (ids : List ThreadId) (first : Nat) :
    (order first ids.length).map (fun i => ids[i]?) = (ids.rotate first).map some := by
  refine List.ext_getElem (by simp [order]) fun k hk _ => ?_
  simp only [order, List.length_map, List.length_range] at hk
  have hmod : (first + k) % ids.length < ids.length := Nat.mod_lt _ (by omega)
  simp [order, List.getElem_rotate, Nat.add_comm k first, hmod]

/-- **A round gives all threads a turn, or it stops before one of them**, in the order of the list
from the first place on. -/
theorem visited_round (hext : ext.Orderly) (hw : w.Settled) {fuel first : Nat} {s : Scheduler}
    {w' : World σ} {p' : Pass σ} {exhausted : Bool} (ha : Amid w finished w')
    (h : visitAll ext fuel (order first w'.threads.length) ⟨s, w'⟩ = some (p', exhausted)) :
    visitAllJournal visited ext fuel (order first w'.threads.length) ⟨s, w'⟩ =
        (w'.threads.map (·.id)).rotate first ∨
      ∃ front r rest, (w'.threads.map (·.id)).rotate first = front ++ r :: rest ∧ front ≠ [] ∧
        exhausted = true ∧ p'.scheduler.resumeAt = some r ∧
        visitAllJournal visited ext fuel (order first w'.threads.length) ⟨s, w'⟩ = front := by
  have hrot := map_order (w'.threads.map (·.id)) first
  rw [List.length_map] at hrot
  have hplaces : ∀ i ∈ order first w'.threads.length, i < w'.threads.length := by
    intro i hi
    obtain ⟨k, hk, rfl⟩ := List.mem_map.1 hi
    exact Nat.mod_lt _ (Nat.zero_lt_of_lt (List.mem_range.1 hk))
  rcases visited_visitAll hext hw _ ha hplaces h with
    hall | ⟨front, i, rest, hsplit, hne, hex, hresume, hcut⟩
  · rw [hrot] at hall
    exact Or.inl (List.map_injective_iff.2 (Option.some_injective _) hall)
  · -- the split of the places is a split of the ids
    rw [hsplit, List.map_append, List.map_cons] at hrot
    obtain ⟨front', tail, haround, hfront, htail⟩ := List.map_eq_append_iff.1 hrot.symm
    obtain ⟨r, rest', rfl, hr, -⟩ := List.map_eq_cons_iff.1 htail
    rw [← hfront] at hcut
    refine Or.inr ⟨front', r, rest', haround, ?_, hex, hresume.trans hr.symm,
      List.map_injective_iff.2 (Option.some_injective _) hcut⟩
    rintro rfl
    exact hne (List.map_eq_nil_iff.1 hfront.symm)

/-- **A pass gives all threads a turn, or it stops before one of them**, whatever rounds follow. -/
theorem visited_rounds (hext : ext.Orderly) (hw : w.Settled) {turnFuel fuel first : Nat}
    {s : Scheduler} {w' : World σ} {p' : Pass σ} {finished' : List ThreadId}
    (ha : Amid w finished w')
    (h : rounds ext turnFuel fuel first ⟨s, w'⟩ finished = some (p', finished')) :
    (∀ t ∈ w'.threads.map (·.id),
        t ∈ roundsJournal visited ext turnFuel fuel first ⟨s, w'⟩ finished) ∨
      ∃ front r rest, (w'.threads.map (·.id)).rotate first = front ++ r :: rest ∧ front ≠ [] ∧
        (∀ t ∈ front, t ∈ roundsJournal visited ext turnFuel fuel first ⟨s, w'⟩ finished) ∧
        p'.scheduler.resumeAt = some r := by
  cases fuel with
  | zero => cases h
  | succ fuel =>
    rw [rounds] at h
    rw [roundsJournal]
    simp only at h ⊢
    split at h
    · cases h
    · rename_i p₁ exhausted hv
      rcases visited_round hext hw ha hv with
        hall | ⟨front, r, rest, haround, hne, rfl, hresume, hcut⟩
      · left
        intro t ht
        refine List.mem_append_left _ ?_
        rw [hall]
        exact List.mem_rotate.2 ht
      · right
        refine ⟨front, r, rest, haround, hne, fun t ht => List.mem_append_left _ (hcut ▸ ht), ?_⟩
        -- a pass that was cut short goes round no more
        have hgo : ∀ q : Pass σ, q.goesAround true = false := fun q => by simp [goesAround]
        rw [hgo, if_neg (by decide)] at h
        obtain ⟨rfl, -⟩ := Prod.mk.inj (Option.some.inj h)
        exact hresume

/-- The first place is that of the thread to go on with, else the head. -/
theorem rotate_firstPlace (s : Scheduler) (threads : List Thread) :
    (threads.map (·.id)).rotate (firstPlace s threads) =
      around (threads.map (·.id)) s.resumeAt := by
  unfold firstPlace
  cases s.resumeAt with
  | none => exact List.rotate_zero _
  | some r =>
    have hfind : threads.findIdx? (fun t => t.id == r) =
        (threads.map (·.id)).findIdx? (· == r) := by
      rw [List.findIdx?_map]
      rfl
    simp only [hfind, around]
    cases hr : (threads.map (·.id)).findIdx? (· == r) with
    | none =>
      have hnot : r ∉ threads.map (·.id) := fun hm => by
        simpa using List.findIdx?_eq_none_iff.1 hr r hm
      rw [List.idxOf_eq_length hnot, List.rotate_length]
      exact List.rotate_zero _
    | some i =>
      have hidx := (List.findIdx?_eq_some_iff_findIdx_eq.1 hr).2
      rw [List.idxOf, hidx]
      rfl

end Pass

namespace World

variable {σ : Type} {ext : Extensions σ} {fuel : Nat} {w w' w'' : World σ}
  {ended : List ThreadId} {t : ThreadId}

/-! ### One step -/

/-- The threads that have a turn in a step, in order. -/
def turns (ext : Extensions σ) (fuel : Nat) (w : World σ) : List ThreadId :=
  w.journal Pass.visited ext fuel

/-- The ids of the threads, in list order. -/
def ids (w : World σ) : List ThreadId := w.threads.map (·.id)

/-- The thread with which the next pass goes on. -/
def resumesAt (w : World σ) : Option ThreadId := w.scheduler.bind (·.resumeAt)

theorem follows_of_step (hext : ext.Orderly) (hw : w.Settled)
    (h : w.step ext fuel = some (w', ended)) : Follows w w' := by
  obtain ⟨p, hp, hg⟩ := grown_of_step hw h
  have ha := amid_roundsOfStep hext hw hp
  have hset := settled_afterPass hw ha
  refine Follows.trans ?_ (hset.follows_of_grown hg)
  have hjoined : List.Sublist ((p.world.spawned.filter fun t => !t.isDone).map (·.id))
      (issued w p.world) := ha.spawned ▸ List.filter_sublist.map _
  refine ⟨hset, ha.next_le, _, _, ids_afterPass ha, List.filter_sublist, ?_, fun id hid => ?_⟩
  · exact hjoined.length_le.trans_eq List.length_range'
  · exact (List.mem_range'_1.1 (hjoined.subset hid)).1

/-- **All threads have a turn, or the next pass goes on where this one stopped.** -/
theorem turns_of_step (hext : ext.Orderly) (hw : w.Settled)
    (h : w.step ext fuel = some (w', ended)) :
    (∀ t ∈ w.ids, t ∈ w.turns ext fuel) ∨
      ∃ front r rest, around w.ids w.resumesAt = front ++ r :: rest ∧ front ≠ [] ∧
        (∀ t ∈ front, t ∈ w.turns ext fuel) ∧ w'.resumesAt = some r := by
  obtain ⟨p, hp, hg⟩ := grown_of_step hw h
  have hresumes' : w'.resumesAt = p.scheduler.resumeAt := by
    rw [resumesAt, hg.scheduler]
    rfl
  unfold roundsOfStep at hp
  rw [hresumes', turns, journal, resumesAt]
  cases hs : w.scheduler with
  | none =>
    rw [hs] at hp
    cases hp
  | some s =>
    rw [hs] at hp
    have ha := Pass.amid_begin hw (s.configure w.settings)
    have hids : (Pass.begin (s.configure w.settings)
        { w with scheduler := none }).world.threads.map (·.id) = w.ids := by
      rw [ha.threads]
      simp [ids]
    have hround := Pass.visited_rounds hext hw ha hp
    rw [hids] at hround
    have hfirst : w.ids.rotate (Pass.firstPlace (s.configure w.settings) w.threads) =
        around w.ids s.resumeAt := Pass.rotate_firstPlace (s.configure w.settings) w.threads
    rwa [hfirst] at hround

/-! ### Step after step -/

/-- Steps one after the other, with what the host does between them, and the turns of each. -/
inductive Passes : World σ → List (List ThreadId) → World σ → Prop
  | nil (w : World σ) : Passes w [] w
  | cons {ext : Extensions σ} {fuel : Nat} {w w₁ w₂ w' : World σ} {ended : List ThreadId}
      {rest : List (List ThreadId)} :
      ext.Orderly → w.step ext fuel = some (w₁, ended) → Deeds w₁ w₂ → Passes w₂ rest w' →
      Passes w (w.turns ext fuel :: rest) w'

theorem Follows.refl (hw : w.Settled) : Follows w w := hw.follows_of_grown (.refl w)

/-- The thread with which to go on is not touched between passes. -/
theorem resumesAt_of_deeds (h : Deeds w w') : w'.resumesAt = w.resumesAt := by
  rw [resumesAt, h.conserves.scheduler, resumesAt]

theorem follows_of_leg (hext : ext.Orderly) (hw : w.Settled)
    (h : w.step ext fuel = some (w', ended)) (hd : Deeds w' w'') : Follows w w'' := by
  have hf := follows_of_step hext hw h
  exact hf.trans (hd.conserves.follows hf.settled)

theorem Passes.follows {turns : List (List ThreadId)} (h : Passes w turns w') (hw : w.Settled) :
    Follows w w' := by
  induction h with
  | nil w => exact .refl hw
  | cons hext hstep hd _ ih =>
    have hf := follows_of_leg hext hw hstep hd
    exact hf.trans (ih hf.settled)

/-- Ids are not given out again. -/
theorem Follows.mem (h : Follows w w') (hw : w.Settled) (h' : Follows w' w'') (ht : t ∈ w.ids)
    (ht'' : t ∈ w''.ids) : t ∈ w'.ids := by
  obtain ⟨kept, new, hids, hsub, -, hnew⟩ := h'.threads
  rw [ids, hids] at ht''
  refine hsub.subset ((List.mem_append.1 ht'').resolve_right fun hn => ?_)
  exact Nat.not_le.2 (hw.lt_of_mem ht) (Nat.le_trans h.next_le (hnew t hn))

/-- **A thread that is passed over loses patience**, up to the threads that join. -/
theorem patience_of_step (hext : ext.Orderly) (hw : w.Settled)
    (h : w.step ext fuel = some (w', ended)) (hd : Deeds w' w'') (ht : t ∈ w.ids)
    (ht'' : t ∈ w''.ids) (hover : t ∉ w.turns ext fuel) :
    patience w''.ids w''.resumesAt t <
      patience w.ids w.resumesAt t + (w''.nextThread - w.nextThread) := by
  obtain ⟨kept, new, hids, hsub, hlen, hnew⟩ := (follows_of_leg hext hw h hd).threads
  have hold : ∀ id ∈ w.ids, id ∉ new := fun id hid hn =>
    Nat.not_le.2 (hw.lt_of_mem hid) (hnew id hn)
  rw [resumesAt_of_deeds hd, ids, hids]
  rw [ids, hids] at ht''
  have hkept := (List.mem_append.1 ht'').resolve_right (hold t ht)
  rcases turns_of_step hext hw h with hall | ⟨front, r, rest, hcut, hne, hfront, hresume⟩
  · exact absurd (hall t ht) hover
  · rw [hresume]
    have hr : r ∈ w.ids := by
      refine (around_perm w.ids w.resumesAt).subset ?_
      simp [hcut]
    exact (patience_lt hw.nodup hcut hne (fun hm => hover (hfront t hm)) hsub hkept
      (hold r hr)).trans_le (Nat.add_le_add_left hlen _)

/-- Passes over a thread use up its patience, by induction on the passes. -/
theorem length_add_patience_le {turns : List (List ThreadId)} (h : Passes w turns w')
    (hw : w.Settled) (ht : t ∈ w.ids) (ht' : t ∈ w'.ids) (hover : ∀ ids ∈ turns, t ∉ ids) :
    turns.length + patience w'.ids w'.resumesAt t ≤
      patience w.ids w.resumesAt t + (w'.nextThread - w.nextThread) := by
  induction h with
  | nil w => simp
  | @cons ext fuel w w₁ w₂ w' ended rest hext hstep hd hrest ih =>
    have hf := follows_of_leg hext hw hstep hd
    have hf' := hrest.follows hf.settled
    have ht₂ := hf.mem hw hf' ht ht'
    have hlt := patience_of_step hext hw hstep hd ht ht₂ (hover _ List.mem_cons_self)
    have hle := ih hf.settled ht₂ ht' fun ids hids => hover ids (List.mem_cons_of_mem _ hids)
    have hadd := Nat.add_sub_of_le hf.next_le
    have hadd' := Nat.add_sub_of_le hf'.next_le
    rw [List.length_cons]
    omega

/-- **No thread waits for ever.** In a list of `n` threads, one that stays there gets a turn in one
of `n (n + 1) / 2` passes, and of one more for each thread that is started meanwhile. -/
theorem turn_of_passes (hw : w.Reachable) {turns : List (List ThreadId)} (h : Passes w turns w')
    (ht : t ∈ w.threads.map (·.id)) (ht' : t ∈ w'.threads.map (·.id))
    (hlong : w.threads.length * (w.threads.length + 1) / 2 + (w'.nextThread - w.nextThread) ≤
      turns.length) : ∃ ids ∈ turns, t ∈ ids := by
  by_contra hover
  have hset := settled_of_reachable hw
  have hle := length_add_patience_le h hset ht ht' fun ids hids hm => hover ⟨ids, hids, hm⟩
  have hlt := patience_lt_choose w.resumesAt ht
  rw [Nat.choose_two_right, List.length_map, Nat.add_sub_cancel, Nat.mul_comm] at hlt
  have hlt : patience w.ids w.resumesAt t < w.threads.length * (w.threads.length + 1) / 2 := hlt
  omega

/-- The turns of so many steps, one after the other. -/
def turnsOfSteps (ext : Extensions σ) (fuel : Nat) :
    Nat → World σ → Option (List (List ThreadId) × World σ)
  | 0, w => some ([], w)
  | n + 1, w =>
    match w.step ext fuel with
    | none => none
    | some (w', _) =>
      (turnsOfSteps ext fuel n w').map fun r => (w.turns ext fuel :: r.1, r.2)

theorem passes_of_steps (hext : ext.Orderly) {n : Nat} :
    ∀ {w w' : World σ} {turns : List (List ThreadId)},
      turnsOfSteps ext fuel n w = some (turns, w') → Passes w turns w' := by
  induction n with
  | zero =>
    intro w w' turns h
    cases h
    exact .nil w
  | succ n ih =>
    intro w w' turns h
    rw [turnsOfSteps] at h
    split at h
    · cases h
    · rename_i hstep
      obtain ⟨⟨rest, w''⟩, hrest, he⟩ := Option.map_eq_some_iff.1 h
      cases he
      exact .cons hext hstep .refl (ih hrest)

theorem orderly_empty : Extensions.Orderly (Table.empty : Extensions σ) := by
  intro name handler hget
  rw [Table.get?_empty] at hget
  cases hget

/-- An endless loop, and three scripts each of which sends the message of the next one and ends. -/
def relay : Graph :=
  let sends (key message : String) : Block := { Block.detached key (.event .broadcast) with
    inputs := Table.empty.insert "BROADCAST_INPUT" (.literal (.text message)) }
  let receives (key message : String) (next : Handle) : Block :=
    { Block.detached key (.event .whenBroadcastReceived) with
      fields := Table.empty.insert "BROADCAST_OPTION" ⟨message, none⟩
      next := some next
      topLevel := true }
  Graph.empty.run
    [.create { Block.detached "loop" (.control .forever) with topLevel := true },
      .create (sends "1" "b"), .create (sends "2" "c"), .create (sends "3" "a"),
      .create (receives "4" "a" ⟨1, 0⟩), .create (receives "5" "b" ⟨2, 0⟩),
      .create (receives "6" "c" ⟨3, 0⟩)]

/-- A stage for the relay, with no time for more than one turn in a pass, and the loop started. -/
def relayStage : World Unit :=
  (((blank { Settings.standard with workFraction := 0.0 } ()).addSprite "Cat" relay).1.pushThread 0
    ⟨0, 0⟩).1

theorem reachable_relayStage : relayStage.Reachable := by
  have hactor : ((blank { Settings.standard with workFraction := 0.0 } ()).addSprite "Cat"
      relay).1.Reachable :=
    (Reachable.blank { Settings.standard with workFraction := 0.0 } ()).deed (.tend rfl rfl rfl rfl)
  exact hactor.deed (.pushThread _ 0 ⟨0, 0⟩)

/-- Two loops that have their turns one in a pass. -/
theorem turn_of_passes_loops : ∃ w w' : World Unit, w.Reachable ∧
    ∃ turns, Passes w turns w' ∧ turns = [[1], [2], [1]] ∧ ∃ ids ∈ turns, 2 ∈ ids := by
  have hrun : (turnsOfSteps Table.empty 5 3 (relayStage.pushThread 0 ⟨0, 0⟩).1).map
      (fun r => (r.1, r.2.ids, r.2.nextThread)) = some ([[1], [2], [1]], [1, 2], 3) := by
    decide +kernel
  obtain ⟨⟨turns, w'⟩, hsteps, he⟩ := Option.map_eq_some_iff.1 hrun
  simp only [Prod.mk.injEq] at he
  obtain ⟨rfl, hids, hnext⟩ := he
  have hreach := reachable_relayStage.deed (.pushThread _ 0 ⟨0, 0⟩)
  have hpasses := passes_of_steps orderly_empty hsteps
  refine ⟨_, w', hreach, _, hpasses, rfl, turn_of_passes hreach hpasses ?_ ?_ ?_⟩
  · decide +kernel
  · have hmem : 2 ∈ w'.ids := by rw [hids]; decide
    exact hmem
  · rw [hnext]
    decide +kernel

/-- The stage with two scripts of the relay under way. -/
def relayRun : World Unit := ((relayStage.broadcast "a").1.broadcast "c").1

theorem reachable_relayRun : relayRun.Reachable :=
  (reachable_relayStage.deed (.startHats _ _ _ _)).deed (.startHats _ _ _ _)

/-- The list has three threads, and one of them has no turn in twelve passes: whenever turns come to
the end of the list, a thread has been started that has its turn first. -/
theorem passed_over_relay : ∃ w w' : World Unit, w.Reachable ∧ w.threads.map (·.id) = [1, 2, 3] ∧
    1 ∈ w'.threads.map (·.id) ∧
      ∃ turns, Passes w turns w' ∧ turns.length = 12 ∧ ∀ ids ∈ turns, 1 ∉ ids := by
  have hfirst : (relayRun.step Table.empty 5).bind (fun r =>
      (turnsOfSteps Table.empty 5 12 r.1).map fun q => (r.1.ids, q.2.ids.head?, q.1)) =
        some ([1, 2, 3], some 1, (List.range 12).map fun k => [k + 2]) := by
    decide +kernel
  obtain ⟨⟨w, ended⟩, hstep, hrest⟩ := Option.bind_eq_some_iff.1 hfirst
  obtain ⟨⟨turns, w'⟩, hsteps, he⟩ := Option.map_eq_some_iff.1 hrest
  simp only [Prod.mk.injEq] at he
  obtain ⟨hids, hhead, rfl⟩ := he
  exact ⟨w, w', reachable_relayRun.step orderly_empty hstep, hids, List.mem_of_mem_head? hhead, _,
    passes_of_steps orderly_empty hsteps, rfl, by decide⟩

/-! ### The same threads all the while -/

theorem Follows.sublist (h : Follows w w') (hnext : w'.nextThread = w.nextThread) :
    w'.ids.Sublist w.ids := by
  obtain ⟨kept, new, hids, hsub, hlen, -⟩ := h.threads
  rw [hnext, Nat.sub_self] at hlen
  rw [ids, hids, List.length_eq_zero_iff.1 (Nat.le_zero.1 hlen), List.append_nil]
  exact hsub

/-- Nothing comes or goes on the way if the list is as long as before in the end. -/
theorem Follows.ids_eq (h : Follows w w') (h' : Follows w' w'')
    (hnext : w''.nextThread = w.nextThread) (hsame : w''.ids.length = w.ids.length) :
    w'.nextThread = w.nextThread ∧ w'.ids = w.ids := by
  have hmid : w'.nextThread = w.nextThread := Nat.le_antisymm (hnext ▸ h'.next_le) h.next_le
  have hsub := h.sublist hmid
  have hsub' := h'.sublist (hnext.trans hmid.symm)
  exact ⟨hmid, hsub.eq_of_length (Nat.le_antisymm hsub.length_le (hsame ▸ hsub'.length_le))⟩

theorem length_add_idxOf_le {turns : List (List ThreadId)} (h : Passes w turns w')
    (hw : w.Settled) (ht : t ∈ w.ids) (hnext : w'.nextThread = w.nextThread)
    (hsame : w'.ids.length = w.ids.length) (hover : ∀ ids ∈ turns, t ∉ ids) :
    turns.length + (around w'.ids w'.resumesAt).idxOf t ≤
      (around w.ids w.resumesAt).idxOf t := by
  induction h with
  | nil w => simp
  | @cons ext fuel w w₁ w₂ w' ended rest hext hstep hd hrest ih =>
    have hf := follows_of_leg hext hw hstep hd
    obtain ⟨hnext₂, hids₂⟩ := hf.ids_eq (hrest.follows hf.settled) hnext hsame
    have hle := ih hf.settled (hids₂ ▸ ht) (hnext.trans hnext₂.symm) (hids₂ ▸ hsame)
      fun ids hids => hover ids (List.mem_cons_of_mem _ hids)
    have hskip := hover _ List.mem_cons_self
    rcases turns_of_step hext hw hstep with hall | ⟨front, r, tail, hcut, hne, hfront, hresume⟩
    · exact absurd (hall t ht) hskip
    · have hidx := idxOf_around_next hw.nodup hcut (fun hm => hskip (hfront t hm)) ht
      have hpos := List.length_pos_iff.2 hne
      rw [resumesAt_of_deeds hd, hresume, hids₂] at hle
      rw [List.length_cons]
      have hidx : (around w.ids w.resumesAt).idxOf t =
          front.length + (around w.ids (some r)).idxOf t := hidx
      omega

/-- While no thread is started and none leaves the list, only the turns before its own keep a
thread waiting, so it has one in as many passes as there are threads. -/
theorem turn_of_steady (hw : w.Reachable) {turns : List (List ThreadId)} (h : Passes w turns w')
    (ht : t ∈ w.threads.map (·.id)) (hnext : w'.nextThread = w.nextThread)
    (hsame : w'.threads.length = w.threads.length) (hlong : w.threads.length ≤ turns.length) :
    ∃ ids ∈ turns, t ∈ ids := by
  by_contra hover
  have hle := length_add_idxOf_le h (settled_of_reachable hw) ht hnext (by simpa [ids] using hsame)
    fun ids hids hm => hover ⟨ids, hids, hm⟩
  have hlt := List.idxOf_lt_length_of_mem ((around_perm w.ids w.resumesAt).symm.subset ht)
  rw [(around_perm _ _).length_eq, ids, List.length_map] at hlt
  have hle' := Nat.le_trans (Nat.le_add_right _ _) hle
  exact absurd (Nat.lt_of_le_of_lt (Nat.le_trans hlong hle') hlt) (Nat.lt_irrefl _)

end World

end Stagecraft
