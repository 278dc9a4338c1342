import Stagecraft.Proofs.Schedule.Mishap

/-!
# Faults are contained

What a run executes and the faults that it records are written down in one list of notes. A thread
that has ended does nothing any more, and nothing brings it back. So once a fault is noted, no later
note is of its thread. A round goes on after a fault as it does after any other turn.

* `Note`, `World.notes` : the blocks that a step executes and the faults that it records;
* `World.Spent` : a thread that will not run any more;
* `World.Noted` : notes after which threads are spent;
* `World.Tale` : a run with its notes;
* `World.contained_of_tale` : **faults are contained**.
-/

namespace Stagecraft

/-- What is noted of a run. -/
inductive Note where
  /-- A thread executes a block. -/
  | block (thread : ThreadId)
  /-- A turn ends in a fault. -/
  | fault (record : FaultRecord)
deriving DecidableEq

namespace Note

/-- The thread of a note. -/
def thread : Note → ThreadId
  | .block id => id
  | .fault r => r.thread

/-- The fault that is noted, if it is one. -/
def record? : Note → Option FaultRecord
  | .block _ => none
  | .fault r => some r

/-- A note may follow another one: a fault is the last that is noted of its thread. -/
def Before (n m : Note) : Prop := ∀ r, n = .fault r → m.thread ≠ r.thread

end Note

namespace Pass

open World

variable {σ : Type} {ext : Extensions σ} {fuel i : Nat} {p p' : Pass σ}

/-! ### The notes of a turn -/

/-- The notes of the turn at a place: its blocks, and then the fault in which it ends. -/
def visitNotes (ext : Extensions σ) (fuel : Nat) (p : Pass σ) (i : Nat) : List Note :=
  (visitAtTrace ext fuel p i).map .block ++
    ((visitAtMishap? ext fuel p i).map fun m => Note.fault m.record).toList

theorem mem_visitNotes {n : Note} : n ∈ visitNotes ext fuel p i ↔
    (∃ id ∈ visitAtTrace ext fuel p i, n = .block id) ∨
      ∃ m, visitAtMishap? ext fuel p i = some m ∧ n = .fault m.record := by
  simp [visitNotes, eq_comm]

theorem records_visitNotes : (visitNotes ext fuel p i).filterMap Note.record? =
    ((visitAtMishap? ext fuel p i).map Mishap.record).toList := by
  have hblocks : ((visitAtTrace ext fuel p i).map Note.block).filterMap Note.record? = [] := by
    simp [List.filterMap_map, List.filterMap_eq_nil_iff, Note.record?]
  rw [visitNotes, List.filterMap_append, hblocks]
  cases visitAtMishap? ext fuel p i <;> rfl

/-- The notes of a turn are of one thread that has not ended before. -/
theorem thread_of_mem_visitNotes (hext : ext.Orderly) {n : Note}
    (hn : n ∈ visitNotes ext fuel p i) :
    ∃ t, p.world.threads[i]? = some t ∧ n.thread = t.id ∧ t.isDone = false := by
  rcases mem_visitNotes.1 hn with ⟨id, hid, rfl⟩ | ⟨m, hm, rfl⟩
  · unfold visitAtTrace at hid
    split at hid
    · cases hid
    · rename_i t ht
      refine ⟨t, ht, mem_visitTrace hext hid, ?_⟩
      cases hst : t.status with
      | done => simp [visitTrace, hst] at hid
      | _ => simp [Thread.isDone, hst]
  · obtain ⟨t, p', stage, ht, -, hid, -⟩ := visitAt_of_mishap hext hm
    refine ⟨t, ht, hid, ?_⟩
    rw [visitAtMishap?, ht, Option.bind_some] at hm
    cases hst : t.status with
    | done => simp [visitMishap?, hst] at hm
    | _ => simp [Thread.isDone, hst]

/-- A fault is the last that is noted in a turn. -/
theorem pairwise_visitNotes : (visitNotes ext fuel p i).Pairwise Note.Before := by
  refine List.pairwise_append.2 ⟨?_, ?_, fun a ha b _ r hr => ?_⟩
  · exact List.pairwise_map.2 (List.pairwise_of_forall fun _ _ r hr => by cases hr)
  · cases visitAtMishap? ext fuel p i with
    | none => exact .nil
    | some m => exact List.pairwise_singleton _ _
  · obtain ⟨id, -, rfl⟩ := List.mem_map.1 ha
    cases hr

end Pass

namespace World

open Thread

variable {σ : Type} {ext : Extensions σ} {fuel : Nat} {w w' w'' : World σ} {l l' : List Note}
  {finished ended : List ThreadId} {id : ThreadId}

/-! ### Threads that are spent -/

/-- A thread that will not run any more: its id has been given out, and it has ended where it still
is in the lists. -/
structure Spent (w : World σ) (id : ThreadId) : Prop where
  lt : id < w.nextThread
  done : ∀ t ∈ w.threads ++ w.spawned, t.id = id → t.isDone = true

/-- Nothing brings a spent thread back between turns. -/
theorem Spent.meanwhile (hs : Spent w id) (h : Meanwhile w w') : Spent w' id := by
  refine ⟨Nat.lt_of_lt_of_le hs.lt h.next_le, fun t' ht' hid => ?_⟩
  rcases h.origin t' ht' with hnew | ⟨t, ht, hw⟩
  · exact absurd (hid ▸ hnew) (Nat.not_le.2 hs.lt)
  · have hdone := hs.done t ht (hw.id.symm.trans hid)
    have hdue : t.due = t := by
      unfold due
      rw [if_neg fun h => by simp [isDone, h] at hdone]
    have hsub : Subdued t t' := by
      rcases hw with hw | hw
      · exact hw.subdued
      · exact (hdue ▸ hw).subdued
    cases hd : t'.isDone with
    | true => rfl
    | false => exact (hsub.alive hd).symm.trans hdone

/-- A thread leaves the list for its turn. -/
theorem Spent.absent (hs : Spent w id) (i : Nat) :
    Spent { w with threads := w.threads.set i .absent } id := by
  refine ⟨hs.lt, fun u hu huid => ?_⟩
  rcases Thread.mem_set hu with hu | rfl
  · exact hs.done u hu huid
  · rfl

/-- Nor does a turn. -/
theorem Spent.visitAt (hs : Spent w id) (hext : ext.Orderly) {p p' : Pass σ} {i : Nat}
    (hp : p.world = w) (h : Pass.visitAt ext fuel p i = some p') : Spent p'.world id := by
  subst hp
  obtain ⟨-, rfl⟩ | ⟨t, k, s, ht, hv, rfl⟩ := Pass.visitAt_cases h
  · exact hs
  · have hafter := (hs.absent i).meanwhile ((upheld_meanwhile hext).visit hv)
    refine ⟨hafter.lt, fun u hu huid => ?_⟩
    rcases Thread.mem_set hu with hu | rfl
    · exact hafter.done u hu huid
    · -- a thread that has ended does nothing in its turn
      have hid : s.thread.id = t.id := (Pass.conserves_visit hext hv).id
      have hdone := hs.done t (List.mem_append_left _ (List.mem_of_getElem? ht))
        (hid.symm.trans huid)
      unfold Pass.visit at hv
      rw [beq_iff_eq.1 hdone] at hv
      cases hv
      exact hdone

/-! ### What the notes say -/

/-- Threads that are spent stay so and are not noted, and a fault is the last note of its thread,
which is spent afterwards. -/
structure Noted (w : World σ) (l : List Note) (w' : World σ) : Prop where
  spent : ∀ id, Spent w id → Spent w' id ∧ ∀ n ∈ l, n.thread ≠ id
  order : l.Pairwise Note.Before
  last : ∀ r, Note.fault r ∈ l → Spent w' r.thread

namespace Noted

theorem of_meanwhile (h : Meanwhile w w') : Noted w [] w' :=
  ⟨fun _ hs => ⟨hs.meanwhile h, fun _ hn => by cases hn⟩, .nil, fun _ hr => by cases hr⟩

theorem append (h : Noted w l w') (h' : Noted w' l' w'') : Noted w (l ++ l') w'' := by
  refine ⟨fun id hs => ?_, ?_, fun r hr => ?_⟩
  · obtain ⟨hs', hnot⟩ := h.spent id hs
    obtain ⟨hs'', hnot'⟩ := h'.spent id hs'
    exact ⟨hs'', fun n hn => (List.mem_append.1 hn).elim (hnot n) (hnot' n)⟩
  · refine List.pairwise_append.2 ⟨h.order, h'.order, fun n hn m hm r hr => ?_⟩
    exact (h'.spent r.thread (h.last r (hr ▸ hn))).2 m hm
  · rcases List.mem_append.1 hr with hr | hr
    · exact (h'.spent r.thread (h.last r hr)).1
    · exact h'.last r hr

end Noted

/-- A turn that comes to its end. -/
theorem noted_visitAt (hext : ext.Orderly) (hw : w.Settled) {p p' : Pass σ} {i : Nat}
    (ha : Amid w finished p.world) (h : Pass.visitAt ext fuel p i = some p') :
    Noted p.world (Pass.visitNotes ext fuel p i) p'.world := by
  have ha' := Pass.amid_visitAt hext hw ha h
  refine ⟨fun id hs => ⟨hs.visitAt hext rfl h, fun n hn hid => ?_⟩, Pass.pairwise_visitNotes,
    fun r hr => ?_⟩
  · obtain ⟨t, ht, hthread, hd⟩ := Pass.thread_of_mem_visitNotes hext hn
    have hdone := hs.done t (List.mem_append_left _ (List.mem_of_getElem? ht))
      (hthread.symm.trans hid)
    rw [hd] at hdone
    cases hdone
  · obtain ⟨id, -, hblock⟩ | ⟨m, hm, hrec⟩ := Pass.mem_visitNotes.1 hr
    · cases hblock
    · cases hrec
      obtain ⟨t, p₁, stage, ht, hv, hid, -, hworld⟩ := Pass.visitAt_of_mishap hext hm
      cases h.symm.trans hv
      -- the thread is in its place again, and no other one has its id
      have hplace : p'.world.threads[i]? = some m.scene.thread.retire := by
        have hlen := congrArg List.length (ha'.threads.trans ha.threads.symm)
        rw [List.length_map, List.length_map] at hlen
        have hlt : i < p'.world.threads.length :=
          hlen ▸ (List.getElem?_eq_some_iff.1 ht).1
        rw [hworld] at hlt ⊢
        rw [List.length_set] at hlt
        exact List.getElem?_set_self hlt
      have hmem := List.mem_append_left p'.world.spawned (List.mem_of_getElem? hplace)
      have hlt := ha'.lt hw _ hmem
      refine ⟨hlt, fun u hu huid => ?_⟩
      have hsame : u = m.scene.thread.retire :=
        List.inj_on_of_nodup_map (ha'.nodup hw) hu hmem huid
      rw [hsame]
      rfl

/-- A turn that does not come to its end has no fault. -/
theorem noted_halt (hext : ext.Orderly) {p : Pass σ} {i : Nat}
    (h : Pass.visitAt ext fuel p i = none) :
    Noted p.world (Pass.visitNotes ext fuel p i) p.world ∧
      Pass.visitAtMishap? ext fuel p i = none := by
  have hnone : Pass.visitAtMishap? ext fuel p i = none := by
    cases hm : Pass.visitAtMishap? ext fuel p i with
    | none => rfl
    | some m =>
      obtain ⟨t, p', stage, -, hv, -⟩ := Pass.visitAt_of_mishap hext hm
      cases h.symm.trans hv
  refine ⟨⟨fun id hs => ⟨hs, fun n hn hid => ?_⟩, Pass.pairwise_visitNotes, fun r hr => ?_⟩, hnone⟩
  · obtain ⟨t, ht, hthread, hd⟩ := Pass.thread_of_mem_visitNotes hext hn
    have hdone := hs.done t (List.mem_append_left _ (List.mem_of_getElem? ht))
      (hthread.symm.trans hid)
    rw [hd] at hdone
    cases hdone
  · obtain ⟨id, -, hblock⟩ | ⟨m, hm, -⟩ := Pass.mem_visitNotes.1 hr
    · cases hblock
    · cases hnone.symm.trans hm

/-! ### The notes of a step -/

/-- The notes of a step. -/
def notes (ext : Extensions σ) (fuel : Nat) (w : World σ) : List Note :=
  w.journal (Pass.visitNotes ext fuel) ext fuel

/-- What is told of the turns of a pass: their notes are of threads that were in the list when it
began, and its faults are recorded in order, and nothing else is. -/
structure Account (ext : Extensions σ) (start w : World σ) (l : List Note) (w' : World σ) :
    Prop where
  noted : Noted w l w'
  mem : ∀ n ∈ l, n.thread ∈ start.threads.map (·.id)
  records : ext.Discreet →
    w'.faults.records = w.faults.records ++ l.filterMap Note.record?

theorem chronicle_account (hext : ext.Orderly) (hw : w.Settled) (fuel : Nat) :
    Chronicle ext fuel (Pass.visitNotes ext fuel) w (Account ext w) := by
  have hmem : ∀ {p : Pass σ} {i : Nat} {finished : List ThreadId}, Amid w finished p.world →
      ∀ n ∈ Pass.visitNotes ext fuel p i, n.thread ∈ w.threads.map (·.id) := by
    intro p i finished ha n hn
    obtain ⟨t, ht, hthread, -⟩ := Pass.thread_of_mem_visitNotes hext hn
    exact hthread ▸ ha.mem_of_mem (List.mem_of_getElem? ht)
  refine ⟨fun h h' => ⟨h.noted.append h'.noted, fun n hn => ?_, fun hd => ?_⟩, fun ha => ?_,
    fun ha hv => ?_, fun ha hv => ?_⟩
  · exact (List.mem_append.1 hn).elim (h.mem n) (h'.mem n)
  · rw [h'.records hd, h.records hd, List.filterMap_append, List.append_assoc]
  · refine ⟨.of_meanwhile ha.meanwhile, (fun n hn => by cases hn), fun _ => ?_⟩
    rw [ha.faults]
    exact (List.append_nil _).symm
  · refine ⟨noted_visitAt hext hw ha hv, hmem ha, fun hd => ?_⟩
    rw [Pass.records_visitNotes]
    exact Pass.recorded_visitAt hd hv
  · obtain ⟨hnoted, hnone⟩ := noted_halt hext hv
    refine ⟨hnoted, hmem ha, fun _ => ?_⟩
    rw [Pass.records_visitNotes, hnone]
    exact (List.append_nil _).symm

end World

namespace Pass

variable {σ : Type} {ext : Extensions σ}

/-- When a pass is over, the threads that ended have left the list. -/
theorem alive_rounds {turnFuel : Nat} (fuel : Nat) : ∀ {first : Nat} {p p' : Pass σ}
    {finished finished' : List ThreadId},
      rounds ext turnFuel fuel first p finished = some (p', finished') →
        ∀ t ∈ p'.world.threads, t.isDone = false := by
  induction fuel with
  | zero =>
    intro _ _ _ _ _ h
    cases h
  | succ fuel ih =>
    intro first p p' finished finished' h
    rw [rounds] at h
    simp only at h
    split at h
    · cases h
    · split at h
      · exact ih h
      · cases h
        intro t ht
        exact Bool.eq_false_iff.2 fun hd => by simpa [hd] using (List.mem_filter.1 ht).2

/-! ### Rounds go on -/

/-- A round gives every thread its turn, in list order from its first place on, or it stops before
one of them because the time of the pass is used up. -/
def Served (ext : Extensions σ) (fuel : Nat) (o : Nat × Pass σ) : Prop :=
  let ids := (o.2.world.threads.map (·.id)).rotate o.1
  let turns := roundJournal visited ext fuel o
  turns = ids ∨ turns <+: ids ∧ ∃ p, visitAll ext fuel (order o.1 o.2.world.threads.length) o.2 =
    some (p, true) ∧ p.scheduler.budgetExhausted p.world.now = true

/-- A round that is cut short has used the time up. -/
theorem exhausted_visitAll {fuel : Nat} (places : List Nat) : ∀ {p p' : Pass σ},
    visitAll ext fuel places p = some (p', true) →
      p'.scheduler.budgetExhausted p'.world.now = true := by
  induction places with
  | nil =>
    intro p p' h
    cases h
  | cons i rest ih =>
    intro p p' h
    rw [visitAll] at h
    split at h
    · cases h
    · simp only at h
      split at h
      · rename_i hb
        cases h
        exact hb
      · exact ih h

/-- **Every round goes on as far as its time allows.** -/
theorem served_openings (hext : ext.Orderly) {w : World σ} (hw : w.Settled) {turnFuel : Nat}
    (fuel : Nat) : ∀ {first : Nat} {p p' : Pass σ} {finished finished' : List ThreadId},
      World.Amid w finished p.world →
        rounds ext turnFuel fuel first p finished = some (p', finished') →
          ∀ o ∈ openings ext turnFuel fuel first p finished, Served ext turnFuel o := by
  induction fuel with
  | zero =>
    intro _ _ _ _ _ _ h
    cases h
  | succ fuel ih =>
    intro first p p' finished finished' ha h o ho
    rw [rounds] at h
    rw [openings] at ho
    simp only at h ho
    cases hv : visitAll ext turnFuel (order first p.world.threads.length)
        ⟨countRound p.scheduler, p.world⟩ with
    | none =>
      rw [hv] at h
      cases h
    | some r =>
      obtain ⟨p₁, exhausted⟩ := r
      simp only [hv] at h ho
      rcases List.mem_cons.1 ho with rfl | ho
      · rcases visited_round hext hw ha hv with
          hall | ⟨front, r, rest, haround, -, rfl, -, hcut⟩
        · exact Or.inl hall
        · refine Or.inr ⟨?_, p₁, hv, exhausted_visitAll _ hv⟩
          exact ⟨r :: rest, (congrArg (· ++ r :: rest) hcut).trans haround.symm⟩
      · have hc := amid_collect hw (amid_visitAll hext hw _ ha hv)
        split at h
        · rename_i hgo
          rw [if_pos hgo] at ho
          exact ih (p := ⟨noteBudget _ exhausted, _⟩) hc h o ho
        · rename_i hgo
          rw [if_neg hgo] at ho
          cases ho

end Pass

namespace World

variable {σ : Type} {ext : Extensions σ} {fuel : Nat} {w w' w'' : World σ} {l : List Note}
  {ended : List ThreadId}

theorem served_rounds (hext : ext.Orderly) (hw : w.Settled)
    (h : w.step ext fuel = some (w', ended)) : ∀ o ∈ w.rounds ext fuel, Pass.Served ext fuel o := by
  obtain ⟨p, hp, -⟩ := exists_rounds_of_step hw.idle h
  unfold roundsOfStep at hp
  unfold rounds
  cases hs : w.scheduler with
  | none =>
    rw [hs] at hp
    cases hp
  | some s =>
    rw [hs] at hp
    exact Pass.served_openings hext hw fuel (Pass.amid_begin hw (s.configure w.settings)) hp

/-- What is noted of a step: its threads have run, and those with a fault have ended in it. -/
theorem noted_step (hext : ext.Orderly) (hw : w.Settled)
    (h : w.step ext fuel = some (w', ended)) :
    Noted w (w.notes ext fuel) w' ∧
      (ext.Discreet → w'.faults.records =
        w.faults.records ++ (w.notes ext fuel).filterMap Note.record?) ∧
      ∀ r, Note.fault r ∈ w.notes ext fuel → r.thread ∈ ended := by
  obtain ⟨w₁, haccount, hend⟩ := chronicle_step (chronicle_account hext hw fuel) hext hw
  obtain ⟨p, hp, rfl⟩ := exists_rounds_of_step hw.idle h
  cases hend p ended hp
  have haside := aside_afterPass p
  have hevents : Meanwhile (afterPass p) (afterPass p).dispatchEvents :=
    .of_descends (tends_dispatchEvents _).descends
  have hafter : Meanwhile p.world (afterPass p).dispatchEvents.flushCloud.1 :=
    (haside.meanwhile.trans hevents).trans (.of_subset rfl (List.Subset.refl _))
  refine ⟨?_, fun hd => ?_, fun r hr => ?_⟩
  · have happ := haccount.noted.append (.of_meanwhile hafter)
    rwa [List.append_nil] at happ
  · have hfaults : (afterPass p).dispatchEvents.flushCloud.1.faults = p.world.faults :=
      (faults_dispatchEvents _).trans haside.faults
    rw [hfaults]
    exact haccount.records hd
  · -- the thread was in the list and is spent, so it has left the list
    have ha := amid_roundsOfStep hext hw hp
    have hspent := haccount.noted.last r hr
    by_contra hnot
    have hleft : r.thread ∈ p.world.threads.map (·.id) := by
      rw [ha.threads]
      exact List.mem_filter.2 ⟨haccount.mem _ hr, decide_eq_true hnot⟩
    obtain ⟨t, ht, hid⟩ := List.mem_map.1 hleft
    have hdone := hspent.done t (List.mem_append_left _ ht) hid
    unfold roundsOfStep at hp
    split at hp
    · cases hp
    · rw [Pass.alive_rounds fuel hp t ht] at hdone
      cases hdone

/-! ### Runs -/

/-- A run of a world with its notes: what a host does and the steps in between, with extensions that
may be others in every step. -/
inductive Tale : World σ → List Note → World σ → Prop
  | nil (w : World σ) : Tale w [] w
  | deed {w w₁ w' : World σ} {rest : List Note} : Deed w w₁ → Tale w₁ rest w' → Tale w rest w'
  | step {ext : Extensions σ} {fuel : Nat} {w w₁ w' : World σ} {ended : List ThreadId}
      {rest : List Note} : ext.Orderly → w.step ext fuel = some (w₁, ended) → Tale w₁ rest w' →
      Tale w (w.notes ext fuel ++ rest) w'

theorem Tale.noted (h : Tale w l w') (hw : w.Settled) : Noted w l w' ∧ w'.Settled := by
  induction h with
  | nil w => exact ⟨.of_meanwhile (.refl w), hw⟩
  | deed hd _ ih =>
    obtain ⟨hnoted, hset⟩ := ih (hd.conserves.follows hw).settled
    exact ⟨(Noted.of_meanwhile hd.meanwhile).append hnoted, hset⟩
  | @step ext fuel w w₁ w' ended rest hext hstep _ ih =>
    obtain ⟨hnoted, hset⟩ := ih (follows_of_step hext hw hstep).settled
    exact ⟨(noted_step hext hw hstep).1.append hnoted, hset⟩

/-- **Faults are contained.** In a run, also in a step that has not come to its end, no block and no
other fault of a thread is noted after a fault of it. Whenever a turn ends in a failure, it comes to
its end; one fault is recorded, with the id and the actor of the thread; the thread has ended when
it is back in its place, and handling the failure does nothing else to the world that it left
behind. When a step comes to its end, it has recorded the faults that are noted and nothing else,
their threads are among those that it tells to have ended, and every round of it has given all
threads their turns, in order, unless the time of the pass was used up. -/
theorem contained_of_tale (hw : w.Reachable) (h : Tale w l w') (hext : ext.Orderly)
    (fuel : Nat) :
    (l ++ w'.notes ext fuel).Pairwise Note.Before ∧
    (∀ (p : Pass σ) (i : Nat) (m : Mishap σ), Pass.visitAtMishap? ext fuel p i = some m →
      ∃ t p' stage, p.world.threads[i]? = some t ∧ Pass.visitAt ext fuel p i = some p' ∧
        m.record.thread = t.id ∧
        (ext.Discreet → m.record.actor = t.actor ∧
          p'.world.faults.records = p.world.faults.records ++ [m.record]) ∧
        p'.world = { m.scene.world.recordFault m.record with
          current := stage
          threads := m.scene.world.threads.set i m.scene.thread.retire }) ∧
    ∀ w'' ended, w'.step ext fuel = some (w'', ended) →
      (ext.Discreet → w''.faults.records =
        w'.faults.records ++ (w'.notes ext fuel).filterMap Note.record?) ∧
      (∀ r, Note.fault r ∈ w'.notes ext fuel → r.thread ∈ ended) ∧
      w'.turns ext fuel =
        (w'.rounds ext fuel).flatMap (Pass.roundJournal Pass.visited ext fuel) ∧
      ∀ o ∈ w'.rounds ext fuel, Pass.Served ext fuel o := by
  obtain ⟨hnoted, hset⟩ := h.noted (settled_of_reachable hw)
  obtain ⟨w₁, hlast, -⟩ := chronicle_step (chronicle_account hext hset fuel) hext hset
  refine ⟨(hnoted.append hlast.noted).order, fun p i m hm => ?_, fun w'' ended hstep => ?_⟩
  · obtain ⟨t, p', stage, ht, hv, hid, hactor, hworld⟩ := Pass.visitAt_of_mishap hext hm
    refine ⟨t, p', stage, ht, hv, hid, fun hd => ⟨hactor hd, ?_⟩, hworld⟩
    rw [Pass.recorded_visitAt hd hv, hm]
    rfl
  · obtain ⟨-, hrecords, hended⟩ := noted_step hext hset hstep
    exact ⟨hrecords, hended, journal_eq_rounds _ ext fuel w', served_rounds hext hset hstep⟩

/-- What the extension of the example does: it sends a message and fails. -/
def blow : Extension Unit := fun _ _ s =>
  ({ s with world := (s.world.broadcast "go").1 }, .outcome (.failed (.failed "host_fuse" "blown")))

/-- The only extension of the example. -/
def fuse : Extensions Unit := Table.empty.insert "host_fuse" blow

/-- A script that runs the extension when it receives the message, and a loop. -/
def fuseProgram : Graph :=
  Graph.empty.run
    [.create { Block.detached "hat" (.event .whenBroadcastReceived) with
        fields := Table.empty.insert "BROADCAST_OPTION" ⟨"go", none⟩
        next := some ⟨1, 0⟩
        topLevel := true },
      .create { Block.detached "fuse" (.custom "host_fuse") with parent := some ⟨0, 0⟩ },
      .create { Block.detached "loop" (.control .forever) with topLevel := true }]

/-- Both scripts have been started. -/
def fuseWorld : World Unit :=
  (((blank .standard ()).addSprite "Cat" fuseProgram).1.pushThread 0 ⟨0, 0⟩).1.pushThread 0 ⟨2, 0⟩
    |>.1

/-- The fault of the first script. -/
def fuseFault : FaultRecord := ⟨1, 0, "host_fuse", .failed "host_fuse" "blown"⟩

theorem eq_blow {name : String} {handler : Extension Unit} (h : fuse.get? name = some handler) :
    handler = blow := by
  by_cases hname : name = "host_fuse"
  · subst hname
    rw [fuse, Table.get?_insert_self] at h
    exact (Option.some.inj h).symm
  · rw [fuse, Table.get?_insert_of_ne _ hname] at h
    cases h

theorem orderly_fuse : fuse.Orderly := by
  intro name handler hget site args s
  rw [eq_blow hget]
  exact ⟨.single (.startHats s.world _ _ _), rfl⟩

theorem discreet_fuse : fuse.Discreet := by
  refine ⟨fun hget site args s => ?_, fun hget site args s => ?_⟩
  · rw [eq_blow hget]
    exact faults_startHats s.world _ _ _
  · rw [eq_blow hget]
    rfl

theorem reachable_fuseWorld : fuseWorld.Reachable := by
  have hactor : ((blank .standard ()).addSprite "Cat" fuseProgram).1.Reachable :=
    (Reachable.blank Settings.standard ()).deed (.tend rfl rfl rfl rfl)
  exact (hactor.deed (.pushThread _ 0 ⟨0, 0⟩)).deed (.pushThread _ 0 ⟨2, 0⟩)

/-- The first script asks itself to start over and fails in the same block. It is told to have
ended, its fault is recorded, and only the loop goes on. -/
theorem contained_of_tale_fuse : fuseWorld.Reachable ∧ fuse.Orderly ∧ fuse.Discreet ∧
    ∃ w', Tale fuseWorld [.block 1, .block 1, .fault fuseFault, .block 2] w' ∧
      w'.notes fuse 5 = [.block 2] ∧ w'.faults.records = [fuseFault] ∧
      fuseWorld.step fuse 5 = some (w', [1]) ∧
      [Note.block 1, .block 1, .fault fuseFault, .block 2, .block 2].Pairwise Note.Before := by
  have hrun : (fuseWorld.step fuse 5).map (fun r => (r.1.notes fuse 5, r.2)) =
      some ([.block 2], [1]) := by decide +kernel
  have hnotes : fuseWorld.notes fuse 5 = [.block 1, .block 1, .fault fuseFault, .block 2] := by
    decide +kernel
  obtain ⟨⟨w', ended⟩, hstep, he⟩ := Option.map_eq_some_iff.1 hrun
  obtain ⟨hlast, rfl⟩ := Prod.mk.inj he
  have htale : Tale fuseWorld (fuseWorld.notes fuse 5 ++ []) w' :=
    .step orderly_fuse hstep (.nil w')
  rw [List.append_nil] at htale
  have horder := (contained_of_tale reachable_fuseWorld htale orderly_fuse 5).1
  have hrecords := ((contained_of_tale reachable_fuseWorld (.nil fuseWorld) orderly_fuse 5).2.2
    w' [1] hstep).1 discreet_fuse
  rw [hnotes] at htale horder hrecords
  rw [hlast] at horder
  exact ⟨reachable_fuseWorld, orderly_fuse, discreet_fuse, w', htale, hlast, hrecords, hstep,
    horder⟩

end World

end Stagecraft
