import Stagecraft.Proofs.Schedule.Waiting

/-!
# A thread goes on where it stopped

Between two turns of a thread lie turns of other threads, the ends of passes and what the host does.
All this leaves the thread as it was when its turn was over, or stops it, or starts it over. So the
stack, the status and what is pending are the thread's own: they change in its turns only.

* `Visit` : a turn, with the worlds before and after it;
* `World.Linked` : turns one after the other, and what lies between them;
* `World.resumed_of_spans` : **in a run a thread begins a turn as it ended the one before**, unless
  it was stopped or started over.
-/

namespace Stagecraft

/-- A turn: the worlds before and after it, and the place of its thread in the list. -/
structure Visit (σ : Type) where
  /-- The world before the turn. -/
  before : World σ
  /-- The place of the thread. -/
  place : Nat
  /-- The world after the turn. -/
  after : World σ

/-- The thread whose turn it is. -/
def Visit.thread? {σ : Type} (v : Visit σ) : Option ThreadId :=
  v.before.threads[v.place]?.map (·.id)

/-! ### Turns one after the other -/

/-- What a turn does to the lists, and which ids there are in them. -/
structure Visit.Sound {σ : Type} (v : Visit σ) : Prop where
  next_le : v.before.nextThread ≤ v.after.nextThread
  length : v.after.threads.length = v.before.threads.length
  others : ∀ j t, j ≠ v.place → v.before.threads[j]? = some t →
    ∃ t', v.after.threads[j]? = some t' ∧ Thread.Handled t t'
  spawned : World.Attended v.before v.before.spawned v.after.spawned
  id : v.after.threads[v.place]?.map (·.id) = v.thread?
  nodup : ((v.after.threads ++ v.after.spawned).map (·.id)).Nodup
  lt : ∀ t ∈ v.after.threads ++ v.after.spawned, t.id < v.after.nextThread

namespace World

open Thread

variable {σ : Type} {w w' w'' : World σ} {finished : List ThreadId}

/-- Turns that follow each other, from one world to another. -/
inductive Linked : World σ → List (Visit σ) → World σ → Prop
  | nil {w w' : World σ} : Meanwhile w w' → Linked w [] w'
  | cons {w w' : World σ} {v : Visit σ} {rest : List (Visit σ)} :
      Meanwhile w v.before → v.Sound → Linked v.after rest w' → Linked w (v :: rest) w'

namespace Linked

variable {visits visits' : List (Visit σ)}

theorem after (h : Meanwhile w w') (h' : Linked w' visits w'') : Linked w visits w'' := by
  cases h' with
  | nil hm => exact .nil (h.trans hm)
  | cons hm hv hrest => exact .cons (h.trans hm) hv hrest

theorem append (h : Linked w visits w') (h' : Linked w' visits' w'') :
    Linked w (visits ++ visits') w'' := by
  induction h with
  | nil hm => exact h'.after hm
  | cons hm hv _ ih => exact .cons hm hv (ih h')

theorem before (h : Linked w visits w') (h' : Meanwhile w' w'') : Linked w visits w'' := by
  have happ := h.append (.nil h')
  rwa [List.append_nil] at happ

theorem sound (h : Linked w visits w') : ∀ v ∈ visits, v.Sound := by
  induction h with
  | nil _ => exact fun _ hv => by cases hv
  | cons _ hsound _ ih =>
    intro v hv
    rcases List.mem_cons.1 hv with rfl | hv
    · exact hsound
    · exact ih v hv

/-- What is left of a run of turns once some of them are over. -/
theorem drop (h : Linked w (visits ++ visits') w') : ∃ w₁, Linked w₁ visits' w' := by
  induction visits generalizing w with
  | nil => exact ⟨w, h⟩
  | cons v rest ih =>
    cases h with
    | cons _ _ hrest => exact ih hrest

end Linked

/-- The turns up to one of them. -/
theorem Linked.upto {visits rest : List (Visit σ)} {v : Visit σ}
    (h : Linked w (visits ++ v :: rest) w') : Linked w visits v.before := by
  induction visits generalizing w with
  | nil =>
    cases h with
    | cons hm _ _ => exact .nil hm
  | cons u visits ih =>
    cases h with
    | cons hm hu hrest => exact .cons hm hu (ih hrest)

/-- In a turn of another thread a thread is handled. -/
theorem origin_of_sound {v : Visit σ} (hv : v.Sound) {t' : Thread}
    (ht' : t' ∈ v.after.threads ++ v.after.spawned) (hid : v.thread? ≠ some t'.id) :
    v.before.nextThread ≤ t'.id ∨
      ∃ t ∈ v.before.threads ++ v.before.spawned, Handled t t' := by
  rcases List.mem_append.1 ht' with ht' | ht'
  · obtain ⟨j, hj, hget⟩ := List.mem_iff_getElem.1 ht'
    have hget' : v.after.threads[j]? = some t' := by rw [List.getElem?_eq_getElem hj, hget]
    by_cases hplace : j = v.place
    · have hv := hv.id
      rw [← hplace, hget'] at hv
      exact absurd hv.symm hid
    · have hlt : j < v.before.threads.length := hv.length ▸ hj
      obtain ⟨t'', ht'', hh⟩ := hv.others j _ hplace (List.getElem?_eq_getElem hlt)
      cases hget'.symm.trans ht''
      exact Or.inr ⟨_, List.mem_append_left _ (List.getElem_mem hlt), hh⟩
  · obtain ⟨old, new, hspawned, hold, hnew⟩ := hv.spawned
    rw [hspawned] at ht'
    rcases List.mem_append.1 ht' with ht' | ht'
    · obtain ⟨t, ht, hh⟩ := exists_of_forall₂ hold ht'
      exact Or.inr ⟨t, List.mem_append_right _ ht, hh⟩
    · exact Or.inl (hnew t' ht').1

/-- A thread that has no turn waits, by induction on the turns of the others. -/
theorem Linked.waited {visits : List (Visit σ)} (h : Linked w visits w') {t' : Thread}
    (hnone : ∀ v ∈ visits, v.thread? ≠ some t'.id) (hlt : t'.id < w.nextThread)
    (ht' : t' ∈ w'.threads ++ w'.spawned) : ∃ t ∈ w.threads ++ w.spawned, Waited t t' := by
  have hold : ∀ {w w₁ : World σ} {t₁ : Thread}, Meanwhile w w₁ → t₁.id < w.nextThread →
      t₁ ∈ w₁.threads ++ w₁.spawned → ∃ t ∈ w.threads ++ w.spawned, Waited t t₁ :=
    fun hm hlt ht₁ => (hm.origin _ ht₁).resolve_left (Nat.not_le.2 hlt)
  induction h with
  | nil hm => exact hold hm hlt ht'
  | @cons w w' v rest hm hv _ ih =>
    have hbefore := Nat.lt_of_lt_of_le hlt hm.next_le
    obtain ⟨t₁, ht₁, hw₁⟩ := ih (fun u hu => hnone u (List.mem_cons_of_mem _ hu))
      (Nat.lt_of_lt_of_le hbefore hv.next_le) ht'
    have hvisit := hnone v List.mem_cons_self
    rw [hw₁.id] at hlt hbefore hvisit
    rcases origin_of_sound hv ht₁ hvisit with hnew | ⟨t₀, ht₀, hh⟩
    · exact absurd hnew (Nat.not_le.2 hbefore)
    · obtain ⟨t, ht, hw⟩ := hold hm (hh.id ▸ hlt) ht₀
      exact ⟨t, ht, (hw.trans (Or.inl hh)).trans hw₁⟩

/-- Between two turns of a thread that has none in between, it waits. -/
theorem Linked.resumed {visits between rest : List (Visit σ)} {u v : Visit σ} {id : ThreadId}
    (h : Linked w (visits ++ u :: (between ++ v :: rest)) w') (hu : u.thread? = some id)
    (hv : v.thread? = some id) (hnone : ∀ x ∈ between, x.thread? ≠ some id) :
    ∃ t t', u.after.threads[u.place]? = some t ∧ v.before.threads[v.place]? = some t' ∧
      Waited t t' := by
  obtain ⟨w₁, h₁⟩ := h.drop
  cases h₁ with
  | cons _ hsound hrest =>
    obtain ⟨t, ht, htid⟩ := Option.map_eq_some_iff.1 (hsound.id.trans hu)
    obtain ⟨t', ht', rfl⟩ := Option.map_eq_some_iff.1 hv
    have hmem := List.mem_append_left u.after.spawned (List.mem_of_getElem? ht)
    obtain ⟨t₁, ht₁, hw⟩ := hrest.upto.waited hnone (htid ▸ hsound.lt t hmem)
      (List.mem_append_left _ (List.mem_of_getElem? ht'))
    -- ids are unique once the turn is over
    have hsame : t₁ = t :=
      List.inj_on_of_nodup_map hsound.nodup ht₁ hmem (hw.id.symm.trans htid.symm)
    exact ⟨t, t', ht, ht', hsame ▸ hw⟩

end World

namespace Pass

open World Thread

variable {σ : Type} {w : World σ} {finished : List ThreadId}

/-! ### The turns of a pass -/

/-- The turn at a place, if it comes to an end. -/
def visitLog (fuel : Nat) (p : Pass σ) (i : Nat) : List (Visit σ) :=
  ((visitAt .empty fuel p i).map fun p' => ⟨p.world, i, p'.world⟩).toList

theorem sound_visitAt (hw : w.Settled) {fuel i : Nat} {p p' : Pass σ}
    (ha : Amid w finished p.world) (h : visitAt .empty fuel p i = some p') :
    Visit.Sound ⟨p.world, i, p'.world⟩ := by
  have ha' := amid_visitAt orderly_empty hw ha h
  obtain ⟨hnext, hlength, hothers, hspawned⟩ := handled_visitAt ha.inPass h
  refine ⟨hnext, hlength, hothers, hspawned, ?_, ha'.nodup hw, ha'.lt hw⟩
  rw [Visit.thread?, ← List.getElem?_map, ← List.getElem?_map, ha'.threads, ha.threads]

/-- The turns of a step follow each other. -/
theorem chronicle_linked (hw : w.Settled) (fuel : Nat) :
    Chronicle .empty fuel (visitLog fuel) w Linked where
  append := Linked.append
  aside ha := .nil ha.meanwhile
  visit ha hv := by
    rw [visitLog, hv]
    exact .cons (.refl _) (sound_visitAt hw ha hv) (.nil (.refl _))
  halt _ hv := by
    rw [visitLog, hv]
    exact .nil (.refl _)

end Pass

namespace World

open Thread

variable {σ : Type} {w w' : World σ} {fuel : Nat} {ended : List ThreadId}

/-! ### The turns of a run -/

/-- The turns of a step. -/
def visits (fuel : Nat) (w : World σ) : List (Visit σ) :=
  w.journal (Pass.visitLog fuel) .empty fuel

/-- The turns of a step follow each other, also when it does not come to its end. -/
theorem linked_step (hw : w.Settled) (fuel : Nat) : ∃ w₁, Linked w (w.visits fuel) w₁ ∧
    ∀ w' ended, w.step .empty fuel = some (w', ended) → Meanwhile w₁ w' := by
  obtain ⟨w₁, hlinked, hend⟩ :=
    chronicle_step (Pass.chronicle_linked hw fuel) orderly_empty hw
  refine ⟨w₁, hlinked, fun w' ended hstep => ?_⟩
  obtain ⟨p, hp, rfl⟩ := exists_rounds_of_step hw.idle hstep
  cases hend p ended hp
  have hevents : Meanwhile (afterPass p) (afterPass p).dispatchEvents :=
    .of_descends (tends_dispatchEvents _).descends
  exact ((aside_afterPass p).meanwhile.trans hevents).trans
    (.of_subset rfl (List.Subset.refl _))

/-- A run of the world with built-in primitives: what a host does and the steps in between, with the
turns of all steps. -/
inductive Spans : World σ → List (Visit σ) → World σ → Prop
  | nil (w : World σ) : Spans w [] w
  | deed {w w₁ w' : World σ} {rest : List (Visit σ)} :
      Deed w w₁ → Spans w₁ rest w' → Spans w rest w'
  | step {fuel : Nat} {w w₁ w' : World σ} {ended : List ThreadId} {rest : List (Visit σ)} :
      w.step .empty fuel = some (w₁, ended) → Spans w₁ rest w' → Spans w (w.visits fuel ++ rest) w'

theorem Spans.linked {run : List (Visit σ)} (h : Spans w run w') (hw : w.Settled) :
    Linked w run w' ∧ w'.Settled := by
  induction h with
  | nil w => exact ⟨.nil (.refl w), hw⟩
  | deed hd _ ih =>
    obtain ⟨hlinked, hset⟩ := ih (hd.conserves.follows hw).settled
    exact ⟨hlinked.after hd.meanwhile, hset⟩
  | @step fuel w w₁ w' ended rest hstep _ ih =>
    obtain ⟨p, hp, hg⟩ := grown_of_step hw hstep
    obtain ⟨hlinked, hset⟩ :=
      ih ((settled_afterPass hw (amid_roundsOfStep orderly_empty hw hp)).of_grown hg)
    obtain ⟨w₂, hturns, hend⟩ := linked_step hw fuel
    exact ⟨(hturns.before (hend _ _ hstep)).append hlinked, hset⟩

/-- **A thread goes on where it stopped.** In a run, also in a step that has not come to its end, a
turn does nothing to a thread other than its own but stop it or start it over; new threads come
after those that were started before. So a thread begins a turn as it was when its last turn was
over, with the same stack, status and pending result, unless it was stopped or started over; one
that sat out a pass takes part again. -/
theorem resumed_of_spans {run : List (Visit σ)} (hw : w.Reachable) (h : Spans w run w')
    (fuel : Nat) :
    (∀ v ∈ run ++ w'.visits fuel,
      v.after.threads.length = v.before.threads.length ∧
      (∀ j t, j ≠ v.place → v.before.threads[j]? = some t →
        ∃ t', v.after.threads[j]? = some t' ∧ Handled t t') ∧
      ∃ old new, v.after.spawned = old ++ new ∧ List.Forall₂ Handled v.before.spawned old ∧
        ∀ t ∈ new, Begun v.before t) ∧
    ∀ (front between rest : List (Visit σ)) (u v : Visit σ) (id : ThreadId),
      run ++ w'.visits fuel = front ++ u :: (between ++ v :: rest) →
      u.thread? = some id → v.thread? = some id → (∀ x ∈ between, x.thread? ≠ some id) →
      ∃ t t', u.after.threads[u.place]? = some t ∧ v.before.threads[v.place]? = some t' ∧
        Waited t t' := by
  obtain ⟨hlinked, hset⟩ := h.linked (settled_of_reachable hw)
  obtain ⟨w₁, hlast, -⟩ := linked_step hset fuel
  have hall := hlinked.append hlast
  refine ⟨fun v hv => ?_, fun front between rest u v id hsplit hu hv hnone => ?_⟩
  · have hsound := hall.sound v hv
    exact ⟨hsound.length, hsound.others, hsound.spawned⟩
  · rw [hsplit] at hall
    exact hall.resumed hu hv hnone

/-- A script that loops once it has received a message, and one that sends the message. -/
def summons : Graph :=
  Graph.empty.run
    [.create { Block.detached "hat" (.event .whenBroadcastReceived) with
        fields := Table.empty.insert "BROADCAST_OPTION" ⟨"go", none⟩
        next := some ⟨1, 0⟩
        topLevel := true },
      .create { Block.detached "loop" (.control .forever) with parent := some ⟨0, 0⟩ },
      .create { Block.detached "send" (.event .broadcast) with
        inputs := Table.empty.insert "BROADCAST_INPUT" (.literal (.text "go"))
        topLevel := true }]

/-- Both scripts have been started. -/
def summonsWorld : World Unit :=
  (((blank .standard ()).addSprite "Cat" summons).1.pushThread 0 ⟨0, 0⟩).1.pushThread 0 ⟨2, 0⟩ |>.1

theorem reachable_summonsWorld : summonsWorld.Reachable := by
  have hactor : ((blank .standard ()).addSprite "Cat" summons).1.Reachable :=
    (Reachable.blank Settings.standard ()).deed (.tend rfl rfl rfl rfl)
  exact (hactor.deed (.pushThread _ 0 ⟨0, 0⟩)).deed (.pushThread _ 0 ⟨2, 0⟩)

/-- The first thread stands at its loop when its turn is over. The second one sends the message, so
the first one begins its next turn at its hat. -/
theorem resumed_of_spans_summons : summonsWorld.Reachable ∧ ∃ run w',
    Spans summonsWorld run w' ∧
      (run ++ w'.visits 5).map Visit.thread? = [some 1, some 2, some 1] ∧
      ∃ t t' : Thread, Waited t t' ∧ t.stack.map (·.block) = [⟨1, 0⟩] ∧
        t'.stack.map (·.block) = [⟨0, 0⟩] := by
  have hstep : (summonsWorld.step .empty 5).map (fun r =>
      let run := summonsWorld.visits 5 ++ r.1.visits 5
      (run.map Visit.thread?,
        run.map fun v => v.before.threads[v.place]?.map fun t => t.stack.map (·.block),
        run.map fun v => v.after.threads[v.place]?.map fun t => t.stack.map (·.block))) =
      some ([some 1, some 2, some 1],
        [some [⟨0, 0⟩], some [⟨2, 0⟩], some [⟨0, 0⟩]],
        [some [⟨1, 0⟩], some [], some [⟨1, 0⟩]]) := by decide +kernel
  obtain ⟨⟨w', ended⟩, hw', hrun⟩ := Option.map_eq_some_iff.1 hstep
  obtain ⟨hids, hstacks⟩ := Prod.mk.inj hrun
  obtain ⟨hbefore, hafter⟩ := Prod.mk.inj hstacks
  have hspans : Spans summonsWorld (summonsWorld.visits 5 ++ []) w' := .step hw' (.nil w')
  rw [List.append_nil] at hspans
  refine ⟨reachable_summonsWorld, _, w', hspans, hids, ?_⟩
  have hlength := congrArg List.length hids
  rw [List.length_map] at hlength
  obtain ⟨u, x, v, hsplit⟩ := List.length_eq_three.1 hlength
  rw [hsplit] at hids hbefore hafter
  simp only [List.map_cons, List.map_nil, List.cons.injEq, and_true] at hids hbefore hafter
  obtain ⟨t, t', ht, ht', hwaited⟩ := (resumed_of_spans reachable_summonsWorld hspans 5).2
    [] [x] [] u v 1 hsplit hids.1 hids.2.2 (by simp [hids.2.1])
  rw [ht'] at hbefore
  rw [ht] at hafter
  exact ⟨t, t', hwaited, Option.some.inj hafter.1, Option.some.inj hbefore.2.2⟩

end World

end Stagecraft
