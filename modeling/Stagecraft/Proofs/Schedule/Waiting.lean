import Stagecraft.Proofs.Cast.Changes
import Stagecraft.Proofs.Schedule.Bystanders

/-!
# Between two turns

Between two turns of a thread lie turns of other threads, the ends of passes and what the host does.
All this leaves the thread as it was when its turn was over, or stops it, or starts it over.

What is written down of a step turn by turn can be followed from one world to the next: what is told
of every turn, and of the little that happens between turns, is told of the whole step.

* `Thread.Waited` : what becomes of a thread between its turns;
* `World.Meanwhile` : the threads of a later world that had no turn have waited;
* `World.upheld_meanwhile` : so have the other threads in a turn, whatever the extensions;
* `World.Annals`, `World.annals_step` : **what holds of turns holds of a step**;
* `World.Chronicle`, `World.chronicle_step` : the same where it holds of unfinished turns as well.
-/

namespace Stagecraft

namespace Thread

variable {t t' t'' : Thread}

/-! ### Waiting -/

/-- A thread as a pass finds it: one that sat out the last pass takes part again. -/
def due (t : Thread) : Thread :=
  if t.status = .yieldedTick then { t with status := .running } else t

/-- What becomes of a thread between its turns: in the turns of others, and when a pass begins. -/
def Waited (t t' : Thread) : Prop := Handled t t' ∨ Handled t.due t'

theorem id_due (t : Thread) : t.due.id = t.id := by
  unfold due
  split <;> rfl

theorem due_due (t : Thread) : t.due.due = t.due := by
  by_cases h : t.status = .yieldedTick <;> simp [due, h]

/-- A thread that was stopped or started over takes part anyway. -/
theorem Handled.due (h : Handled t t') : Handled t.due t'.due := by
  have hrun : t.status = .yieldedTick → t.due = { t with status := .running } := fun hs => if_pos hs
  have hsame : ¬t.status = .yieldedTick → t.due = t := fun hs => if_neg hs
  cases h with
  | kept => exact .kept
  | stopped =>
    by_cases hs : t.status = .yieldedTick
    · rw [hrun hs]
      exact .stopped
    · rw [hsame hs]
      exact .stopped
  | startedOver hd ht =>
    by_cases hs : t.status = .yieldedTick
    · rw [hrun hs]
      exact .startedOver rfl ht
    · rw [hsame hs]
      exact .startedOver hd ht

namespace Waited

theorem refl (t : Thread) : Waited t t := Or.inl .kept

theorem due (t : Thread) : Waited t t.due := Or.inr .kept

theorem id (h : Waited t t') : t'.id = t.id := by
  rcases h with h | h
  · exact h.id
  · exact h.id.trans t.id_due

theorem trans (h : Waited t t') (h' : Waited t' t'') : Waited t t'' := by
  rcases h with h | h
  · rcases h' with h' | h'
    · exact Or.inl (h.trans h')
    · exact Or.inr (h.due.trans h')
  · rcases h' with h' | h'
    · exact Or.inr (h.trans h')
    · exact Or.inr ((t.due_due ▸ h.due).trans h')

end Waited

end Thread

namespace World

open Thread

variable {σ : Type} {w w' w'' : World σ} {finished : List ThreadId}

/-! ### Between turns -/

/-- Every thread was started meanwhile or comes from one that waited. -/
structure Meanwhile (w w' : World σ) : Prop where
  next_le : w.nextThread ≤ w'.nextThread
  origin : ∀ t' ∈ w'.threads ++ w'.spawned,
    w.nextThread ≤ t'.id ∨ ∃ t ∈ w.threads ++ w.spawned, Waited t t'

namespace Meanwhile

theorem of_descends (h : Descends w w') : Meanwhile w w' :=
  ⟨h.next_le, fun t' ht' =>
    (h.origin t' ht').imp And.left fun ⟨t, ht, hh⟩ => ⟨t, ht, Or.inl hh⟩⟩

/-- Threads leave the lists or go from one to the other. -/
theorem of_subset (hn : w'.nextThread = w.nextThread)
    (h : w'.threads ++ w'.spawned ⊆ w.threads ++ w.spawned) : Meanwhile w w' :=
  ⟨Nat.le_of_eq hn.symm, fun t' ht' => Or.inr ⟨t', h ht', .refl t'⟩⟩

theorem refl (w : World σ) : Meanwhile w w := of_subset rfl (List.Subset.refl _)

theorem trans (h : Meanwhile w w') (h' : Meanwhile w' w'') : Meanwhile w w'' := by
  refine ⟨Nat.le_trans h.next_le h'.next_le, fun t'' ht'' => ?_⟩
  rcases h'.origin t'' ht'' with hn | ⟨t', ht', hw'⟩
  · exact Or.inl (Nat.le_trans h.next_le hn)
  · rcases h.origin t' ht' with hn | ⟨t, ht, hw⟩
    · exact Or.inl (hw'.id ▸ hn)
    · exact Or.inr ⟨t, ht, hw.trans hw'⟩

end Meanwhile

/-- What a host does lies between turns. -/
theorem Deed.meanwhile (h : Deed w w') : Meanwhile w w' := by
  cases h with
  | tend _ hn ht hs => exact .of_subset hn (by rw [ht, hs]; exact List.Subset.refl _)
  | pushThread actor top => exact .of_descends (tends_pushThread w actor top).descends
  | toggleScript actor top =>
    unfold World.toggleScript
    split
    · exact .of_descends (((tends_modifyRunning (fun t _ => t.handled_retire) w).trans
        (tends_dropFinished _)).descends)
    · -- the thread that was just started is marked as clicked, and no other has its id
      have hpush := (tends_pushThread w actor top).descends
      refine ⟨hpush.next_le, fun t' ht' => ?_⟩
      simp only [mapThreads, ← List.map_append] at ht'
      obtain ⟨t, ht, rfl⟩ := List.mem_map.1 ht'
      have hid : (w.pushThread actor top).2 = w.nextThread := by
        unfold World.pushThread
        simp only
        split <;> rfl
      split
      · rename_i heq
        exact Or.inl (Nat.le_of_eq (heq.trans hid).symm)
      · exact ((Meanwhile.of_descends hpush).origin t ht)
  | stopActor actor keep => exact .of_descends (tends_stopActor w actor keep).descends
  | startHats hat fields only => exact .of_descends (tends_startHats w hat fields only).descends
  | createClone source => exact .of_descends (tends_createClone w source).descends
  | deleteClone id => exact .of_descends (tends_deleteClone w id).descends
  | stopAll => exact .of_descends (tends_stopAll w).descends
  | greenFlag => exact .of_descends (tends_greenFlag w).descends

theorem Deeds.meanwhile (h : Deeds w w') : Meanwhile w w' := by
  induction h with
  | refl => exact .refl w
  | tail _ hd ih => exact ih.trans hd.meanwhile

/-- Whatever a turn does, it does to the threads only what lies between turns. -/
theorem upheld_meanwhile {ext : Extensions σ} (hext : ext.Orderly) : Upheld ext Meanwhile where
  trans := Meanwhile.trans
  tend hs hn ht hsp _ := .of_descends (Tends.of_eq hs hn ht hsp).descends
  effect h := .of_descends h.tends.descends
  extended hget site args s := (hext _ _ hget site args s).1.meanwhile

/-! ### The ends of turns, rounds and passes -/

/-- What a pass does between turns: time passes, threads that ended leave, threads that sat out the
last pass take part again, and those that were started join the list. -/
structure Aside (w w' : World σ) : Prop where
  next_eq : w'.nextThread = w.nextThread
  origin : ∀ t' ∈ w'.threads ++ w'.spawned, ∃ t ∈ w.threads ++ w.spawned, t' = t ∨ t' = t.due
  stays : ∀ t ∈ w.threads ++ w.spawned, t.isDone = false →
    t ∈ w'.threads ++ w'.spawned ∨ t.due ∈ w'.threads ++ w'.spawned
  current : w'.current = w.current
  cast : SameCast w w'
  faults : w'.faults = w.faults
  mail : SameMail w w'

namespace Aside

/-- Only threads that ended leave. -/
theorem of_subset (hn : w'.nextThread = w.nextThread) (hc : w'.current = w.current)
    (hcast : SameCast w w') (hf : w'.faults = w.faults) (hmail : SameMail w w')
    (h : w'.threads ++ w'.spawned ⊆ w.threads ++ w.spawned)
    (hstays : ∀ t ∈ w.threads ++ w.spawned, t.isDone = false → t ∈ w'.threads ++ w'.spawned) :
    Aside w w' :=
  ⟨hn, fun t' ht' => ⟨t', h ht', Or.inl rfl⟩, fun t ht hd => Or.inl (hstays t ht hd), hc, hcast,
    hf, hmail⟩

/-- The threads are left alone. -/
theorem of_eq (hn : w'.nextThread = w.nextThread) (hc : w'.current = w.current)
    (hcast : SameCast w w') (hf : w'.faults = w.faults) (hmail : SameMail w w')
    (h : w'.threads ++ w'.spawned = w.threads ++ w.spawned) : Aside w w' :=
  of_subset hn hc hcast hf hmail (h ▸ List.Subset.refl _) fun _ ht _ => h ▸ ht

theorem refl (w : World σ) : Aside w w :=
  of_eq rfl rfl (.refl w) rfl ⟨rfl, rfl, rfl, rfl⟩ rfl

theorem meanwhile (h : Aside w w') : Meanwhile w w' := by
  refine ⟨Nat.le_of_eq h.next_eq.symm, fun t' ht' => Or.inr ?_⟩
  obtain ⟨t, ht, rfl | rfl⟩ := h.origin t' ht'
  · exact ⟨_, ht, .refl _⟩
  · exact ⟨t, ht, .due t⟩

end Aside

theorem aside_elapse (w : World σ) : Aside w w.elapse :=
  .of_eq rfl rfl ⟨rfl, rfl, rfl, rfl, rfl, rfl, rfl⟩ rfl ⟨rfl, rfl, rfl, rfl⟩ rfl

theorem aside_begin (s : Scheduler) (w : World σ) :
    Aside w (Pass.begin s { w with scheduler := none }).world := by
  refine ⟨rfl, fun t' ht' => ?_, fun t ht _ => ?_, rfl, ⟨rfl, rfl, rfl, rfl, rfl, rfl, rfl⟩, rfl,
    ⟨rfl, rfl, rfl, rfl⟩⟩
  · rcases List.mem_append.1 ht' with ht' | ht'
    · obtain ⟨t, ht, rfl⟩ := List.mem_map.1 ht'
      exact ⟨t, List.mem_append_left _ ht, Or.inr rfl⟩
    · exact ⟨t', List.mem_append_right _ ht', Or.inl rfl⟩
  · rcases List.mem_append.1 ht with ht | ht
    · exact Or.inr (List.mem_append_left _ (List.mem_map.2 ⟨t, ht, rfl⟩))
    · exact Or.inl (List.mem_append_right _ ht)

theorem aside_collect (p : Pass σ) (finished : List ThreadId) :
    Aside p.world (p.collect finished).1.world := by
  refine .of_subset rfl rfl ⟨rfl, rfl, rfl, rfl, rfl, rfl, rfl⟩ rfl ⟨rfl, rfl, rfl, rfl⟩
    (List.filter_sublist.append (List.Sublist.refl _)).subset fun t ht hd => ?_
  rcases List.mem_append.1 ht with ht | ht
  · exact List.mem_append_left _ (List.mem_filter.2 ⟨ht, by simp [hd]⟩)
  · exact List.mem_append_right _ ht

theorem aside_afterPass (p : Pass σ) : Aside p.world (afterPass p) := by
  refine .of_subset rfl rfl ⟨rfl, rfl, rfl, rfl, rfl, rfl, rfl⟩ rfl ⟨rfl, rfl, rfl, rfl⟩ ?_ ?_
  all_goals simp only [afterPass, Pass.finish, List.append_nil]
  · exact ((List.Sublist.refl _).append List.filter_sublist).subset
  · intro t ht hd
    rcases List.mem_append.1 ht with ht | ht
    · exact List.mem_append_left _ ht
    · exact List.mem_append_right _ (List.mem_filter.2 ⟨ht, by simp [hd]⟩)

/-! ### What is told of a step -/

/-- Something that is told of two worlds and of what is written down between them, and something
that is told of a world and of what is written down from there on, up to a turn that may not come
to its end. Both are told of turns in a pass that began in a given world, and of what lies between
them. -/
structure Annals {β : Type} (ext : Extensions σ) (fuel : Nat) (log : Pass σ → Nat → List β)
    (start : World σ) (C : World σ → List β → World σ → Prop) (H : World σ → List β → Prop) :
    Prop where
  append : ∀ {w w' w'' : World σ} {l l' : List β}, C w l w' → C w' l' w'' → C w (l ++ l') w''
  stop : ∀ {w w' : World σ} {l l' : List β}, C w l w' → H w' l' → H w (l ++ l')
  ends : ∀ {w w' : World σ} {l : List β}, C w l w' → H w l
  aside : ∀ {w w' : World σ}, Aside w w' → C w [] w'
  visit : ∀ {p p' : Pass σ} {i : Nat} {finished : List ThreadId}, Amid start finished p.world →
    Pass.visitAt ext fuel p i = some p' → C p.world (log p i) p'.world
  halt : ∀ {p : Pass σ} {i : Nat} {finished : List ThreadId}, Amid start finished p.world →
    Pass.visitAt ext fuel p i = none → H p.world (log p i)

namespace Annals

variable {β : Type} {ext : Extensions σ} {fuel : Nat} {log : Pass σ → Nat → List β}
  {C : World σ → List β → World σ → Prop} {H : World σ → List β → Prop}

/-- Between turns nothing is written down. -/
theorem before {l : List β} {w₁ : World σ} (hC : Annals ext fuel log w C H) (h : C w' l w₁)
    (ha : Aside w₁ w'') : C w' l w'' := by
  have happ := hC.append h (hC.aside ha)
  rwa [List.append_nil] at happ

/-- They are told of a round, also of one that does not come to its end. -/
theorem visitAll (hC : Annals ext fuel log w C H) (hext : ext.Orderly) (hw : w.Settled)
    (places : List Nat) : ∀ {p : Pass σ}, Amid w finished p.world →
      H p.world (Pass.visitAllJournal log ext fuel places p) ∧
        ∀ p' exhausted, Pass.visitAll ext fuel places p = some (p', exhausted) →
          C p.world (Pass.visitAllJournal log ext fuel places p) p'.world := by
  induction places with
  | nil =>
    intro p _
    refine ⟨hC.ends (hC.aside (.refl _)), fun p' exhausted h => ?_⟩
    cases h
    exact hC.aside (.refl _)
  | cons i rest ih =>
    intro p ha
    rw [Pass.visitAllJournal]
    simp only [Pass.visitAll]
    cases hv : Pass.visitAt ext fuel p i with
    | none =>
      refine ⟨?_, fun p' exhausted h => by cases h⟩
      rw [List.append_nil]
      exact hC.halt ha hv
    | some p₁ =>
      have hvisit := hC.before (hC.visit ha hv) (aside_elapse p₁.world)
      have ha₁ : Amid w finished p₁.world.elapse := (Pass.amid_visitAt hext hw ha hv).elapse
      simp only
      split
      · rw [List.append_nil]
        refine ⟨hC.ends hvisit, fun p' exhausted h => ?_⟩
        cases h
        exact hvisit
      · obtain ⟨hrest, hend⟩ := ih (p := ⟨p₁.scheduler, p₁.world.elapse⟩) ha₁
        exact ⟨hC.stop hvisit hrest, fun p' exhausted h => hC.append hvisit (hend p' exhausted h)⟩

/-- They are told of a pass, by induction on its rounds. -/
theorem rounds (hC : Annals ext fuel log w C H) (hext : ext.Orderly) (hw : w.Settled)
    (n : Nat) : ∀ (first : Nat) {p : Pass σ} {finished : List ThreadId}, Amid w finished p.world →
      H p.world (Pass.roundsJournal log ext fuel n first p finished) ∧
        ∀ p' finished', Pass.rounds ext fuel n first p finished = some (p', finished') →
          C p.world (Pass.roundsJournal log ext fuel n first p finished) p'.world := by
  induction n with
  | zero =>
    exact fun _ {p _} _ => ⟨hC.ends (hC.aside (.refl p.world)), fun p' finished' h => by cases h⟩
  | succ n ih =>
    intro first p finished ha
    obtain ⟨hround, hend⟩ := hC.visitAll hext hw (Pass.order first p.world.threads.length)
      (p := ⟨Pass.countRound p.scheduler, p.world⟩) ha
    rw [Pass.roundsJournal, Pass.rounds]
    simp only
    cases hv : Pass.visitAll ext fuel (Pass.order first p.world.threads.length)
        ⟨Pass.countRound p.scheduler, p.world⟩ with
    | none =>
      refine ⟨?_, fun p' finished' h => by cases h⟩
      rw [List.append_nil]
      exact hround
    | some r =>
      obtain ⟨p₁, exhausted⟩ := r
      have hc := Pass.amid_collect hw (Pass.amid_visitAll hext hw _ ha hv)
      have hround' := hC.before (hend p₁ exhausted hv) (aside_collect p₁ finished)
      simp only
      split
      · obtain ⟨hrest, hend'⟩ := ih 0 (p := ⟨Pass.noteBudget _ exhausted, _⟩) hc
        exact ⟨hC.stop hround' hrest,
          fun p' finished' h => hC.append hround' (hend' p' finished' h)⟩
      · rw [List.append_nil]
        refine ⟨hC.ends hround', fun p' finished' h => ?_⟩
        cases h
        exact hround'

end Annals

/-- **They are told of a step up to the end of its rounds**, also of one that does not come to
that. -/
theorem annals_step {β : Type} {ext : Extensions σ} {fuel : Nat} {log : Pass σ → Nat → List β}
    {C : World σ → List β → World σ → Prop} {H : World σ → List β → Prop}
    (hC : Annals ext fuel log w C H) (hext : ext.Orderly) (hw : w.Settled) :
    H w (w.journal log ext fuel) ∧ ∀ p ended, w.roundsOfStep ext fuel = some (p, ended) →
      C w (w.journal log ext fuel) p.world := by
  obtain ⟨s, hs⟩ := Option.isSome_iff_exists.1 (Option.isNone_eq_false_iff.1 hw.idle)
  have hbegin := hC.aside (aside_begin (s.configure w.settings) w)
  obtain ⟨hrounds, hend⟩ := hC.rounds hext hw fuel
    (Pass.firstPlace (s.configure w.settings) w.threads)
    (Pass.amid_begin hw (s.configure w.settings))
  unfold journal roundsOfStep
  rw [hs]
  exact ⟨hC.stop hbegin hrounds, fun p ended h => hC.append hbegin (hend p ended h)⟩

/-- Something is told of what is written down while something else holds, which turns and what lies
between them leave alone. -/
theorem annals_lasting {β : Type} {ext : Extensions σ} {fuel : Nat} {log : Pass σ → Nat → List β}
    {I : World σ → Prop} {Q : β → Prop} (haside : ∀ {w w' : World σ}, Aside w w' → I w → I w')
    (hvisit : ∀ {p p' : Pass σ} {i : Nat}, Pass.visitAt ext fuel p i = some p' → I p.world →
      I p'.world)
    (hQ : ∀ {p : Pass σ} {i : Nat} {finished : List ThreadId}, Amid w finished p.world →
      I p.world → ∀ b ∈ log p i, Q b) :
    Annals ext fuel log w (fun w l w' => I w → I w' ∧ ∀ b ∈ l, Q b)
      (fun w l => I w → ∀ b ∈ l, Q b) where
  append h h' hw := by
    obtain ⟨hw', hl⟩ := h hw
    obtain ⟨hw'', hl'⟩ := h' hw'
    exact ⟨hw'', fun b hb => (List.mem_append.1 hb).elim (hl b) (hl' b)⟩
  stop h h' hw := by
    obtain ⟨hw', hl⟩ := h hw
    exact fun b hb => (List.mem_append.1 hb).elim (hl b) (h' hw' b)
  ends h hw := (h hw).2
  aside ha hw := ⟨haside ha hw, fun _ hb => by cases hb⟩
  visit ha hv hw := ⟨hvisit hv hw, hQ ha hw⟩
  halt ha _ hw := hQ ha hw

/-- Something that is told of two worlds and of what is written down between them. It is told of
turns in a pass that began in a given world, of a turn that does not come to its end as well, and of
what lies between the turns. -/
structure Chronicle {β : Type} (ext : Extensions σ) (fuel : Nat) (log : Pass σ → Nat → List β)
    (start : World σ) (C : World σ → List β → World σ → Prop) : Prop where
  append : ∀ {w w' w'' : World σ} {l l' : List β}, C w l w' → C w' l' w'' → C w (l ++ l') w''
  aside : ∀ {w w' : World σ}, Aside w w' → C w [] w'
  visit : ∀ {p p' : Pass σ} {i : Nat} {finished : List ThreadId}, Amid start finished p.world →
    Pass.visitAt ext fuel p i = some p' → C p.world (log p i) p'.world
  halt : ∀ {p : Pass σ} {i : Nat} {finished : List ThreadId}, Amid start finished p.world →
    Pass.visitAt ext fuel p i = none → C p.world (log p i) p.world

/-- What is told up to some world is told of what is written down. -/
theorem Chronicle.annals {β : Type} {ext : Extensions σ} {fuel : Nat}
    {log : Pass σ → Nat → List β} {C : World σ → List β → World σ → Prop}
    (hC : Chronicle ext fuel log w C) : Annals ext fuel log w C fun w l => ∃ w', C w l w' where
  append := hC.append
  stop h h' := h'.imp fun _ => hC.append h
  ends h := ⟨_, h⟩
  aside := hC.aside
  visit := hC.visit
  halt ha hv := ⟨_, hC.halt ha hv⟩

/-- **It is told of a step up to the end of its rounds**, also of one that does not come to that. -/
theorem chronicle_step {β : Type} {ext : Extensions σ} {fuel : Nat} {log : Pass σ → Nat → List β}
    {C : World σ → List β → World σ → Prop} (hC : Chronicle ext fuel log w C)
    (hext : ext.Orderly) (hw : w.Settled) :
    ∃ w₁, C w (w.journal log ext fuel) w₁ ∧
      ∀ p ended, w.roundsOfStep ext fuel = some (p, ended) → w₁ = p.world := by
  obtain ⟨⟨w₁, h⟩, hend⟩ := annals_step hC.annals hext hw
  cases hr : w.roundsOfStep ext fuel with
  | none => exact ⟨w₁, h, fun p ended hp => by cases hp⟩
  | some r =>
    refine ⟨r.1.world, hend r.1 r.2 hr, fun p ended hp => ?_⟩
    cases hp
    rfl

end World

end Stagecraft
