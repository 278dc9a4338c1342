import Stagecraft.Proofs.Cast.Identity
import Stagecraft.Proofs.Cast.Programs
import Stagecraft.Proofs.Schedule.Bystanders

/-!
# Shows

A show is what a host makes of a blank world: in any order it edits and loads, starts and stops
scripts, posts events, and lets the threads take turns. What a host does to threads between two
steps is little: it starts some, stops some, or starts some over. So what holds of every thread that
is handled in these ways has only to be looked at in steps.

* `World.Gesture` : what a host does between steps;
* `World.gesture_of_apply` : its calls are gestures;
* `World.Deed.keeps_threads` : what a host keeps of threads, whatever it does;
* `World.Show` : a world in a show, with a condition on the worlds in which steps start;
* `World.Show.sound`, `World.Show.stage` : the book is right all the while, and nobody is on stage
  between steps;
* `World.show_of_play` : **whatever a host calls is a show**.
-/

namespace Stagecraft

open Thread

namespace World

variable {σ : Type} {w w' w'' : World σ}

/-! ### What leaves the threads alone -/

/-- The same threads and scheduler, and nobody else on stage. The actor that is the stage stays, or
one that was added takes its place. -/
structure Tended (w w' : World σ) : Prop where
  scheduler : w'.scheduler = w.scheduler
  nextThread : w'.nextThread = w.nextThread
  threads : w'.threads = w.threads
  spawned : w'.spawned = w.spawned
  current : w'.current = w.current
  next_le : w.nextActor ≤ w'.nextActor
  stage : w'.stage = w.stage ∨ ∃ id, w'.stage = some id ∧ id < w'.nextActor

namespace Tended

/-- Neither actors nor the stage are changed. -/
theorem still (hk : w'.scheduler = w.scheduler) (hn : w'.nextThread = w.nextThread)
    (ht : w'.threads = w.threads) (hs : w'.spawned = w.spawned) (hc : w'.current = w.current)
    (ha : w'.nextActor = w.nextActor) (hstage : w'.stage = w.stage) : Tended w w' :=
  ⟨hk, hn, ht, hs, hc, Nat.le_of_eq ha.symm, .inl hstage⟩

theorem refl (w : World σ) : Tended w w := .still rfl rfl rfl rfl rfl rfl rfl

theorem trans (h : Tended w w') (h' : Tended w' w'') : Tended w w'' := by
  refine ⟨h'.scheduler.trans h.scheduler, h'.nextThread.trans h.nextThread,
    h'.threads.trans h.threads, h'.spawned.trans h.spawned, h'.current.trans h.current,
    Nat.le_trans h.next_le h'.next_le, ?_⟩
  rcases h'.stage with hs' | hadded
  · rcases h.stage with hs | ⟨id, hs, hlt⟩
    · exact .inl (hs'.trans hs)
    · exact .inr ⟨id, hs'.trans hs, Nat.lt_of_lt_of_le hlt h'.next_le⟩
  · exact .inr hadded

end Tended

theorem tended_addStage (w : World σ) (name : String) (g : Graph) :
    Tended w (w.addStage name g).1 := by
  unfold addStage
  simp only
  split <;>
    exact ⟨rfl, rfl, rfl, rfl, rfl, Nat.le_succ _, .inr ⟨_, rfl, Nat.lt_succ_self _⟩⟩

theorem tended_loadActors (saved : List SavedActor) :
    ∀ w : World σ, Tended w (w.loadActors saved).1 := by
  induction saved with
  | nil => exact .refl
  | cons a rest ih =>
    intro w
    have hadd : Tended w (if a.isStage then w.addStage a.name (Graph.ofSaved a.blocks)
        else w.addSprite a.name (Graph.ofSaved a.blocks)).1 := by
      split
      · exact tended_addStage w _ _
      · exact ⟨rfl, rfl, rfl, rfl, rfl, Nat.le_succ _, .inl rfl⟩
    refine Tended.trans ?_ (ih _)
    exact hadd.trans (.still rfl rfl rfl rfl rfl rfl rfl)

theorem tended_load (w : World σ) (p : SavedProject) : Tended w (w.load p).1 := by
  unfold load
  split
  · exact tended_loadActors _ w
  · have hnote : ∀ n, Tended w (w.notify n) := fun _ =>
      .still rfl rfl rfl rfl rfl rfl rfl
    exact (hnote _).trans (tended_loadActors _ _)

theorem tended_postCloud (w : World σ) (name : String) (v : Value) :
    Tended w (w.postCloud name v) := by
  unfold postCloud
  split
  · exact .still rfl rfl rfl rfl rfl rfl rfl
  · split
    · split <;> exact .still rfl rfl rfl rfl rfl rfl rfl
    · exact .still rfl rfl rfl rfl rfl rfl rfl

theorem tended_answerQuestion (w : World σ) (text : String) :
    Tended w (w.answerQuestion text).1 := by
  unfold answerQuestion deliver
  split
  · exact .refl w
  · simp only
    split <;> exact .still rfl rfl rfl rfl rfl rfl rfl

/-! ### Gestures -/

/-- What a host does between steps. -/
inductive Gesture : World σ → World σ → Prop
  /-- Whatever leaves the threads alone: programs, variables, devices, prompts, results, settings,
  and actors that are added, cloned or deleted. -/
  | tend {w w' : World σ} : Tended w w' → Book.Entries w.book w'.book → Gesture w w'
  | pushThread (w : World σ) (actor : ActorId) (top : Handle) :
      Gesture w (w.pushThread actor top).1
  | toggleScript (w : World σ) (actor : ActorId) (top : Handle) :
      Gesture w (w.toggleScript actor top).1
  | stopActor (w : World σ) (actor : ActorId) (keep : Option ThreadId) :
      Gesture w (w.stopActor actor keep)
  | startHats (w : World σ) (hat : Opcode) (fields : List (String × String))
      (only : Option ActorId) : Gesture w (w.startHats hat fields only).1
  | createClone (w : World σ) (source : ActorId) : Gesture w (w.createClone source).1
  | deleteClone (w : World σ) (id : ActorId) : Gesture w (w.deleteClone id).1
  | stopAll (w : World σ) : Gesture w w.stopAll
  | greenFlag (w : World σ) : Gesture w w.greenFlag.1

/-- **Calls are gestures**, all but steps. -/
theorem gesture_of_apply {c : Call} (hstep : ∀ fuel, c ≠ .step fuel) (h : c.apply w = some w') :
    Gesture w w' := by
  have hbook := entries_apply h
  cases c with
  | addSprite name g =>
    cases h
    exact .tend ⟨rfl, rfl, rfl, rfl, rfl, Nat.le_succ _, .inl rfl⟩ hbook
  | addStage name g =>
    cases h
    exact .tend (tended_addStage w name g) hbook
  | load p =>
    cases h
    exact .tend (tended_load w p) hbook
  | loadStrict p =>
    cases h
    refine .tend ?_ hbook
    unfold loadStrict
    cases p.problems with
    | nil => exact tended_loadActors p.targets w
    | cons problem rest => exact .refl w
  | greenFlag =>
    obtain rfl := Option.some.inj h
    exact .greenFlag w
  | broadcast message | clickActor actor =>
    cases h
    exact .startHats w _ _ _
  | queueEvent | postKey | postMouse | postPause | postUser | clock =>
    cases h
    exact .tend (.still rfl rfl rfl rfl rfl rfl rfl) hbook
  | postCloud name v =>
    cases h
    exact .tend (tended_postCloud w name v) hbook
  | answer text =>
    cases h
    exact .tend (tended_answerQuestion w text) hbook
  | toggleScript actor top =>
    cases h
    exact .toggleScript w actor top
  | createClone source =>
    cases h
    exact .createClone w source
  | deleteClone id =>
    cases h
    exact .deleteClone w id
  | stopAll =>
    cases h
    exact .stopAll w
  | step fuel => exact absurd rfl (hstep fuel)

namespace Gesture

theorem deed (h : Gesture w w') : Deed w w' := by
  cases h with
  | tend h _ => exact .tend h.scheduler h.nextThread h.threads h.spawned
  | pushThread actor top => exact .pushThread w actor top
  | toggleScript actor top => exact .toggleScript w actor top
  | stopActor actor keep => exact .stopActor w actor keep
  | startHats hat fields only => exact .startHats w hat fields only
  | createClone source => exact .createClone w source
  | deleteClone id => exact .deleteClone w id
  | stopAll => exact .stopAll w
  | greenFlag => exact .greenFlag w

/-- What a host does, the book has entries for. -/
theorem entries (h : Gesture w w') : Book.Entries w.book w'.book := by
  have hsame : ∀ {w₁ : World σ}, w₁.book = w.book → Book.Entries w.book w₁.book :=
    fun he => he ▸ .refl
  cases h with
  | tend _ h => exact h
  | pushThread actor top => exact hsame (book_of_cast (w.sameCast_pushThread _ top))
  | toggleScript actor top => exact hsame (book_toggleScript w actor top)
  | stopActor actor keep => exact hsame (book_of_cast (sameCast_stopActor w actor keep))
  | startHats hat fields only => exact hsame (book_of_cast (sameCast_startHats w hat fields only))
  | createClone source => exact entries_createClone w source
  | deleteClone id => exact entries_deleteClone w id
  | stopAll => exact entries_stopAll w
  | greenFlag => exact entries_greenFlag w

/-- The actor that is the stage stays, or one that was added takes its place. -/
theorem stage_cases (h : Gesture w w') : w.nextActor ≤ w'.nextActor ∧
    (w'.stage = w.stage ∨ ∃ id, w'.stage = some id ∧ id < w'.nextActor) := by
  have hplay : ∀ {w₁ : World σ}, SamePlay w w₁ → w.nextActor ≤ w₁.nextActor ∧
      (w₁.stage = w.stage ∨ ∃ id, w₁.stage = some id ∧ id < w₁.nextActor) :=
    fun h => ⟨h.next_le, .inl h.stage⟩
  cases h with
  | tend h _ => exact ⟨h.next_le, h.stage⟩
  | pushThread actor top => exact hplay (.of_cast (w.sameCast_pushThread actor top))
  | toggleScript actor top => exact hplay (.of_cast (sameCast_toggleScript w actor top))
  | stopActor actor keep => exact hplay (.of_cast (sameCast_stopActor w actor keep))
  | startHats hat fields only => exact hplay (.of_cast (sameCast_startHats w hat fields only))
  | createClone source => exact hplay (samePlay_createClone w source)
  | deleteClone id => exact hplay (samePlay_deleteClone w id)
  | stopAll => exact hplay (samePlay_stopAll w)
  | greenFlag => exact hplay (samePlay_greenFlag w)

/-- Gestures put nobody on stage. -/
theorem stage (h : Gesture w w') (hw : w.current = none) : w'.current = none := by
  have hkeeps : ∀ {w₁ : World σ}, Keeps w w₁ → w₁.current = none := by
    intro w₁ hk
    have hstage := hk.stage
    rwa [hw, Option.map_none, Option.map_eq_none_iff] at hstage
  cases h with
  | tend h _ => exact h.current.trans hw
  | pushThread actor top => exact (current_pushThread w actor top).trans hw
  | toggleScript actor top => exact hkeeps (keeps_toggleScript hw actor top)
  | stopActor actor keep => exact hkeeps (.of_calms (calms_stopActor w actor keep))
  | startHats hat fields only => exact hkeeps (keeps_startHats w hat fields only)
  | createClone source => exact hkeeps (keeps_createClone w source)
  | deleteClone id => exact hkeeps (keeps_deleteClone w id)
  | stopAll => exact hkeeps (keeps_stopAll w)
  | greenFlag => exact hkeeps (keeps_greenFlag w)

end Gesture

/-- What holds of fresh threads and of those that are handled holds of all. -/
theorem Descends.keeps_threads {R : Thread → Prop} (h : Descends w w')
    (hstart : ∀ id actor top, R (.start id actor top))
    (hhandled : ∀ {t t'}, Handled t t' → R t → R t')
    (hw : ∀ t ∈ w.threads ++ w.spawned, R t) : ∀ t ∈ w'.threads ++ w'.spawned, R t := by
  intro t' ht'
  rcases h.origin t' ht' with ⟨-, actor, top, hb⟩ | ⟨t, ht, hh⟩
  · exact hhandled hb (hstart _ actor top)
  · exact hhandled hh (hw t ht)

/-- **What holds of fresh threads and of those that are handled holds after whatever a host
does**, if it says nothing about clicks. -/
theorem Deed.keeps_threads {R : Thread → Prop} (h : Deed w w')
    (hstart : ∀ id actor top, R (.start id actor top))
    (hhandled : ∀ {t t'}, Handled t t' → R t → R t')
    (hclicked : ∀ {t}, R t → R { t with clicked := true })
    (hw : ∀ t ∈ w.threads ++ w.spawned, R t) : ∀ t ∈ w'.threads ++ w'.spawned, R t := by
  have hkeep : ∀ {w₁ : World σ}, Descends w w₁ → ∀ t ∈ w₁.threads ++ w₁.spawned, R t :=
    fun hd => hd.keeps_threads hstart hhandled hw
  cases h with
  | tend _ _ ht hs => rwa [ht, hs]
  | pushThread actor top => exact hkeep (tends_pushThread w actor top).descends
  | toggleScript actor top =>
    unfold World.toggleScript
    split
    · exact hkeep ((tends_modifyRunning (fun t _ => t.handled_retire) w).trans
        (tends_dropFinished _)).descends
    · intro t ht
      simp only [mapThreads] at ht
      rw [← List.map_append] at ht
      obtain ⟨u, hu, rfl⟩ := List.mem_map.1 ht
      have hR := hkeep (tends_pushThread w actor top).descends u hu
      split
      · exact hclicked hR
      · exact hR
  | stopActor actor keep => exact hkeep (tends_stopActor w actor keep).descends
  | startHats hat fields only => exact hkeep (tends_startHats w hat fields only).descends
  | createClone source => exact hkeep (tends_createClone w source).descends
  | deleteClone id => exact hkeep (tends_deleteClone w id).descends
  | stopAll => exact hkeep (tends_stopAll w).descends
  | greenFlag => exact hkeep (tends_greenFlag w).descends

theorem Gesture.keeps_threads {R : Thread → Prop} (h : Gesture w w')
    (hstart : ∀ id actor top, R (.start id actor top))
    (hhandled : ∀ {t t'}, Handled t t' → R t → R t')
    (hclicked : ∀ {t}, R t → R { t with clicked := true })
    (hw : ∀ t ∈ w.threads ++ w.spawned, R t) : ∀ t ∈ w'.threads ++ w'.spawned, R t :=
  h.deed.keeps_threads hstart hhandled hclicked hw

/-! ### Shows -/

/-- When the book is right, actors carry their ids. -/
theorem identified_of_sound (h : w.book.Sound) : w.Identified :=
  fun e he => h.identified (e.1, e.2.role) (List.mem_map.2 ⟨e, he, rfl⟩)

/-- A world in a show, in which steps start from worlds of a kind. -/
inductive Show (P : World σ → Prop) : World σ → Prop
  | blank (settings : Settings) (host : σ) (dice : Nat → Nat := fun _ => 0) :
      Show P (blank settings host dice)
  | gesture {w w' : World σ} : Show P w → Gesture w w' → Show P w'
  | step {fuel : Nat} {w w' : World σ} {ended : List ThreadId} :
      Show P w → P w → w.step .empty fuel = some (w', ended) → Show P w'

namespace Show

variable {P : World σ → Prop}

theorem reachable (h : Show P w) : w.Reachable := by
  induction h with
  | blank settings host dice => exact .blank settings host dice
  | gesture _ hg ih => exact .deed ih hg.deed
  | step _ _ hs ih => exact .step orderly_empty ih hs

theorem sound (h : Show P w) : w.book.Sound := by
  induction h with
  | blank settings host dice =>
    refine ⟨?_, ?_, ?_, ?_, ?_, rfl, Nat.zero_le _, ?_⟩
    all_goals
      intro e he
      cases he
  | gesture _ hg ih => exact ih.entries hg.entries
  | step _ _ hs ih => exact ih.entries (entries_step hs)

/-- Actors carry their ids. -/
theorem identified (h : Show P w) : w.Identified := identified_of_sound h.sound

/-- No pass is running between steps. -/
theorem exists_scheduler (h : Show P w) : ∃ k, w.scheduler = some k := by
  have hidle := (settled_of_reachable h.reachable).idle
  rw [inPass, Option.isNone_eq_false_iff] at hidle
  exact Option.isSome_iff_exists.1 hidle

/-- Nobody is on stage between steps. -/
theorem stage (h : Show P w) : w.current = none := by
  induction h with
  | blank settings host dice => rfl
  | gesture _ hg ih => exact hg.stage ih
  | step _ _ hs ih =>
    -- all that is asked here is that whoever goes on stage leaves it
    have hseating : Seating (fun _ : World σ => True) fun _ _ => True :=
      ⟨fun _ _ _ => trivial, fun _ _ _ => trivial, fun _ _ _ _ => trivial,
        fun _ _ => ⟨trivial, fun _ _ _ => trivial⟩, fun _ _ => ⟨trivial, fun _ => trivial⟩,
        fun _ _ _ => trivial⟩
    exact (hseating.step ⟨trivial, ih⟩ hs).stage

/-- The stage is an actor that has been added. -/
theorem stage_lt (h : Show P w) {id : ActorId} (hs : w.stage = some id) : id < w.nextActor := by
  induction h generalizing id with
  | blank settings host dice => cases hs
  | @gesture w w' _ hg ih =>
    obtain ⟨hle, hstage⟩ := hg.stage_cases
    rcases hstage with he | ⟨k, he, hlt⟩
    · exact Nat.lt_of_lt_of_le (ih (he ▸ hs)) hle
    · cases he.symm.trans hs
      exact hlt
  | step _ _ he ih =>
    have hsame := samePlay_of_changed (changed_step he)
    exact Nat.lt_of_lt_of_le (ih (hsame.stage ▸ hs)) hsame.next_le

/-- **A call goes on with a show**, a step where one may start. -/
theorem apply (h : Show P w) {c : Call} (hstep : ∀ fuel, c = .step fuel → P w)
    (hc : c.apply w = some w') : Show P w' := by
  by_cases hs : ∃ fuel, c = .step fuel
  · obtain ⟨fuel, rfl⟩ := hs
    obtain ⟨⟨w₁, ended⟩, he, rfl⟩ := Option.map_eq_some_iff.1 hc
    exact h.step (hstep fuel rfl) he
  · exact h.gesture (gesture_of_apply (fun fuel he => hs ⟨fuel, he⟩) hc)

end Show

/-- **Whatever a host calls, one call after the other, is a show.** -/
theorem show_of_play {settings : Settings} {host : σ} {dice : Nat → Nat} {calls : List Call}
    (h : (blank settings host dice).play calls = some w) : Show (fun _ => True) w := by
  have hplay : ∀ (calls : List Call) {w₀ : World σ}, Show (fun _ => True) w₀ →
      w₀.play calls = some w → Show (fun _ => True) w := by
    intro calls
    induction calls with
    | nil =>
      intro w₀ hw h
      cases h
      exact hw
    | cons c rest ih =>
      intro w₀ hw h
      obtain ⟨w₁, hc, hrest⟩ := Option.bind_eq_some_iff.1 h
      exact ih (hw.apply (fun _ _ => trivial) hc) hrest
  exact hplay calls (.blank settings host dice) h

end World

end Stagecraft
