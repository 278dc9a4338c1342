import Stagecraft.Proofs.Cast.Show
import Stagecraft.Proofs.Schedule.Conservation

/-!
# Tours

A tour is a show in which the host brings primitives of its own along. They may do to a world
whatever they like, as long as actors come and go as they do elsewhere: they are added, cloned and
deleted. Then the book of actors is right in each world of a tour, between steps and whenever a
block is executed.

* `Extensions.Accountable` : the book has entries for what extensions do to actors;
* `World.upheld_entries` : then it has entries for all that a turn does;
* `World.entries_of_step` : **and for a step**;
* `World.Tour` : a world on a tour;
* `World.Tour.sound`, `World.Tour.idle` : the book is right, and no pass is running between steps.
-/

namespace Stagecraft

/-- The book of actors has entries for what the extensions do to them. -/
def Extensions.Accountable {σ : Type} (ext : Extensions σ) : Prop :=
  ∀ {name : String} {handler : Extension σ}, ext.get? name = some handler →
    ∀ (site : Site) (args : Args) (s : Scene σ),
      Book.Entries s.world.book (handler site args s).1.world.book

theorem accountable_empty {σ : Type} : Extensions.Accountable (Table.empty : Extensions σ) := by
  intro name handler hget
  rw [Table.get?_empty] at hget
  cases hget

/-! ### Entries of a pass -/

namespace World

variable {σ : Type} {ext : Extensions σ} {w w' : World σ}

theorem SameCast.entries (h : SameCast w w') : Book.Entries w.book w'.book := by
  rw [book_of_cast h]
  exact .refl

/-- **What a built-in primitive does, the book has entries for.** -/
theorem Effect.entries (h : Effect w w') : Book.Entries w.book w'.book := by
  cases h with
  | tend _ _ _ _ _ hr =>
    rw [book_of_register hr]
    exact .refl
  | startHats hat fields only => exact (sameCast_startHats w hat fields only).entries
  | stopActor actor keep => exact (sameCast_stopActor w actor keep).entries
  | stopAll => exact entries_stopAll w
  | createClone source => exact entries_createClone w source
  | deleteClone id => exact entries_deleteClone w id

theorem upheld_entries (hext : ext.Accountable) :
    Upheld ext fun w w' => Book.Entries w.book w'.book where
  trans := .trans
  tend _ _ _ _ hc := hc.entries
  effect h := h.entries
  extended hget site args s := hext hget site args s

end World

namespace Pass

open World

variable {σ : Type} {ext : Extensions σ}

theorem entries_visitAt (hext : ext.Accountable) {fuel i : Nat} {p p' : Pass σ}
    (h : visitAt ext fuel p i = some p') : Book.Entries p.world.book p'.world.book := by
  obtain ⟨-, rfl⟩ | ⟨t, k, s, -, hv, rfl⟩ := visitAt_cases h
  · exact .refl
  · have hturn := (upheld_entries hext).visit hv
    exact hturn

theorem entries_visitAll (hext : ext.Accountable) {fuel : Nat} (places : List Nat) {p p' : Pass σ}
    {exhausted : Bool} (h : visitAll ext fuel places p = some (p', exhausted)) :
    Book.Entries p.world.book p'.world.book :=
  visitAll_induction (P := fun w => Book.Entries p.world.book w.book)
    (fun hp hv => hp.trans (entries_visitAt hext hv))
    (fun hp => hp.trans (Interlude.elapse _).sameCast.entries) places .refl h

/-- **What the rounds of a pass do, the book has entries for.** -/
theorem entries_rounds (hext : ext.Accountable) {turnFuel fuel first : Nat} {p p' : Pass σ}
    {finished finished' : List ThreadId}
    (h : rounds ext turnFuel fuel first p finished = some (p', finished')) :
    Book.Entries p.world.book p'.world.book :=
  rounds_induction (P := fun _ w => Book.Entries p.world.book w.book)
    (fun hp hv => hp.trans (entries_visitAt hext hv))
    (fun hp => hp.trans (Interlude.elapse _).sameCast.entries)
    (fun hp => hp.trans (Interlude.collect _ _).sameCast.entries) fuel .refl h

end Pass

namespace World

variable {σ : Type} {ext : Extensions σ} {fuel : Nat} {w w' : World σ} {ended : List ThreadId}

/-- The end of a step: the pass is over, queued events start their scripts, and requests go out. -/
theorem sameCast_close (p : Pass σ) :
    SameCast p.world (afterPass p).dispatchEvents.flushCloud.1 := by
  have hfinish : SameCast p.world (afterPass p) := ⟨rfl, rfl, rfl, rfl, rfl, rfl, rfl⟩
  exact (hfinish.trans (sameCast_dispatchEvents _)).trans ⟨rfl, rfl, rfl, rfl, rfl, rfl, rfl⟩

/-- **What a step does, the book has entries for**, whatever the extensions. -/
theorem entries_of_step (hext : ext.Accountable) (h : w.step ext fuel = some (w', ended)) :
    Book.Entries w.book w'.book := by
  cases hs : w.scheduler with
  | none =>
    rw [step, hs] at h
    cases h
    exact .refl
  | some k =>
    obtain ⟨p, hp, rfl⟩ := exists_rounds_of_step (by rw [inPass, hs]; rfl) h
    unfold roundsOfStep at hp
    rw [hs] at hp
    exact (Pass.entries_rounds hext hp).trans (sameCast_close p).entries

/-! ### Tours -/

/-- A world on a tour, with extensions that may be others in every step. -/
inductive Tour : World σ → Prop
  | blank (settings : Settings) (host : σ) (dice : Nat → Nat := fun _ => 0) :
      Tour (blank settings host dice)
  | gesture {w w' : World σ} : Tour w → Gesture w w' → Tour w'
  | step {ext : Extensions σ} {fuel : Nat} {w w' : World σ} {ended : List ThreadId} :
      ext.Accountable → Tour w → w.step ext fuel = some (w', ended) → Tour w'

/-- A show is a tour without extensions. -/
theorem Show.tour {P : World σ → Prop} (h : Show P w) : w.Tour := by
  induction h with
  | blank settings host dice => exact .blank settings host dice
  | gesture _ hg ih => exact .gesture ih hg
  | step _ _ hs ih => exact .step accountable_empty ih hs

namespace Tour

theorem sound (h : w.Tour) : w.book.Sound := by
  induction h with
  | blank settings host dice => exact (Show.blank (P := fun _ => True) settings host dice).sound
  | gesture _ hg ih => exact ih.entries hg.entries
  | step hext _ hs ih => exact ih.entries (entries_of_step hext hs)

/-- No pass is running between steps. -/
theorem idle (h : w.Tour) : w.inPass = false := by
  induction h with
  | blank settings host dice => rfl
  | gesture _ hg ih => exact (congrArg Option.isNone hg.deed.conserves.scheduler).trans ih
  | step _ _ hs ih =>
    obtain ⟨p, -, rfl⟩ := exists_rounds_of_step ih hs
    exact congrArg Option.isNone (tends_dispatchEvents (afterPass p)).scheduler

end Tour

end World

end Stagecraft
