import Stagecraft.World.Hats
import Mathlib.Data.List.Forall2

/-!
# Starting threads

Starting scripts changes the two lists of threads of a world in one way only: threads keep their
places and their ids, and new ones come at the end, with the ids that were given out meanwhile. In a
pass they go to the list of the threads that wait for its end, outside a pass to the list of all.

* `Thread.Unstarted` : a thread that was not stopped is where it starts;
* `World.Grown` : what starting threads does, a preorder;
* `World.grown_startHats` : a hat starts threads in this way, and does nothing else to the lists;
* `World.grown_dispatchEvents` : so do the queued events.
-/

namespace Stagecraft

/-! ### Threads where they start -/

namespace Thread

/-- A thread that has not ended is where it starts: starting it over changes nothing. -/
def Unstarted (t : Thread) : Prop := t.isDone = false → t.restart = t

/-- A change of a thread that keeps its id, and does not take it away from where it starts. -/
def Edited (t t' : Thread) : Prop := t'.id = t.id ∧ (t.Unstarted → t'.Unstarted)

variable {t : Thread}

theorem unstarted_start (id : ThreadId) (actor : ActorId) (top : Handle) :
    (start id actor top).Unstarted := fun _ => rfl

theorem Edited.refl (t : Thread) : Edited t t := ⟨rfl, fun h => h⟩

theorem edited_retire (t : Thread) : Edited t t.retire :=
  ⟨rfl, fun _ hd => by simp [retire, isDone] at hd⟩

theorem edited_restart (t : Thread) : Edited t t.restart := ⟨rfl, fun _ _ => rfl⟩

theorem edited_clicked (t : Thread) : Edited t { t with clicked := true } := by
  refine ⟨rfl, fun h hd => ?_⟩
  have hr : t.restart = t := h hd
  exact congrArg (fun t : Thread => { t with clicked := true }) hr

end Thread

/-! ### Lists of edited threads -/

/-- What is in a changed list comes from something in the old list. -/
theorem exists_of_forall₂ {α β : Type} {R : α → β → Prop} {l : List α} {l' : List β}
    (h : List.Forall₂ R l l') {t' : β} (ht : t' ∈ l') : ∃ t ∈ l, R t t' := by
  induction h with
  | nil => cases ht
  | @cons t₁ _ rest _ h₁ _ ih =>
    rcases List.mem_cons.1 ht with rfl | ht
    · exact ⟨t₁, List.mem_cons_self, h₁⟩
    · obtain ⟨t, hm, he⟩ := ih ht
      exact ⟨t, List.mem_cons_of_mem _ hm, he⟩

section Lists

variable {l l' : List Thread} {R : Thread → Thread → Prop}

/-- Only a thread that passes the test is changed. -/
theorem forall₂_modifyFirst (hrefl : ∀ t, R t t) {p : Thread → Bool} {f : Thread → Thread}
    (hf : ∀ t, p t = true → R t (f t)) (l : List Thread) :
    List.Forall₂ R l (World.modifyFirst p f l) := by
  have hrest : ∀ l : List Thread, List.Forall₂ R l l :=
    fun l => List.forall₂_same.2 fun t _ => hrefl t
  induction l with
  | nil => exact .nil
  | cons t rest ih =>
    rw [World.modifyFirst]
    split
    · rename_i hp
      exact .cons (hf t hp) (hrest rest)
    · exact .cons (hrefl t) ih

theorem edited_refl (l : List Thread) : List.Forall₂ Thread.Edited l l :=
  List.forall₂_same.2 fun t _ => .refl t

theorem edited_map {f : Thread → Thread} (hf : ∀ t, Thread.Edited t (f t)) (l : List Thread) :
    List.Forall₂ Thread.Edited l (l.map f) :=
  List.forall₂_map_right_iff.2 (List.forall₂_same.2 fun t _ => hf t)

/-- Edited threads keep their ids and places. -/
theorem ids_of_edited (h : List.Forall₂ Thread.Edited l l') : l'.map (·.id) = l.map (·.id) := by
  induction h with
  | nil => rfl
  | cons ht _ ih => rw [List.map_cons, List.map_cons, ht.1, ih]

end Lists

namespace World

variable {σ : Type} {w w' w'' : World σ}

/-- The thread that is changed is the one that is found. -/
theorem modifyFirst_of_find? {p : Thread → Bool} {t : Thread} (f : Thread → Thread) :
    ∀ {l : List Thread}, l.find? p = some t →
      ∃ before after, l = before ++ t :: after ∧ modifyFirst p f l = before ++ f t :: after := by
  intro l
  induction l with
  | nil => exact fun h => by cases h
  | cons u rest ih =>
    intro h
    rw [List.find?_cons] at h
    rw [modifyFirst]
    cases hp : p u with
    | true =>
      rw [hp] at h
      cases h
      exact ⟨[], rest, rfl, rfl⟩
    | false =>
      rw [hp] at h
      obtain ⟨before, after, rfl, hmodify⟩ := ih h
      exact ⟨u :: before, after, rfl, by simp [hmodify]⟩

/-! ### Growth -/

/-- The ids given to threads between two states. -/
def issued (w w' : World σ) : List ThreadId :=
  List.range' w.nextThread (w'.nextThread - w.nextThread)

/-- No thread with an id from `n` on has gone on from where it starts. -/
def Untried (n : ThreadId) (w : World σ) : Prop :=
  ∀ t ∈ w.threads ++ w.spawned, n ≤ t.id → t.Unstarted

/-- Threads keep their places and ids, and new ones come at the end of the list that is due. -/
structure Grown (w w' : World σ) : Prop where
  scheduler : w'.scheduler = w.scheduler
  next_le : w.nextThread ≤ w'.nextThread
  threads : w'.threads.map (·.id) =
    w.threads.map (·.id) ++ if w.inPass then [] else issued w w'
  spawned : w'.spawned.map (·.id) =
    w.spawned.map (·.id) ++ if w.inPass then issued w w' else []
  untried : ∀ n, Untried n w → Untried n w'

theorem issued_eq_nil (hn : w'.nextThread = w.nextThread) : issued w w' = [] := by
  rw [issued, hn, Nat.sub_self, List.range'_zero]

theorem issued_append (h : w.nextThread ≤ w'.nextThread) (h' : w'.nextThread ≤ w''.nextThread) :
    issued w w' ++ issued w' w'' = issued w w'' := by
  have hs : w'.nextThread = w.nextThread + (w'.nextThread - w.nextThread) :=
    (Nat.add_sub_of_le h).symm
  have hl : w''.nextThread - w.nextThread =
      (w'.nextThread - w.nextThread) + (w''.nextThread - w'.nextThread) := by
    rw [Nat.add_comm]
    exact (Nat.sub_add_sub_cancel h' h).symm
  rw [issued, issued, issued, hl, ← List.range'_append_1, ← hs]

namespace Grown

/-- Edits of threads, and of whatever else there is in a world but the scheduler. -/
theorem of_edited (hs : w'.scheduler = w.scheduler) (hn : w'.nextThread = w.nextThread)
    (ht : List.Forall₂ Thread.Edited w.threads w'.threads)
    (hsp : List.Forall₂ Thread.Edited w.spawned w'.spawned) : Grown w w' := by
  refine ⟨hs, Nat.le_of_eq hn.symm, ?_, ?_, ?_⟩
  · rw [ids_of_edited ht, issued_eq_nil hn, ite_self, List.append_nil]
  · rw [ids_of_edited hsp, issued_eq_nil hn, ite_self, List.append_nil]
  · intro n hw t' ht' hle
    have hex : ∃ t ∈ w.threads ++ w.spawned, Thread.Edited t t' := by
      rcases List.mem_append.1 ht' with hm | hm
      · obtain ⟨t, hm, he⟩ := exists_of_forall₂ ht hm
        exact ⟨t, List.mem_append_left _ hm, he⟩
      · obtain ⟨t, hm, he⟩ := exists_of_forall₂ hsp hm
        exact ⟨t, List.mem_append_right _ hm, he⟩
    obtain ⟨t, hm, hid, hun⟩ := hex
    exact hun (hw t hm (hid ▸ hle))

/-- Whatever leaves the threads alone. -/
theorem of_eq (hs : w'.scheduler = w.scheduler) (hn : w'.nextThread = w.nextThread)
    (ht : w'.threads = w.threads) (hsp : w'.spawned = w.spawned) : Grown w w' :=
  of_edited hs hn (ht ▸ edited_refl _) (hsp ▸ edited_refl _)

theorem refl (w : World σ) : Grown w w := of_eq rfl rfl rfl rfl

theorem inPass (h : Grown w w') : w'.inPass = w.inPass := by
  unfold World.inPass
  rw [h.scheduler]

theorem trans (h : Grown w w') (h' : Grown w' w'') : Grown w w'' := by
  have happ := issued_append h.next_le h'.next_le
  refine ⟨h'.scheduler.trans h.scheduler, Nat.le_trans h.next_le h'.next_le, ?_, ?_,
    fun n hw => h'.untried n (h.untried n hw)⟩
  · -- the ids of both legs follow each other
    rw [h'.threads, h.threads, h.inPass, List.append_assoc]
    split
    · rfl
    · rw [happ]
  · rw [h'.spawned, h.spawned, h.inPass, List.append_assoc]
    split
    · rw [happ]
    · rfl

theorem after_tend (h : Grown w' w'') (hs : w'.scheduler = w.scheduler)
    (hn : w'.nextThread = w.nextThread) (ht : w'.threads = w.threads)
    (hsp : w'.spawned = w.spawned) : Grown w w'' :=
  (of_eq hs hn ht hsp).trans h

end Grown

/-! ### Starting a thread -/

theorem grown_pushThread (w : World σ) (actor : ActorId) (top : Handle) :
    Grown w (w.pushThread actor top).1 := by
  -- the new thread joins one of the lists
  have huntried : ∀ t : Thread, t ∈ (w.pushThread actor top).1.threads ++
      (w.pushThread actor top).1.spawned → t ∈ w.threads ++ w.spawned ∨ t.Unstarted := by
    intro t ht
    unfold pushThread at ht
    simp only at ht
    split at ht
    all_goals
      simp only [List.mem_append, List.mem_singleton] at ht ⊢
      have hstart := Thread.unstarted_start w.nextThread actor top
      rcases ht with ht | ht
    · exact Or.inl (Or.inl ht)
    · rcases ht with ht | rfl
      · exact Or.inl (Or.inr ht)
      · exact Or.inr hstart
    · rcases ht with ht | rfl
      · exact Or.inl (Or.inl ht)
      · exact Or.inr hstart
    · exact Or.inl (Or.inr ht)
  have hnext : (w.pushThread actor top).1.nextThread = w.nextThread + 1 := by
    unfold pushThread
    simp only
    split <;> rfl
  have hissued : issued w (w.pushThread actor top).1 = [w.nextThread] := by
    rw [issued, hnext, Nat.add_sub_cancel_left, List.range'_one]
  refine ⟨?_, hnext ▸ Nat.le_succ _, ?_, ?_, ?_⟩
  · unfold pushThread
    simp only
    split <;> rfl
  · rw [hissued]
    unfold pushThread World.inPass
    simp only
    split
    · exact (List.append_nil _).symm
    · exact List.map_append
  · rw [hissued]
    unfold pushThread World.inPass
    simp only
    split
    · exact List.map_append
    · exact (List.append_nil _).symm
  · intro n hw t ht hle
    rcases huntried t ht with hm | hu
    · exact hw t hm hle
    · exact hu

theorem grown_mapThreads {f : Thread → Thread} (hf : ∀ t, Thread.Edited t (f t)) (w : World σ) :
    Grown w (w.mapThreads f) :=
  .of_edited rfl rfl (edited_map hf _) (edited_map hf _)

theorem grown_modifyRunning {f : Thread → Thread} (hf : ∀ t, Thread.Edited t (f t))
    (w : World σ) (actor : ActorId) (top : Handle) : Grown w (w.modifyRunning actor top f) := by
  have hedited : ∀ l : List Thread,
      List.Forall₂ Thread.Edited l (modifyFirst (runsScript actor top) f l) :=
    forall₂_modifyFirst .refl fun t _ => hf t
  unfold modifyRunning
  split
  · exact .of_edited rfl rfl (hedited _) (edited_refl _)
  · exact .of_edited rfl rfl (edited_refl _) (hedited _)

/-! ### Starting scripts -/

theorem grown_notify (w : World σ) (n : Notice) : Grown w (w.notify n) := .of_eq rfl rfl rfl rfl

theorem grown_startScript (w : World σ) (restarts : Bool) (actor : ActorId) (top : Handle) :
    Grown w (w.startScript restarts actor top).1 := by
  unfold startScript
  split
  · exact .of_eq rfl rfl rfl rfl
  · split
    · split
      · exact grown_modifyRunning Thread.edited_restart w actor top
      · exact .refl w
    · exact grown_pushThread w actor top

theorem grown_startScripts (restarts : Bool) (scripts : List (ActorId × Handle)) :
    ∀ w : World σ, Grown w (startScripts restarts scripts w).1 := by
  induction scripts with
  | nil => exact .refl
  | cons script rest ih =>
    intro w
    exact (grown_startScript w restarts script.1 script.2).trans (ih _)

/-- **A hat starts threads and does nothing else to the lists.** -/
theorem grown_startHats (w : World σ) (hat : Opcode) (fields : List (String × String))
    (only : Option ActorId) : Grown w (w.startHats hat fields only).1 := by
  unfold startHats
  split
  · exact grown_notify w _
  · exact grown_startScripts _ _ w

theorem grown_raise (w : World σ) (e : Event) : Grown w (w.raise e).1 :=
  grown_startHats w e.hat e.fields e.actor

/-- **So do the queued events.** -/
theorem grown_dispatchEvents (w : World σ) : Grown w w.dispatchEvents := by
  have hfold : ∀ (raised : List Event) (w : World σ),
      Grown w (raised.foldl (fun w e => (w.raise e).1) w) := by
    intro raised
    induction raised with
    | nil => exact .refl
    | cons e rest ih => exact fun w => (grown_raise w e).trans (ih _)
  exact (hfold w.events.drain.2 { w with events := w.events.drain.1 }).after_tend rfl rfl rfl rfl

end World

end Stagecraft
