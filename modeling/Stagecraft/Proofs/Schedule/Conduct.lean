import Stagecraft.Proofs.Schedule.Growth
import Stagecraft.Primitive.Scene
import Mathlib.Logic.Relation

/-!
# What a host may do with threads

Stopping threads has two sides. In a pass the stopped threads stay in their lists, so the lists grow
as they do when threads are started. Between passes they leave at once, and what is left is still in
the order in which it came (`World.Follows`). `World.Conserves` puts the two together.

`World.Deed` lists what a host or an extension can do with a world. None of it does more to the
threads than this:

* `World.Deed.conserves` : every deed keeps to it;
* `Extensions.Orderly` : an extension is orderly if its effect on the world comes from deeds.
-/

namespace Stagecraft

namespace World

variable {σ : Type} {w w' w'' : World σ}

/-! ### Between passes -/

/-- No pass is running, so no thread waits for its end, and ids go up along the list. -/
structure Settled (w : World σ) : Prop where
  idle : w.inPass = false
  spawned : w.spawned = []
  sorted : (w.threads.map (·.id)).Pairwise (· < ·)
  lt : ∀ t ∈ w.threads, t.id < w.nextThread

theorem Settled.of_grown (hw : w.Settled) (h : Grown w w') : w'.Settled := by
  have hthreads := h.threads
  have hspawned := h.spawned
  rw [hw.idle, hw.spawned] at hspawned
  rw [hw.idle] at hthreads
  simp only [Bool.false_eq_true, if_false, List.map_nil, List.append_nil] at hthreads hspawned
  have hlt : ∀ id ∈ w.threads.map (·.id), id < w.nextThread := by
    intro id hid
    obtain ⟨t, ht, rfl⟩ := List.mem_map.1 hid
    exact hw.lt t ht
  refine ⟨h.inPass.trans hw.idle, List.map_eq_nil_iff.1 hspawned, ?_, ?_⟩
  · rw [hthreads]
    refine List.pairwise_append.2 ⟨hw.sorted, List.pairwise_lt_range', fun a ha b hb => ?_⟩
    exact Nat.lt_of_lt_of_le (hlt a ha) (List.mem_range'_1.1 hb).1
  · intro t ht
    have hid : t.id ∈ w.threads.map (·.id) ++ issued w w' :=
      hthreads ▸ List.mem_map.2 ⟨t, ht, rfl⟩
    rcases List.mem_append.1 hid with hid | hid
    · exact Nat.lt_of_lt_of_le (hlt _ hid) h.next_le
    · have hb := (List.mem_range'_1.1 hid).2
      rwa [Nat.add_sub_of_le h.next_le] at hb

/-- What a settled world may turn into: threads leave, and others join at the end of the list, no
more than were given an id meanwhile. -/
structure Follows (w w' : World σ) : Prop where
  settled : w'.Settled
  next_le : w.nextThread ≤ w'.nextThread
  threads : ∃ kept new, w'.threads.map (·.id) = kept ++ new ∧
    kept.Sublist (w.threads.map (·.id)) ∧ new.length ≤ w'.nextThread - w.nextThread ∧
      ∀ id ∈ new, w.nextThread ≤ id

theorem Follows.trans (h : Follows w w') (h' : Follows w' w'') : Follows w w'' := by
  obtain ⟨kept, new, hids, hsub, hlen, hnew⟩ := h.threads
  obtain ⟨kept', new', hids', hsub', hlen', hnew'⟩ := h'.threads
  rw [hids] at hsub'
  -- what the second leg keeps is old or came in the first leg
  obtain ⟨old, young, rfl, hold, hyoung⟩ := List.sublist_append_iff.1 hsub'
  have hyoung' := hyoung.length_le
  have hadd := Nat.add_sub_of_le h.next_le
  have hadd' := Nat.add_sub_of_le h'.next_le
  refine ⟨h'.settled, Nat.le_trans h.next_le h'.next_le, old, young ++ new', ?_, hold.trans hsub,
    ?_, ?_⟩
  · rw [hids', List.append_assoc]
  · rw [List.length_append]
    omega
  · intro id hid
    rcases List.mem_append.1 hid with hid | hid
    · exact hnew id (hyoung.subset hid)
    · exact Nat.le_trans h.next_le (hnew' id hid)

theorem Settled.follows_of_grown (hw : w.Settled) (h : Grown w w') : Follows w w' := by
  have hthreads := h.threads
  rw [hw.idle] at hthreads
  refine ⟨hw.of_grown h, h.next_le, _, _, hthreads, List.Sublist.refl _, ?_, fun id hid => ?_⟩
  · simp [issued]
  · exact (List.mem_range'_1.1 hid).1

/-- In a pass threads are only started, and between passes they also leave the list. -/
structure Conserves (w w' : World σ) : Prop where
  scheduler : w'.scheduler = w.scheduler
  grown : w.inPass = true → Grown w w'
  follows : w.Settled → Follows w w'

namespace Conserves

theorem of_grown (h : Grown w w') : Conserves w w' :=
  ⟨h.scheduler, fun _ => h, fun hw => hw.follows_of_grown h⟩

theorem refl (w : World σ) : Conserves w w := of_grown (.refl w)

theorem trans (h : Conserves w w') (h' : Conserves w' w'') : Conserves w w'' := by
  refine ⟨h'.scheduler.trans h.scheduler, fun hp => ?_, fun hw => ?_⟩
  · have hg := h.grown hp
    exact hg.trans (h'.grown (hg.inPass.trans hp))
  · have hf := h.follows hw
    exact hf.trans (h'.follows hf.settled)

/-- Whatever leaves the threads alone. -/
theorem of_eq (hs : w'.scheduler = w.scheduler) (hn : w'.nextThread = w.nextThread)
    (ht : w'.threads = w.threads) (hsp : w'.spawned = w.spawned) : Conserves w w' :=
  of_grown (.of_eq hs hn ht hsp)

end Conserves

/-! ### Stopping -/

theorem conserves_dropFinished (w : World σ) : Conserves w w.dropFinished := by
  unfold dropFinished
  split
  · exact .refl w
  · rename_i hp
    refine ⟨rfl, fun h => absurd h hp, fun hw => ?_⟩
    -- nothing is dropped in a pass; between passes a part of an ordered list is left
    have hsub : List.Sublist ((w.threads.filter fun t => !t.isDone).map (·.id))
        (w.threads.map (·.id)) := List.filter_sublist.map _
    refine ⟨⟨hw.idle, ?_, hw.sorted.sublist hsub, ?_⟩, Nat.le_refl _, _, [],
      (List.append_nil _).symm, hsub, Nat.zero_le _, fun id hid => by cases hid⟩
    · simp only [hw.spawned, List.filter_nil]
    · intro t ht
      exact hw.lt t (List.mem_of_mem_filter ht)

theorem conserves_toggleScript (w : World σ) (actor : ActorId) (top : Handle) :
    Conserves w (w.toggleScript actor top).1 := by
  unfold toggleScript
  split
  · -- the script runs: its thread ends, and leaves at once between passes
    exact (Conserves.of_grown (grown_modifyRunning Thread.edited_retire w actor top)).trans
      (conserves_dropFinished _)
  · refine .of_grown ((grown_pushThread w actor top).trans (grown_mapThreads (fun t => ?_) _))
    split
    · exact t.edited_clicked
    · exact .refl t

theorem conserves_stopActor (w : World σ) (actor : ActorId) (keep : Option ThreadId) :
    Conserves w (w.stopActor actor keep) := by
  unfold stopActor
  refine Conserves.trans (.of_grown ?_) (conserves_dropFinished _)
  have hretire : Grown w (w.mapThreads fun t =>
      if t.actor = actor && some t.id ≠ keep then t.retire else t) := by
    refine grown_mapThreads (fun t => ?_) w
    split
    · exact t.edited_retire
    · exact .refl t
  exact hretire.trans (.of_eq rfl rfl rfl rfl)

/-! ### Clones -/

theorem conserves_createClone (w : World σ) (source : ActorId) :
    Conserves w (w.createClone source).1 := by
  unfold createClone
  split
  · exact .of_grown (grown_notify w _)
  · split
    · exact .refl w
    · split
      · exact .refl w
      · simp only
        exact .of_grown ((grown_raise _ _).after_tend rfl rfl rfl rfl)

theorem conserves_deleteClone (w : World σ) (id : ActorId) :
    Conserves w (w.deleteClone id).1 := by
  unfold deleteClone
  split
  · exact .refl w
  · split
    · exact .refl w
    · exact (conserves_stopActor w id none).trans (.of_eq rfl rfl rfl rfl)

/-! ### Stopping everything -/

theorem grown_clearPrompts (w : World σ) : Grown w w.clearPrompts := by
  have hfold : ∀ (prompts : List Prompt) (w : World σ),
      Grown w (prompts.foldl (fun w p => w.dropResolver p.channel) w) := by
    intro prompts
    induction prompts with
    | nil => exact .refl
    | cons p rest ih => exact fun w => (ih (w.dropResolver p.channel)).after_tend rfl rfl rfl rfl
  exact (hfold w.prompts { w with prompts := [] }).after_tend rfl rfl rfl rfl

theorem conserves_deleteClones (ids : List ActorId) :
    ∀ w : World σ, Conserves w (ids.foldl (fun w id => (w.deleteClone id).1) w) := by
  induction ids with
  | nil => exact .refl
  | cons id rest ih => exact fun w => (conserves_deleteClone w id).trans (ih _)

theorem conserves_stopAll (w : World σ) : Conserves w w.stopAll := by
  have hretire : Conserves w ((w.mapThreads Thread.retire).retireCurrent fun _ => true) :=
    .of_grown ((grown_mapThreads Thread.edited_retire w).trans (.of_eq rfl rfl rfl rfl))
  have hdelete := (hretire.trans (conserves_dropFinished _)).trans (conserves_deleteClones
    ((w.mapThreads Thread.retire).retireCurrent fun _ => true).dropFinished.clones _)
  unfold stopAll
  simp only
  exact hdelete.trans (.of_grown ((grown_clearPrompts _).after_tend rfl rfl rfl rfl))

theorem conserves_greenFlag (w : World σ) : Conserves w w.greenFlag.1 := by
  unfold greenFlag
  simp only
  exact (conserves_stopAll w).trans (.of_grown ((grown_raise _ _).after_tend rfl rfl rfl rfl))

/-! ### Deeds -/

/-- What a host or an extension can do with a world, short of a step. -/
inductive Deed : World σ → World σ → Prop
  /-- Whatever leaves threads and scheduler alone: devices, actors, programs, prompts, results. -/
  | tend {w w' : World σ} : w'.scheduler = w.scheduler → w'.nextThread = w.nextThread →
      w'.threads = w.threads → w'.spawned = w.spawned → Deed w w'
  | pushThread (w : World σ) (actor : ActorId) (top : Handle) : Deed w (w.pushThread actor top).1
  | toggleScript (w : World σ) (actor : ActorId) (top : Handle) :
      Deed w (w.toggleScript actor top).1
  | stopActor (w : World σ) (actor : ActorId) (keep : Option ThreadId) :
      Deed w (w.stopActor actor keep)
  | startHats (w : World σ) (hat : Opcode) (fields : List (String × String))
      (only : Option ActorId) : Deed w (w.startHats hat fields only).1
  | createClone (w : World σ) (source : ActorId) : Deed w (w.createClone source).1
  | deleteClone (w : World σ) (id : ActorId) : Deed w (w.deleteClone id).1
  | stopAll (w : World σ) : Deed w w.stopAll
  | greenFlag (w : World σ) : Deed w w.greenFlag.1

/-- **Every deed conserves the threads.** -/
theorem Deed.conserves (h : Deed w w') : Conserves w w' := by
  cases h with
  | tend hs hn ht hsp => exact .of_eq hs hn ht hsp
  | pushThread actor top => exact .of_grown (grown_pushThread w actor top)
  | toggleScript actor top => exact conserves_toggleScript w actor top
  | stopActor actor keep => exact conserves_stopActor w actor keep
  | startHats hat fields only => exact .of_grown (grown_startHats w hat fields only)
  | createClone source => exact conserves_createClone w source
  | deleteClone id => exact conserves_deleteClone w id
  | stopAll => exact conserves_stopAll w
  | greenFlag => exact conserves_greenFlag w

/-- One deed after the other. -/
def Deeds : World σ → World σ → Prop := Relation.ReflTransGen Deed

theorem Deeds.conserves (h : Deeds w w') : Conserves w w' := by
  induction h with
  | refl => exact .refl w
  | tail _ hd ih => exact ih.trans hd.conserves

end World

/-- The extensions change a world by deeds only, and leave the id of the running thread alone. -/
def Extensions.Orderly {σ : Type} (ext : Extensions σ) : Prop :=
  ∀ (name : String) (handler : Extension σ), ext.get? name = some handler →
    ∀ (site : Site) (args : Args) (s : Scene σ),
      World.Deeds s.world (handler site args s).1.world ∧
        (handler site args s).1.thread.id = s.thread.id

end Stagecraft
