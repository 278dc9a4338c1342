import Mathlib.Data.List.Rotate
import Mathlib.Data.Nat.Choose.Basic
import Stagecraft.Script.Thread

/-!
# Turns around a list

A pass gives turns around the list of threads, from the one that the last pass did not get to, or
from the head if that one is gone. This file is about the ids of the list only. It measures how long
a thread may have to wait for its turn, and how the measure changes from one pass to the next, when
threads leave the list and others join at its end.

* `around` : the ids in the order of their turns;
* `idxOf_around_le` : while the first thread stays, a thread moves back by those that join only;
* `idxOf_lt_of_lost` : when the first thread is gone, a thread moves up in the list, or it is nearer
  to the head than it was to its turn;
* `patience_lt` : **a pass that does not get to a thread takes from its patience** what is more than
  the threads that join.
-/

namespace Stagecraft

/-- Ids in the order of their turns: around the list from one of them on, else from the head. -/
def around (ids : List ThreadId) : Option ThreadId → List ThreadId
  | some r => ids.rotate (ids.idxOf r)
  | none => ids

/-- How many passes a thread may be passed over: the turns before its own, and for every thread
before it in the list the way that there is from the head once that thread is gone. -/
def patience (ids : List ThreadId) (first : Option ThreadId) (t : ThreadId) : Nat :=
  (around ids first).idxOf t + (ids.idxOf t + 1).choose 2

section

variable {ids kept new front rest before after : List ThreadId} {r t : ThreadId}

/-! ### Places -/

/-- Leaving some out brings the others no further back. -/
theorem idxOf_le_of_sublist (h : kept.Sublist ids) (hn : ids.Nodup) (ht : t ∈ kept) :
    kept.idxOf t ≤ ids.idxOf t := by
  induction h with
  | slnil => exact Nat.le_refl _
  | @cons l₁ l₂ a hs ih =>
    obtain ⟨ha, hn⟩ := List.nodup_cons.1 hn
    have hne : a ≠ t := fun he => ha (he ▸ hs.subset ht)
    rw [List.idxOf_cons_ne _ hne]
    exact Nat.le_succ_of_le (ih hn ht)
  | @cons_cons l₁ l₂ a hs ih =>
    obtain ⟨-, hn⟩ := List.nodup_cons.1 hn
    by_cases he : a = t
    · rw [he, List.idxOf_cons_self, List.idxOf_cons_self]
    · rw [List.idxOf_cons_ne _ he, List.idxOf_cons_ne _ he]
      have ht : t ∈ l₁ := (List.mem_cons.1 ht).resolve_left fun h => he h.symm
      exact Nat.succ_le_succ (ih hn ht)

/-! ### Rotations -/

theorem around_split (hr : r ∉ before) :
    around (before ++ r :: after) (some r) = r :: after ++ before := by
  have hidx : (before ++ r :: after).idxOf r = before.length := by
    rw [List.idxOf_append_of_notMem hr, List.idxOf_cons_self, Nat.add_zero]
  rw [around, hidx]
  exact List.rotate_append_length_eq before (r :: after)

theorem around_of_notMem (hr : r ∉ ids) : around ids (some r) = ids := by
  rw [around, List.idxOf_eq_length hr, List.rotate_length]

theorem around_perm (ids : List ThreadId) (first : Option ThreadId) :
    (around ids first).Perm ids := by
  cases first with
  | none => exact .refl _
  | some r => exact List.rotate_perm ids _

/-- Where turns stop, they are taken up in the same order. -/
theorem around_next (hn : ids.Nodup) {first : Option ThreadId}
    (h : around ids first = front ++ r :: rest) : around ids (some r) = r :: rest ++ front := by
  have hrot : ∃ n, ids.rotate n = front ++ r :: rest := by
    cases first with
    | none => exact ⟨0, by rw [List.rotate_zero]; exact h⟩
    | some q => exact ⟨_, h⟩
  obtain ⟨n, hrot⟩ := hrot
  have hlen : front.length < (ids.rotate n).length := by simp [hrot]
  have hpos : (front.length + n) % ids.length < ids.length := by
    rw [List.length_rotate] at hlen
    exact Nat.mod_lt _ (by omega)
  -- the id after the front stands where the rotation says
  have hget : ids[(front.length + n) % ids.length] = r := by
    rw [← List.getElem_rotate ids n front.length hlen]
    simp [hrot]
  have hidx : ids.idxOf r = (front.length + n) % ids.length := by
    rw [← hget]
    exact hn.idxOf_getElem _ hpos
  rw [around, hidx, List.rotate_mod, Nat.add_comm, ← List.rotate_rotate, hrot]
  exact List.rotate_append_length_eq front (r :: rest)

/-- The turns that a pass gives are turns less to wait for. -/
theorem idxOf_around_next (hn : ids.Nodup) {first : Option ThreadId}
    (hcut : around ids first = front ++ r :: rest) (ht : t ∉ front) (hmem : t ∈ ids) :
    (around ids first).idxOf t = front.length + (around ids (some r)).idxOf t := by
  have hta : t ∈ front ++ r :: rest := hcut ▸ (around_perm ids first).symm.subset hmem
  have htr : t ∈ r :: rest := (List.mem_append.1 hta).resolve_left ht
  rw [around_next hn hcut, hcut, List.idxOf_append_of_notMem ht, List.idxOf_append_of_mem htr]

/-! ### From one pass to the next -/

theorem choose_two_succ (n : Nat) : (n + 1).choose 2 = n + n.choose 2 := by
  rw [Nat.choose_succ_succ, Nat.choose_one_right]

/-- The first thread is still there: the others come after it in the same order, and those that
joined stand in between. -/
theorem idxOf_around_le (new : List ThreadId) (hn : ids.Nodup) (hsub : kept.Sublist ids)
    (hr : r ∈ kept) (ht : t ∈ kept) :
    (around (kept ++ new) (some r)).idxOf t ≤ (around ids (some r)).idxOf t + new.length := by
  obtain ⟨before, after, rfl⟩ := List.append_of_mem (hsub.subset hr)
  obtain ⟨hnb, hna, hcross⟩ := List.nodup_append.1 hn
  have hrb : r ∉ before := fun h => hcross r h r List.mem_cons_self rfl
  have hra : r ∉ after := (List.nodup_cons.1 hna).1
  obtain ⟨left, right, rfl, hleft, hright⟩ := List.sublist_append_iff.1 hsub
  -- what is kept of the later part begins with the first thread
  have hrr : r ∈ right := (List.mem_append.1 hr).resolve_left fun h => hrb (hleft.subset h)
  obtain ⟨right, rfl, htail⟩ : ∃ tail, right = r :: tail ∧ tail.Sublist after := by
    cases hright with
    | cons _ hs => exact absurd (hs.subset hrr) hra
    | cons_cons _ hs => exact ⟨_, rfl, hs⟩
  have hrl : r ∉ left := fun h => hrb (hleft.subset h)
  have hold : (around (before ++ r :: after) (some r)) = r :: after ++ before := around_split hrb
  have hnew : around (left ++ r :: right ++ new) (some r) = r :: right ++ new ++ left := by
    rw [List.append_assoc, List.cons_append, around_split hrl, List.cons_append]
  have hkept : (r :: right ++ left).Sublist (r :: after ++ before) :=
    (htail.cons_cons r).append hleft
  have hnodup : (r :: after ++ before).Nodup := (List.perm_append_comm.nodup_iff).1 hn
  have htk : t ∈ r :: right ++ left := List.perm_append_comm.subset ht
  have hle := idxOf_le_of_sublist hkept hnodup htk
  rw [hold, hnew]
  by_cases htr : t ∈ r :: right
  · rw [List.append_assoc, List.idxOf_append_of_mem htr]
    rw [List.idxOf_append_of_mem htr] at hle
    omega
  · rw [List.idxOf_append_of_notMem htr] at hle
    have hmid : t ∉ new ∨ t ∈ new := (Decidable.em (t ∈ new)).symm
    rcases hmid with hmid | hmid
    · have hnot : t ∉ r :: right ++ new := by
        simp only [List.mem_append, not_or]
        exact ⟨htr, hmid⟩
      rw [List.idxOf_append_of_notMem hnot, List.length_append]
      omega
    · rw [List.append_assoc, List.idxOf_append_of_notMem htr, List.idxOf_append_of_mem hmid]
      have hlt := List.idxOf_lt_length_of_mem hmid
      omega

/-- The first thread is gone, so turns begin at the head: a thread behind it in the list moved up,
and one before it had all of the rest of the list before its turn. -/
theorem idxOf_lt_of_lost (hn : ids.Nodup) (hsub : kept.Sublist ids) (hr : r ∈ ids)
    (hlost : r ∉ kept) (ht : t ∈ kept) :
    kept.idxOf t < ids.idxOf t ∨
      kept.idxOf t ≤ ids.idxOf t ∧ kept.idxOf t < (around ids (some r)).idxOf t := by
  obtain ⟨before, after, rfl⟩ := List.append_of_mem hr
  obtain ⟨hnb, hna, hcross⟩ := List.nodup_append.1 hn
  have hrb : r ∉ before := fun h => hcross r h r List.mem_cons_self rfl
  have hne : r ≠ t := fun he => hlost (he ▸ ht)
  have hsub' : kept.Sublist (before ++ after) := by
    have herase := hsub.erase r
    rwa [List.erase_of_not_mem hlost, List.erase_append_right _ hrb, List.erase_cons_head] at herase
  have hle := idxOf_le_of_sublist hsub'
    (hn.sublist ((List.Sublist.refl before).append (List.sublist_cons_self r after))) ht
  rw [around_split hrb]
  by_cases htb : t ∈ before
  · have hta : t ∉ r :: after := fun h => hcross t htb t h rfl
    rw [List.idxOf_append_of_mem htb] at hle ⊢
    rw [List.idxOf_append_of_notMem hta, List.length_cons]
    omega
  · rw [List.idxOf_append_of_notMem htb] at hle ⊢
    rw [List.idxOf_cons_ne _ hne]
    omega

/-- **A pass that does not get to a thread takes from its patience.** -/
theorem patience_lt (hn : ids.Nodup) {first : Option ThreadId}
    (hcut : around ids first = front ++ r :: rest) (hfront : front ≠ []) (ht : t ∉ front)
    (hsub : kept.Sublist ids) (hkept : t ∈ kept) (hnew : r ∉ new) :
    patience (kept ++ new) (some r) t < patience ids first t + new.length := by
  have hr : r ∈ ids := (around_perm ids first).subset (hcut ▸ by simp)
  have hplace := idxOf_le_of_sublist hsub hn hkept
  have hlen := List.length_pos_iff.2 hfront
  have hnext := idxOf_around_next hn hcut ht (hsub.subset hkept)
  unfold patience
  rw [List.idxOf_append_of_mem hkept]
  by_cases hrk : r ∈ kept
  · have hle := idxOf_around_le new hn hsub hrk hkept
    have hmono : (kept.idxOf t + 1).choose 2 ≤ (ids.idxOf t + 1).choose 2 :=
      Nat.choose_le_choose 2 (Nat.succ_le_succ hplace)
    omega
  · have hgone : r ∉ kept ++ new := by
      simp only [List.mem_append, not_or]
      exact ⟨hrk, hnew⟩
    rw [around_of_notMem hgone, List.idxOf_append_of_mem hkept]
    rcases idxOf_lt_of_lost hn hsub hr hrk hkept with hlt | ⟨hle, hlt⟩
    · -- one place less saves the way from the head to the old place
      have hmono : (kept.idxOf t + 1 + 1).choose 2 ≤ (ids.idxOf t + 1).choose 2 :=
        Nat.choose_le_choose 2 (by omega)
      have hstep := choose_two_succ (kept.idxOf t + 1)
      omega
    · have hmono : (kept.idxOf t + 1).choose 2 ≤ (ids.idxOf t + 1).choose 2 :=
        Nat.choose_le_choose 2 (Nat.succ_le_succ hle)
      omega

/-- The patience of a thread is bounded by the length of the list. -/
theorem patience_lt_choose (first : Option ThreadId) (ht : t ∈ ids) :
    patience ids first t < (ids.length + 1).choose 2 := by
  have hplace := List.idxOf_lt_length_of_mem ht
  have hturn := List.idxOf_lt_length_of_mem ((around_perm ids first).symm.subset ht)
  rw [(around_perm ids first).length_eq] at hturn
  have hmono : (ids.idxOf t + 1).choose 2 ≤ ids.length.choose 2 :=
    Nat.choose_le_choose 2 hplace
  rw [choose_two_succ]
  unfold patience
  omega

end

end Stagecraft
