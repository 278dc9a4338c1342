import Stagecraft.Proofs.Schedule.Waiting
import Mathlib.Data.List.Chain

/-!
# What a thread lives through

What is written down of the turns of a run is about many threads. The entries about one thread
follow each other: between two of its turns it rests, and nothing is written down of it. So what
is told of one turn, with the thread before and after it, is told of a whole run.

* `Diary` : entries about threads, and what it means that one follows another;
* `Diary.Visits` : what is told of one turn;
* `World.Recounts` : a run with what is written down of its steps;
* `Diary.chain_of_recounts` : **in a run the entries about a thread follow each other**.
-/

namespace Stagecraft

open Thread World

/-- What is written down of threads. A thread rests between its turns, it starts a turn with an
entry, and it leaves an entry behind when the turn is over; then the next one follows. -/
structure Diary (β : Type) where
  /-- The thread of an entry. -/
  id : β → ThreadId
  /-- One entry after the other, of one thread. -/
  Next : β → β → Prop
  /-- What happens to a thread between its turns. -/
  Rests : Thread → Thread → Prop
  /-- A turn of a thread that has rested begins with an entry. -/
  Starts : Thread → β → Prop
  /-- A turn ended with an entry, and the thread has rested since. -/
  Leaves : β → Thread → Prop
  waited : ∀ {t t'}, Waited t t' → Rests t t'
  trans : ∀ {t t' t''}, Rests t t' → Rests t' t'' → Rests t t''
  starts : ∀ {t t' b}, Rests t t' → Starts t' b → Starts t b
  leaves : ∀ {t t' b}, Leaves b t → Rests t t' → Leaves b t'
  next : ∀ {t b b'}, Leaves b t → Starts t b' → Next b b'

namespace Diary

variable {β σ : Type} (D : Diary β)

/-- The entries about one thread among others. -/
def own (id : ThreadId) (l : List β) : List β := l.filter fun b => D.id b = id

theorem own_append (id : ThreadId) (l l' : List β) :
    D.own id (l ++ l') = D.own id l ++ D.own id l' :=
  List.filter_append ..

theorem own_eq_self {id : ThreadId} {l : List β} (h : ∀ b ∈ l, D.id b = id) : D.own id l = l :=
  List.filter_eq_self.2 fun b hb => decide_eq_true (h b hb)

theorem own_eq_nil {id : ThreadId} {l : List β} (h : ∀ b ∈ l, D.id b ≠ id) : D.own id l = [] :=
  List.filter_eq_nil_iff.2 fun b hb => by simpa using h b hb

theorem mem_own {id : ThreadId} {l : List β} {b : β} :
    b ∈ D.own id l ↔ b ∈ l ∧ D.id b = id := by
  rw [own, List.mem_filter, decide_eq_true_eq]

/-! ### One turn -/

/-- How a thread stands some time after the last entry, if there is one. -/
def Since (t : Thread) : Option β → Thread → Prop
  | none, t' => D.Rests t t'
  | some b, t' => D.Leaves b t'

/-- What is told of a turn: how its entries follow each other, and how the thread stands when the
turn comes to its end. -/
structure Visits (t : Thread) (l : List β) (o : Option (Scheduler × Scene σ)) : Prop where
  ids : ∀ b ∈ l, D.id b = t.id
  chain : l.IsChain D.Next
  first : ∀ b ∈ l.head?, D.Starts t b
  last : ∀ k s, o = some (k, s) → D.Since t l.getLast? s.thread

/-! ### From world to world -/

/-- A thread of some id stands in a world so that something is told of it. -/
def Has (w : World σ) (id : ThreadId) (P : Thread → Prop) : Prop :=
  id < w.nextThread → ∃ t ∈ w.threads ++ w.spawned, t.id = id ∧ P t

/-- From a world on, the entries about a thread follow each other. -/
structure Begins (id : ThreadId) (w : World σ) (l : List β) : Prop where
  chain : (D.own id l).IsChain D.Next
  first : ∀ b ∈ (D.own id l).head?, Has w id fun t => D.Starts t b

/-- So they do from one world to another, where the thread has rested since. -/
structure Leads (id : ThreadId) (w : World σ) (l : List β) (w' : World σ) : Prop extends
    Begins D id w l where
  next_le : w.nextThread ≤ w'.nextThread
  lt : ∀ b ∈ l, D.id b < w'.nextThread
  idle : D.own id l = [] → ∀ t' ∈ w'.threads ++ w'.spawned, t'.id = id →
    Has w id fun t => D.Rests t t'
  last : ∀ b ∈ (D.own id l).getLast?, ∀ t' ∈ w'.threads ++ w'.spawned, t'.id = id → D.Leaves b t'

variable {D} {w w' w'' : World σ} {id : ThreadId} {l l' : List β}

theorem Leads.begins_append (h : D.Leads id w l w') (h' : D.Begins id w' l') :
    D.Begins id w (l ++ l') := by
  refine ⟨?_, fun b hb => ?_⟩
  · rw [own_append]
    refine List.isChain_append.2 ⟨h.chain, h'.chain, fun b hb b' hb' => ?_⟩
    obtain ⟨hl, hown⟩ := D.mem_own.1 (List.mem_of_getLast? hb)
    obtain ⟨t, ht, htid, hstarts⟩ := h'.first b' hb' (hown ▸ h.lt b hl)
    exact D.next (h.last b hb t ht htid) hstarts
  · rw [own_append, List.head?_append] at hb
    cases hown : D.own id l with
    | nil =>
      rw [hown] at hb
      intro hid
      obtain ⟨t, ht, htid, hstarts⟩ := h'.first b hb (Nat.lt_of_lt_of_le hid h.next_le)
      obtain ⟨t₀, ht₀, htid₀, hr⟩ := h.idle hown t ht htid hid
      exact ⟨t₀, ht₀, htid₀, D.starts hr hstarts⟩
    | cons b₀ rest =>
      refine h.first b ?_
      rw [hown] at hb ⊢
      exact hb

theorem Leads.append (h : D.Leads id w l w') (h' : D.Leads id w' l' w'') :
    D.Leads id w (l ++ l') w'' := by
  refine ⟨h.begins_append h'.toBegins, Nat.le_trans h.next_le h'.next_le, fun b hb => ?_,
    fun hown t ht htid hid => ?_, fun b hb t ht htid => ?_⟩
  · rcases List.mem_append.1 hb with hb | hb
    · exact Nat.lt_of_lt_of_le (h.lt b hb) h'.next_le
    · exact h'.lt b hb
  · rw [own_append, List.append_eq_nil_iff] at hown
    obtain ⟨t₁, ht₁, htid₁, hr₁⟩ :=
      h'.idle hown.2 t ht htid (Nat.lt_of_lt_of_le hid h.next_le)
    obtain ⟨t₀, ht₀, htid₀, hr₀⟩ := h.idle hown.1 t₁ ht₁ htid₁ hid
    exact ⟨t₀, ht₀, htid₀, D.trans hr₀ hr₁⟩
  · rw [own_append, List.getLast?_append] at hb
    cases hlast : (D.own id l').getLast? with
    | some b' =>
      rw [hlast] at hb
      cases hb
      exact h'.last b hlast t ht htid
    | none =>
      rw [hlast] at hb
      obtain ⟨hl, hown⟩ := D.mem_own.1 (List.mem_of_getLast? hb)
      obtain ⟨t₁, ht₁, htid₁, hr₁⟩ := h'.idle (List.getLast?_eq_none_iff.1 hlast) t ht htid
        (hown ▸ h.lt b hl)
      exact D.leaves (h.last b hb t₁ ht₁ htid₁) hr₁

/-- Between turns a thread rests. -/
theorem leads_of_meanwhile (h : Meanwhile w w') : D.Leads id w [] w' := by
  refine ⟨⟨.nil, fun _ hb => by cases hb⟩, h.next_le, (fun _ hb => by cases hb),
    fun _ t' ht' htid hid => ?_, fun _ hb => by cases hb⟩
  rcases h.origin t' ht' with hnew | ⟨t, ht, hw⟩
  · exact absurd (htid ▸ hnew) (Nat.not_le.2 hid)
  · exact ⟨t, ht, hw.id.symm.trans htid, D.waited hw⟩

end Diary

namespace World

variable {σ : Type} {w w' : World σ} {finished : List ThreadId}

/-- Threads and their ids are numbered from one on. -/
structure Counted (w : World σ) : Prop where
  next : 0 < w.nextThread
  threads : ∀ t ∈ w.threads, 0 < t.id

theorem Counted.of_follows (hn : w.Counted) (h : Follows w w') : w'.Counted := by
  obtain ⟨kept, new, hids, hsub, -, hnew⟩ := h.threads
  refine ⟨Nat.lt_of_lt_of_le hn.next h.next_le, fun t ht => ?_⟩
  have hid : t.id ∈ kept ++ new := hids ▸ List.mem_map.2 ⟨t, ht, rfl⟩
  rcases List.mem_append.1 hid with hid | hid
  · obtain ⟨u, hu, hut⟩ := List.mem_map.1 (hsub.subset hid)
    exact hut ▸ hn.threads u hu
  · exact Nat.lt_of_lt_of_le hn.next (hnew _ hid)

theorem counted_of_reachable (hw : w.Reachable) : w.Counted := by
  induction hw with
  | blank settings host dice => exact ⟨Nat.one_pos, fun t ht => by cases ht⟩
  | deed hw hd ih => exact ih.of_follows (hd.conserves.follows (settled_of_reachable hw))
  | step hext hw hstep ih =>
    exact ih.of_follows (follows_of_step hext (settled_of_reachable hw) hstep)

/-- So they are in the middle of a pass. -/
theorem Counted.of_amid (hn : w.Counted) (ha : Amid w finished w') {t : Thread}
    (ht : t ∈ w'.threads ++ w'.spawned) : 0 < t.id := by
  rcases List.mem_append.1 ht with ht | ht
  · obtain ⟨u, hu, hut⟩ := List.mem_map.1 (ha.mem_of_mem ht)
    exact hut ▸ hn.threads u hu
  · have hid : t.id ∈ issued w w' := ha.spawned ▸ List.mem_map.2 ⟨t, ht, rfl⟩
    exact Nat.lt_of_lt_of_le hn.next (List.mem_range'_1.1 hid).1

/-- The thread of a turn is back in its place when the turn is over. -/
theorem mem_of_visitAt {p : Pass σ} {i : Nat} {t : Thread} {s : Scene σ}
    (ha : Amid w finished p.world) (ht : p.world.threads[i]? = some t)
    (ha' : Amid w finished { s.world with threads := s.world.threads.set i s.thread }) :
    s.thread ∈ s.world.threads.set i s.thread := by
  have hlen := congrArg List.length (ha'.threads.trans ha.threads.symm)
  simp only [List.length_map, List.length_set] at hlen
  exact List.mem_set (hlen ▸ (List.getElem?_eq_some_iff.1 ht).1) _

/-- Behind its rounds a step gives no more turns. -/
theorem exists_meanwhile_of_step {ext : Extensions σ} {fuel : Nat} {ended : List ThreadId}
    (hw : w.Settled) (h : w.step ext fuel = some (w', ended)) :
    ∃ p, w.roundsOfStep ext fuel = some (p, ended) ∧ Meanwhile p.world w' := by
  obtain ⟨p, hp, rfl⟩ := exists_rounds_of_step hw.idle h
  have hevents : Meanwhile (afterPass p) (afterPass p).dispatchEvents :=
    .of_descends (tends_dispatchEvents _).descends
  exact ⟨p, hp, ((aside_afterPass p).meanwhile.trans hevents).trans
    (.of_subset rfl (List.Subset.refl _))⟩

end World

/-! ### What is written down of a turn -/

/-- What is written down of the turn of a thread, with the extensions and the fuel of its step. -/
abbrev Log (σ β : Type) := Extensions σ → Nat → Scheduler → World σ → Thread → List β

namespace Log

variable {β σ : Type} (log : Log σ β) (ext : Extensions σ) (fuel : Nat)

/-- What is written down of the turn at a place. -/
def visitAt (p : Pass σ) (i : Nat) : List β :=
  match p.world.threads[i]? with
  | none => []
  | some t => log ext fuel p.scheduler { p.world with threads := p.world.threads.set i .absent } t

/-- What is written down of a step. -/
def step (w : World σ) : List β := w.journal (log.visitAt ext fuel) ext fuel

/-- More is written down about each entry. -/
theorem flatMap_step {γ : Type} {log' : Log σ γ} {f : β → List γ}
    (hf : ∀ ext fuel k w t, (log ext fuel k w t).flatMap f = log' ext fuel k w t) (w : World σ) :
    (log.step ext fuel w).flatMap f = log'.step ext fuel w := by
  rw [step, step, World.flatMap_journal]
  congr
  funext p i
  unfold visitAt
  split
  · rfl
  · exact hf ..

/-- What is written down keeps to a diary. -/
def Keeps (D : Diary β) : Prop :=
  ∀ {ext : Extensions σ}, ext.Orderly → ∀ (fuel : Nat) (k : Scheduler) (w : World σ) (t : Thread),
    D.Visits t (log ext fuel k w t) (Pass.visit ext fuel k w t)

end Log

namespace Diary

variable {β σ : Type} {D : Diary β} {log : Log σ β} {ext : Extensions σ} {fuel : Nat}
  {w w' : World σ} {id : ThreadId} {finished : List ThreadId} {l : List β}

/-- **A turn**: its entries are about the thread at its place, and all others wait. -/
theorem leads_visitAt (hlog : log.Keeps D) (hext : ext.Orderly) (hw : w.Settled) (hn : w.Counted)
    {p p' : Pass σ} {i : Nat} (ha : Amid w finished p.world)
    (h : Pass.visitAt ext fuel p i = some p') :
    D.Leads id p.world (log.visitAt ext fuel p i) p'.world := by
  have ha' := Pass.amid_visitAt hext hw ha h
  unfold Log.visitAt
  obtain ⟨ht, rfl⟩ | ⟨t, k, s, ht, hv, rfl⟩ := Pass.visitAt_cases h
  · rw [ht]
    exact leads_of_meanwhile (.refl _)
  · simp only [ht]
    have hvisits := hlog hext fuel p.scheduler
      { p.world with threads := p.world.threads.set i .absent } t
    have hmean := (upheld_meanwhile hext).visit hv
    have hmem : t ∈ p.world.threads ++ p.world.spawned :=
      List.mem_append_left _ (List.mem_of_getElem? ht)
    have hids := hvisits.ids
    have hlt : ∀ b ∈ log ext fuel p.scheduler
        { p.world with threads := p.world.threads.set i .absent } t,
        D.id b < s.world.nextThread := fun b hb =>
      hids b hb ▸ Nat.lt_of_lt_of_le (ha.lt hw t hmem) hmean.next_le
    by_cases hown : t.id = id
    · have hself := D.own_eq_self fun b hb => (hids b hb).trans hown
      -- no other thread has the id of the one that is back in its place
      have hback : ∀ t' ∈ s.world.threads.set i s.thread ++ s.world.spawned, t'.id = id →
          t' = s.thread := fun t' ht' htid =>
        List.inj_on_of_nodup_map (ha'.nodup hw) ht'
          (List.mem_append_left _ (mem_of_visitAt ha ht ha'))
          (htid.trans (hown.symm.trans (Pass.conserves_visit hext hv).id.symm))
      have hlast := hvisits.last k s hv
      refine ⟨⟨?_, fun b hb => ?_⟩, hmean.next_le, hlt, fun hnil t' ht' htid _ => ?_,
        fun b hb t' ht' htid => ?_⟩
      · rw [hself]
        exact hvisits.chain
      · rw [hself] at hb
        exact fun _ => ⟨t, hmem, hown, hvisits.first b hb⟩
      · rw [hself] at hnil
        rw [hnil] at hlast
        exact ⟨t, hmem, hown, hback t' ht' htid ▸ hlast⟩
      · rw [hself] at hb
        rw [Option.mem_def.1 hb] at hlast
        exact hback t' ht' htid ▸ hlast
    · have hnil := D.own_eq_nil fun b hb => (hids b hb).symm ▸ hown
      refine ⟨⟨hnil ▸ .nil, fun b hb => ?_⟩, hmean.next_le, hlt, fun _ t' ht' htid hid => ?_,
        fun b hb => ?_⟩
      · rw [hnil] at hb
        cases hb
      · have hpos : 0 < t'.id := hn.of_amid ha' ht'
        have hold : t' ∈ s.world.threads ++ s.world.spawned :=
          (Thread.mem_set ht').resolve_right fun he =>
            hown ((Pass.conserves_visit hext hv).id.symm.trans (he ▸ htid))
        rcases hmean.origin t' hold with hnew | ⟨t₀, ht₀, hwaited⟩
        · exact absurd (htid ▸ hnew) (Nat.not_le.2 hid)
        · -- the one that stands in for the thread of the turn has no id
          refine ⟨t₀, ?_, hwaited.id.symm.trans htid, D.waited hwaited⟩
          rcases Thread.mem_set ht₀ with hm | rfl
          · exact hm
          · exact absurd hwaited.id (Nat.ne_of_gt hpos)
      · rw [hnil] at hb
        cases hb

/-- The entries of a turn that may not come to its end. -/
theorem begins_visitAt (hlog : log.Keeps D) (hext : ext.Orderly) (p : Pass σ) (i : Nat) :
    D.Begins id p.world (log.visitAt ext fuel p i) := by
  unfold Log.visitAt
  cases ht : p.world.threads[i]? with
  | none => exact ⟨.nil, fun _ hb => by cases hb⟩
  | some t =>
    have hvisits := hlog hext fuel p.scheduler
      { p.world with threads := p.world.threads.set i .absent } t
    simp only
    by_cases hown : t.id = id
    · have hself := D.own_eq_self fun b hb => (hvisits.ids b hb).trans hown
      refine ⟨?_, fun b hb => ?_⟩
      · rw [hself]
        exact hvisits.chain
      · rw [hself] at hb
        exact fun _ =>
          ⟨t, List.mem_append_left _ (List.mem_of_getElem? ht), hown, hvisits.first b hb⟩
    · have hnil := D.own_eq_nil fun b hb => (hvisits.ids b hb).symm ▸ hown
      refine ⟨hnil ▸ .nil, fun b hb => ?_⟩
      rw [hnil] at hb
      cases hb

theorem annals_leads (hlog : log.Keeps D) (hext : ext.Orderly) (hw : w.Settled) (hn : w.Counted)
    (fuel : Nat) (id : ThreadId) :
    Annals ext fuel (log.visitAt ext fuel) w (D.Leads id) (D.Begins id) where
  append := Leads.append
  stop h h' := h.begins_append h'
  ends h := h.toBegins
  aside ha := leads_of_meanwhile ha.meanwhile
  visit ha hv := leads_visitAt hlog hext hw hn ha hv
  halt _ _ := begins_visitAt hlog hext _ _

/-- The entries of a step follow each other, also when the step does not come to its end. -/
theorem leads_step (hlog : log.Keeps D) (hext : ext.Orderly) (hw : w.Settled) (hn : w.Counted)
    (fuel : Nat) (id : ThreadId) : D.Begins id w (log.step ext fuel w) ∧ ∀ w' ended,
      w.step ext fuel = some (w', ended) → D.Leads id w (log.step ext fuel w) w' := by
  obtain ⟨hbegins, hend⟩ := annals_step (annals_leads hlog hext hw hn fuel id) hext hw
  refine ⟨hbegins, fun w' ended hstep => ?_⟩
  obtain ⟨p, hp, hafter⟩ := exists_meanwhile_of_step hw hstep
  have happ := (hend p ended hp).append (leads_of_meanwhile hafter)
  rwa [List.append_nil] at happ

end Diary

/-! ### Runs -/

namespace World

variable {β σ : Type}

/-- A run of a world with what is written down of its steps: what a host does, and the steps in
between, with extensions that may be others in every step. Hosts and extensions are of one kind. -/
inductive Recounts (log : Log σ β) (D : World σ → World σ → Prop) (P : Extensions σ → Prop) :
    World σ → List β → World σ → Prop
  | nil (w : World σ) : Recounts log D P w [] w
  | deed {w w₁ w' : World σ} {rest : List β} :
      D w w₁ → Recounts log D P w₁ rest w' → Recounts log D P w rest w'
  | step {ext : Extensions σ} {fuel : Nat} {w w₁ w' : World σ} {ended : List ThreadId}
      {rest : List β} : P ext → w.step ext fuel = some (w₁, ended) →
      Recounts log D P w₁ rest w' → Recounts log D P w (log.step ext fuel w ++ rest) w'

namespace Recounts

variable {γ : Type} {log : Log σ β} {D D' : World σ → World σ → Prop} {P : Extensions σ → Prop}
  {w w' : World σ} {l : List β}

/-- Hosts may do more. -/
theorem mono (h : Recounts log D P w l w') (hD : ∀ {w w'}, D w w' → D' w w') :
    Recounts log D' P w l w' := by
  induction h with
  | nil w => exact .nil w
  | deed hd _ ih => exact .deed (hD hd) ih
  | step hext hstep _ ih => exact .step hext hstep ih

/-- More may be written down about each entry. -/
theorem flatMap (h : Recounts log D P w l w') {log' : Log σ γ} {f : β → List γ}
    (hf : ∀ ext fuel k w t, (log ext fuel k w t).flatMap f = log' ext fuel k w t) :
    Recounts log' D P w (l.flatMap f) w' := by
  induction h with
  | nil w => exact .nil w
  | deed hd _ ih => exact .deed hd ih
  | step hext hstep _ ih =>
    rw [List.flatMap_append, log.flatMap_step _ _ hf]
    exact .step hext hstep ih

end Recounts

end World

namespace Diary

variable {β σ : Type} {D : Diary β} {log : Log σ β} {ext : Extensions σ} {w w' : World σ}
  {l : List β} {P : Extensions σ → Prop}

theorem leads_of_recounts (hlog : log.Keeps D) (h : Recounts log Deed P w l w')
    (hP : ∀ ext, P ext → ext.Orderly) (hw : w.Settled) (hn : w.Counted) (id : ThreadId) :
    D.Leads id w l w' ∧ w'.Settled ∧ w'.Counted := by
  induction h with
  | nil w => exact ⟨leads_of_meanwhile (.refl w), hw, hn⟩
  | deed hd _ ih =>
    have hf := hd.conserves.follows hw
    obtain ⟨hleads, hend⟩ := ih hf.settled (hn.of_follows hf)
    have happ := (leads_of_meanwhile hd.meanwhile).append hleads
    exact ⟨happ, hend⟩
  | step hext hstep _ ih =>
    have hf := follows_of_step (hP _ hext) hw hstep
    obtain ⟨hleads, hend⟩ := ih hf.settled (hn.of_follows hf)
    exact ⟨((leads_step hlog (hP _ hext) hw hn _ id).2 _ _ hstep).append hleads, hend⟩

/-- **In a run the entries about a thread follow each other**, also in a step that has not come to
its end. -/
theorem chain_of_recounts (hlog : log.Keeps D) (hw : w.Reachable) (h : Recounts log Deed P w l w')
    (hP : ∀ ext, P ext → ext.Orderly) (hext : P ext) (fuel : Nat) (id : ThreadId) :
    (D.own id (l ++ log.step ext fuel w')).IsChain D.Next := by
  obtain ⟨hleads, hw', hn'⟩ :=
    leads_of_recounts hlog h hP (settled_of_reachable hw) (counted_of_reachable hw) id
  exact (hleads.begins_append (leads_step hlog (hP _ hext) hw' hn' fuel id).1).chain

end Diary

end Stagecraft
