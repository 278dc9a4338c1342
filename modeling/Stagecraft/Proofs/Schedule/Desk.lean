import Stagecraft.Proofs.Schedule.Channels
import Stagecraft.Proofs.Schedule.Halting

/-!
# Prompts and those who wait

A prompt stands in line until the user answers it, and the thread that asked is parked meanwhile.
Prompts and threads are kept apart: a thread may be stopped while its prompt stays in line. What
can be said of every moment is the other half: whoever waits does so alone, and for a prompt in line
or for an answer that has come.

* `Desk` : the prompts in line, what has come of channels, and the threads that may wait for that;
* `Desk.Posed` : **whoever waits does so for a prompt in line, or it has been answered**;
* `Desk.Minds` : what asks nothing and keeps to this;
* `Desk.Queries` : what asks one question;
* `World.minds_of_descends`, `World.minds_stopAll` : starting and stopping threads asks nothing.
-/

namespace Stagecraft

/-! ### The desk -/

/-- What has come of a channel, as polling would give it. -/
def World.result {σ : Type} (w : World σ) (c : Nat) : Option Delivery := (w.poll c).2

/-- The prompts in line, what has come of channels, and the threads. -/
structure Desk where
  /-- The channel that is given out next. -/
  next : Nat
  /-- The prompts, the one on screen first. -/
  prompts : List Prompt
  /-- What has come of a channel. -/
  result : Nat → Option Delivery
  /-- The threads, of which those that are parked wait for something. -/
  threads : List Thread

/-- The desk of a world. -/
def World.desk {σ : Type} (w : World σ) : Desk :=
  ⟨w.nextChannel, w.prompts, w.result, w.threads ++ w.spawned⟩

/-- The desk of a turn: the thread that has it is in none of the lists. -/
def Scene.desk {σ : Type} (s : Scene σ) : Desk :=
  { s.world.desk with threads := s.thread :: s.world.desk.threads }

namespace Desk

variable {D D' D'' : Desk} {c : Nat} {id id' : ThreadId}

/-- A thread waits for what comes of a channel. -/
def Awaits (D : Desk) (c : Nat) (id : ThreadId) : Prop :=
  ∃ t ∈ D.threads, t.id = id ∧ t.channel? = some c

/-- Prompts stand in line in the order in which they were asked, and have not been answered. Whoever
waits is parked, does so alone, and for a prompt in line, or it has been answered. -/
structure Posed (D : Desk) : Prop where
  order : D.prompts.Pairwise fun p q => p.channel < q.channel
  lt : ∀ p ∈ D.prompts, p.channel < D.next
  unanswered : ∀ p ∈ D.prompts, D.result p.channel = none
  parked : ∀ t ∈ D.threads, ∀ c, t.channel? = some c → t.status = .parked
  given : ∀ c id, D.Awaits c id → c < D.next
  once : ∀ c id id', D.Awaits c id → D.Awaits c id' → id = id'
  heard : ∀ c id, D.Awaits c id →
    (∃ p ∈ D.prompts, p.channel = c) ∨ ∃ a, D.result c = some (.resolved (.text a))

/-- Nothing is asked, and nobody begins to wait. -/
structure Minds (D D' : Desk) : Prop where
  next : D'.next = D.next
  prompts : D'.prompts ⊆ D.prompts
  awaits : ∀ c id, D'.Awaits c id → D.Awaits c id
  posed : D.Posed → D'.Posed

/-- A thread waits for nothing, or for what it waited for before. -/
def Stems (D : Desk) (t' : Thread) : Prop :=
  t'.channel? = none ∨ ∃ t ∈ D.threads, t.id = t'.id ∧ t.channel? = t'.channel? ∧
    (t.status = .parked → t'.status = .parked)

theorem stems_of_mem {t : Thread} (h : t ∈ D.threads) : D.Stems t := .inr ⟨t, h, rfl, rfl, id⟩

theorem Stems.handled {t t' : Thread} (hh : Thread.Handled t t') (h : D.Stems t) : D.Stems t' := by
  cases hh with
  | kept => exact h
  | stopped => exact .inl rfl
  | startedOver => exact .inl rfl

theorem Stems.atRest {t : Thread} (h : D.Stems t) : D.Stems t.atRest := by
  by_cases hr : t.restarting = true
  · rw [Thread.atRest, if_pos hr]
    exact .inl rfl
  · rw [Thread.atRest, if_neg hr]
    exact h

theorem Stems.awaits {t' : Thread} (h : D.Stems t') (hc : t'.channel? = some c) :
    D.Awaits c t'.id := by
  rcases h with hnone | ⟨t, ht, hid, he, -⟩
  · cases hnone.symm.trans hc
  · exact ⟨t, ht, hid, he.trans hc⟩

theorem Stems.parked {t' : Thread} (h : D.Stems t') (hD : D.Posed) (hc : t'.channel? = some c) :
    t'.status = .parked := by
  rcases h with hnone | ⟨t, ht, -, he, hst⟩
  · cases hnone.symm.trans hc
  · exact hst (hD.parked t ht c (he.trans hc))

namespace Minds

theorem refl (D : Desk) : D.Minds D := ⟨rfl, fun _ hp => hp, fun _ _ h => h, id⟩

theorem trans (h : D.Minds D') (h' : D'.Minds D'') : D.Minds D'' :=
  ⟨h'.next.trans h.next, fun _ hp => h.prompts (h'.prompts hp),
    fun c id ha => h.awaits c id (h'.awaits c id ha), fun hD => h'.posed (h.posed hD)⟩

/-- Threads are started and stopped, and prompts are left alone. Only what nobody waits for any more
is taken. -/
theorem of_results (hn : D'.next = D.next) (hp : D'.prompts = D.prompts)
    (hr : ∀ c, D'.result c = D.result c ∨
      D.result c ≠ none ∧ ∀ t' ∈ D'.threads, t'.channel? ≠ some c)
    (h : ∀ t' ∈ D'.threads, D.Stems t') : D.Minds D' := by
  have hawaits : ∀ c id, D'.Awaits c id → D.Awaits c id := by
    rintro c _ ⟨t', ht', rfl, hc⟩
    exact (h t' ht').awaits hc
  refine ⟨hn, hp ▸ List.Subset.refl _, hawaits, fun hD => ?_⟩
  exact
    { order := hp ▸ hD.order
      lt := hp ▸ hn ▸ hD.lt
      unanswered := fun p hmem => by
        have hnone := hD.unanswered p (hp ▸ hmem)
        exact (hr p.channel).elim (·.trans hnone) fun htaken => absurd hnone htaken.1
      parked := fun t' ht' c hc => (h t' ht').parked hD hc
      given := fun c id ha => hn ▸ hD.given c id (hawaits c id ha)
      once := fun c id id' ha ha' => hD.once c id id' (hawaits c id ha) (hawaits c id' ha')
      heard := fun c id ha => by
        obtain ⟨t', ht', -, hc⟩ := ha
        have hsame := (hr c).resolve_right fun htaken => htaken.2 t' ht' hc
        rw [hp, hsame]
        exact hD.heard c t'.id ((h t' ht').awaits hc) }

/-- Results are left alone as well. -/
theorem of_stems (hn : D'.next = D.next) (hp : D'.prompts = D.prompts)
    (hr : D'.result = D.result) (h : ∀ t' ∈ D'.threads, D.Stems t') : D.Minds D' :=
  of_results hn hp (fun _ => .inl (by rw [hr])) h

/-- All prompts are dropped, and nobody waits any more. -/
theorem of_cleared (hn : D'.next = D.next) (hp : D'.prompts = [])
    (h : ∀ t ∈ D'.threads, t.channel? = none) : D.Minds D' := by
  have hnobody : ∀ c id, ¬D'.Awaits c id := by
    rintro c id ⟨t, ht, -, hc⟩
    cases (h t ht).symm.trans hc
  refine ⟨hn, hp ▸ List.nil_subset _, fun c id ha => absurd ha (hnobody c id), fun _ => ?_⟩
  exact
    { order := hp ▸ .nil
      lt := fun p hmem => by cases hp ▸ hmem
      unanswered := fun p hmem => by cases hp ▸ hmem
      parked := fun t ht c hc => by cases (h t ht).symm.trans hc
      given := fun c id ha => absurd ha (hnobody c id)
      once := fun c id _ ha => absurd ha (hnobody c id)
      heard := fun c id ha => absurd ha (hnobody c id) }

end Minds

/-- One question is asked, by a thread that waits for the answer. -/
structure Queries (D D' : Desk) (p : Prompt) (asker : ThreadId) : Prop where
  channel : p.channel = D.next
  next : D'.next = D.next + 1
  prompts : ∀ q ∈ D'.prompts, q ∈ D.prompts ∨ q = p
  awaits : ∀ c id, D'.Awaits c id → D.Awaits c id ∨ c = p.channel ∧ id = asker
  posed : D.Posed → D'.Posed

variable {p : Prompt} {asker : ThreadId}

theorem Minds.queries (h : D.Minds D') (h' : D'.Queries D'' p asker) : D.Queries D'' p asker := by
  refine ⟨h'.channel.trans h.next, h.next ▸ h'.next, fun q hq => ?_, fun c id ha => ?_,
    fun hD => h'.posed (h.posed hD)⟩
  · exact (h'.prompts q hq).imp_left fun hold => h.prompts hold
  · exact (h'.awaits c id ha).imp_left (h.awaits c id)

theorem Queries.minds (h : D.Queries D' p asker) (h' : D'.Minds D'') : D.Queries D'' p asker :=
  ⟨h.channel, h'.next.trans h.next, fun q hq => h.prompts q (h'.prompts hq),
    fun c id ha => h.awaits c id (h'.awaits c id ha), fun hD => h'.posed (h.posed hD)⟩

end Desk

namespace World

variable {σ : Type} {w w' : World σ}

/-- What stems from the threads of a world does so after they were started and stopped. -/
theorem Descends.stems {D : Desk} (h : Descends w w')
    (hw : ∀ t ∈ w.threads ++ w.spawned, D.Stems t) : ∀ t ∈ w'.threads ++ w'.spawned, D.Stems t :=
  h.keeps_threads (fun _ _ _ => .inl rfl) Desk.Stems.handled hw

/-- What has come of a channel can be seen from it. -/
theorem result_congr {c : Nat} (h : w'.channels.get? c = w.channels.get? c) :
    w'.result c = w.result c := by
  unfold result poll
  rw [h]
  split <;> rfl

theorem result_eq (hm : SameMail w w') : w'.result = w.result :=
  funext fun _ => result_congr (by rw [hm.channels])

/-- Threads are started and stopped. -/
theorem minds_of_descends (h : Descends w w') (hm : SameMail w w') : w.desk.Minds w'.desk :=
  .of_stems hm.nextChannel hm.prompts (result_eq hm) (h.stems fun _ ht => Desk.stems_of_mem ht)

/-- When everything is stopped, no prompt is left and nobody waits. -/
theorem cleared_stopAll (w : World σ) : w.stopAll.nextChannel = w.nextChannel ∧
    w.stopAll.prompts = [] ∧
      ∀ t ∈ w.stopAll.threads ++ w.stopAll.spawned, t.channel? = none := by
  obtain ⟨w₁, hmail, htends, he⟩ := w.stopAll_eq_clearPrompts
  obtain ⟨channels, hclear⟩ := w₁.clearPrompts_eq
  rw [he, hclear]
  refine ⟨hmail.nextChannel, rfl, ?_⟩
  refine htends.descends.keeps_threads (R := fun t => t.channel? = none) (fun _ _ _ => rfl) ?_ ?_
  · intro t t' hh ht
    exact (channel?_handled hh).elim id fun hsame => hsame.trans ht
  · intro t ht
    simp only [mapThreads, ← List.map_append] at ht
    obtain ⟨u, -, rfl⟩ := List.mem_map.1 ht
    rfl

theorem minds_stopAll (w : World σ) : w.desk.Minds w.stopAll.desk := by
  obtain ⟨hn, hp, ht⟩ := w.cleared_stopAll
  exact .of_cleared hn hp ht

/-- Polling another channel changes nothing. -/
theorem result_poll_of_ne {c c' : Nat} (h : c' ≠ c) : (w.poll c).1.result c' = w.result c' := by
  refine result_congr ?_
  unfold poll
  split
  · exact Table.get?_insert_of_ne _ h _
  · rfl

/-- Nor does polling while nothing has come. -/
theorem result_poll_of_none {c : Nat} (h : w.result c = none) : (w.poll c).1.result = w.result := by
  -- polling takes something out only if it gives something
  have hsame : ∀ ch : Channel, ch.poll.2 = none → ch.poll.1 = ch := by
    intro ch hnone
    unfold Channel.poll at hnone ⊢
    split <;> simp_all
  have hch : (w.poll c).1.channels.get? c = w.channels.get? c := by
    unfold result poll at h
    unfold poll
    split
    · rename_i ch hget
      rw [hget] at h
      simp only [Table.get?_insert_self, hsame ch h, hget]
    · rfl
  funext c'
  by_cases hc : c' = c
  · exact result_congr (hc ▸ hch)
  · exact result_poll_of_ne hc

end World

end Stagecraft
