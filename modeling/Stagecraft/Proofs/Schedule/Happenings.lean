import Stagecraft.Proofs.Schedule.Asking
import Stagecraft.Proofs.Schedule.Resumption
import Stagecraft.Proofs.Schedule.Staged

/-!
# What becomes of a question

A thread that waits for an answer can lose its wait in the turn of another thread, between turns, or
at the end of its own turn: it is stopped, or it starts over. Its prompt stays in line then, and
nobody waits for it any more. If all that happens is written down, then so is whether somebody still
waits for a prompt.

* `Scene.Spans`, `Pass.spans_visit` : **what a visit does to prompts and those who wait**;
* `Happening` : a turn, or what is done between turns;
* `Happening.Bereaves` : a thread that waits is stopped or starts over;
* `Happening.Fair` : what can be said of everything that happens;
* `World.Recorded`, `Happening.Fair.recorded` : **what is known of prompts from all that happened**;
* `Pass.fair_visitAt` : turns are fair;
* `World.Recorded.step` : **so what is known before a step is known after it**.
-/

namespace Stagecraft

namespace Scene

variable {σ : Type} {s s₀ s' : Scene σ} {l : List (Execution σ)}

/-- What a visit does: it asks nothing, or its last block asks. -/
inductive Spans (s : Scene σ) (l : List (Execution σ)) (s' : Scene σ) : Prop
  | silent : s.desk.Minds s'.desk → (∀ e ∈ l, ∀ c, ¬e.Waits c) → Spans s l s'
  | asks {e : Execution σ} {p : Prompt} : e ∈ l → e.Asks p →
      s.desk.Queries s'.desk p e.executed.1.thread.id → (∀ x ∈ l, ∀ c, x.Waits c → c = p.channel) →
      s'.thread.Sticks p.channel → Spans s l s'

/-- A turn is the main part of a visit. -/
theorem Sits.spans (h : Sits s₀ l s') (hs : s₀.thread.channel? = none) (hD : s.desk.Posed)
    (hminds : s.desk.Minds s₀.desk) : Spans s l s' := by
  cases h with
  | silent hsilent hl => exact .silent (hminds.trans (hsilent hs).2) hl
  | asks he hp hl =>
    exact .asks he (hp.asks hs (hminds.posed hD)) (hminds.queries (hp.queries hs)) hl hp.fate

end Scene

namespace Pass

open Scene World

variable {σ : Type} {k k' : Scheduler} {w : World σ} {t : Thread} {s : Scene σ}

/-- A parked thread looks for its answer: it goes on waiting, or it waits for nothing any more. -/
theorem Woken.minds {r : Scene σ × Bool} (h : Woken k w t r) (hD : (desk ⟨w, t⟩).Posed)
    (hid : ∀ u ∈ w.threads ++ w.spawned, u.channel? ≠ none → u.id ≠ t.id) :
    (desk ⟨w, t⟩).Minds r.1.desk ∧ (r.1.thread.channel? = none ∨ r.2 = false) ∧
      ∀ c, t.channel? = some c → w.result c = none → r.1.thread = t := by
  have hawaited : ∀ {p : Pending}, t.pending = some p → t.channel? = some p.channel := fun hp => by
    rw [Thread.channel?, hp, Option.map_some]
  cases h with
  | free hp =>
    have hidle : t.channel? = none := by rw [Thread.channel?, hp, Option.map_none]
    exact ⟨minds_of_thread rfl rfl (.refl w) (.inl hidle), .inl hidle,
      fun c hc => by cases hidle.symm.trans hc⟩
  | waits hp hpoll =>
    have hsame := result_poll_of_none (congrArg Prod.snd hpoll)
    rw [hpoll] at hsame
    exact ⟨.of_stems rfl rfl hsame fun u hu => Desk.stems_of_mem hu, .inr rfl, fun _ _ _ => rfl⟩
  | @takesIn p channels v t' on hp hpoll htake =>
    have hr : w.result p.channel = some (.resolved v) := congrArg Prod.snd hpoll
    have hidle : t'.channel? = none := (takenIn_of_takeIn htake).channel?
    refine ⟨.of_results rfl rfl (fun c => ?_) fun u hu => ?_, .inl hidle, fun c hc hnone => ?_⟩
    · by_cases hc : c = p.channel
      · subst hc
        refine .inr ⟨fun hnone => (by cases hr.symm.trans hnone), fun u hu hc => ?_⟩
        rcases List.mem_cons.1 hu with rfl | hu
        · cases hidle.symm.trans hc
        · -- it would be another thread that waits for the same
          refine hid u hu (by rw [hc]; simp) ?_
          exact hD.once _ _ _ ⟨u, List.mem_cons_of_mem _ hu, rfl, hc⟩
            ⟨t, List.mem_cons_self .., rfl, hawaited hp⟩
      · have hother := result_poll_of_ne (w := w) hc
        rw [hpoll] at hother
        exact .inl hother
    · rcases List.mem_cons.1 hu with rfl | hu
      · exact .inl hidle
      · exact Desk.stems_of_mem (List.mem_cons_of_mem _ hu)
    · cases (hawaited hp).symm.trans hc
      cases hr.symm.trans hnone
  | @refused p channels reason hp hpoll =>
    -- what is waited for is not rejected
    have hr : w.result p.channel = some (.rejected reason) := congrArg Prod.snd hpoll
    rcases hD.heard p.channel t.id ⟨t, List.mem_cons_self .., rfl, hawaited hp⟩ with
      ⟨q, hq, hc⟩ | ⟨a, ha⟩
    · cases hr.symm.trans (hc ▸ hD.unanswered q hq)
    · cases hr.symm.trans ha

/-- **What a visit does.** A thread whose answer has not come goes on waiting. -/
theorem spans_visit {fuel : Nat} (hD : (desk ⟨w, t⟩).Posed)
    (hid : ∀ u ∈ w.threads ++ w.spawned, u.channel? ≠ none → u.id ≠ t.id)
    (h : visit .empty fuel k w t = some (k', s)) :
    Spans ⟨w, t⟩ (visitExecutions .empty fuel k w t) s ∧
      ∀ c, t.channel? = some c → w.result c = none → s.thread.channel? = some c := by
  have hidle : t.status ≠ .parked → t.channel? = none := by
    intro hst
    cases hc : t.channel? with
    | none => rfl
    | some c => exact absurd (hD.parked t (List.mem_cons_self ..) c hc) hst
  revert h
  refine visitExecutions_cases (P := fun l o => o = some (k', s) → Spans ⟨w, t⟩ l s ∧
    ∀ c, t.channel? = some c → w.result c = none → s.thread.channel? = some c)
    (fun h => ?passed) (fun hst h => ?runs) (fun s₀ _ he h => ?wakes) (fun s₀ _ he h => ?waits)
  case passed =>
    cases h
    exact ⟨.silent (.refl _) fun _ he => (by cases he), fun c hc _ => hc⟩
  case runs =>
    have ht := hidle (by rcases hst with hst | hst <;> simp [hst])
    exact ⟨(sits_letRun ht h).spans ht hD (.refl _), fun c hc => by cases ht.symm.trans hc⟩
  case wakes =>
    obtain ⟨hminds, hwoken, hstill⟩ := (woken_of_wake he).minds hD hid
    have hs₀ : s₀.thread.channel? = none := hwoken.resolve_right (by simp)
    refine ⟨(sits_letRun hs₀ h).spans hs₀ hD hminds, fun c hc hnone => ?_⟩
    rw [hstill c hc hnone] at hs₀
    cases hs₀.symm.trans hc
  case waits =>
    obtain ⟨hminds, -, hstill⟩ := (woken_of_wake he).minds hD hid
    cases h
    have hrest : s₀.desk.Minds (desk ⟨s₀.world, { s₀.thread with warpSince := none }⟩) :=
      minds_of_thread rfl rfl (.refl _)
        (.inr ⟨s₀.thread, List.mem_cons_self .., rfl, rfl, id⟩)
    refine ⟨.silent (hminds.trans hrest) fun _ he => (by cases he), fun c hc hnone => ?_⟩
    change s₀.thread.channel? = some c
    rw [hstill c hc hnone]
    exact hc

end Pass

/-! ### What happens in a run -/

/-- Something that happens in a run: a turn with the blocks that it executes, the start of events,
or what a host does. -/
structure Happening (σ : Type) where
  /-- The world before. -/
  before : World σ
  /-- The world after. -/
  after : World σ
  /-- The blocks that are executed meanwhile. -/
  blocks : List (Execution σ)

namespace Happening

variable {σ : Type} (h : Happening σ) {c : Nat} {id : ThreadId}

/-- A thread waits before, or a block of it lets it wait meanwhile. -/
def Concerns (c : Nat) (id : ThreadId) : Prop :=
  h.before.desk.Awaits c id ∨ ∃ e ∈ h.blocks, e.thread.id = id ∧ e.Waits c

/-- A thread that waits, or that begins to, has been stopped afterwards or starts over. A thread
that is not in the lists any more was stopped. -/
def Bereaves (c : Nat) : Prop :=
  ∃ id, h.Concerns c id ∧ ∀ t ∈ h.after.threads ++ h.after.spawned, t.id = id → t.Lapsed

/-- What can be said of everything that happens. Only blocks that ask put prompts in line, and only
their threads begin to wait. Whoever waits for a prompt in line goes on waiting, was stopped, or
starts over. -/
structure Fair : Prop where
  next_le : h.before.nextChannel ≤ h.after.nextChannel
  prompts : ∀ p ∈ h.after.prompts, p ∈ h.before.prompts ∨ ∃ e ∈ h.blocks, e.Asks p
  awaits : ∀ c id, h.after.desk.Awaits c id → h.Concerns c id
  waits : ∀ e ∈ h.blocks, ∀ c, e.Waits c → h.before.nextChannel ≤ c ∧ c < h.after.nextChannel
  once : ∀ c id id', h.Concerns c id → h.Concerns c id' → id = id'
  fates : ∀ p ∈ h.after.prompts, ∀ id, h.Concerns p.channel id →
    ∀ t ∈ h.after.threads ++ h.after.spawned, t.id = id → t.Sticks p.channel
  posed : h.after.desk.Posed

end Happening

namespace World

variable {σ : Type} {w : World σ} {l : List (Happening σ)}

/-- What is known of the prompts of a world from what has happened. -/
structure Recorded (w : World σ) (l : List (Happening σ)) : Prop where
  posed : w.desk.Posed
  asked : ∀ p ∈ w.prompts, ∃ h ∈ l, ∃ e ∈ h.blocks, e.Asks p ∧
    (∀ id, w.desk.Awaits p.channel id → id = e.thread.id) ∧
    ((∃ id, w.desk.Awaits p.channel id) ∨ ∃ h ∈ l, h.Bereaves p.channel)
  bereaved : ∀ h ∈ l, ∀ c, h.Bereaves c → c < w.nextChannel ∧ ∀ id, ¬w.desk.Awaits c id

end World

namespace Happening.Fair

open World

variable {σ : Type} {h : Happening σ} {l : List (Happening σ)} {c : Nat} {id : ThreadId}

/-- Whoever has to do with a channel that was given out before waits for it already. -/
theorem awaits_of_lt (hf : h.Fair) (hc : c < h.before.nextChannel) (ha : h.Concerns c id) :
    h.before.desk.Awaits c id :=
  ha.resolve_right fun ⟨e, he, _, hwaits⟩ => absurd hc (Nat.not_lt.2 (hf.waits e he c hwaits).1)

/-- **If nobody waits for a prompt in line that was waited for, its thread was stopped or starts
over.** -/
theorem bereaves (hf : h.Fair) {p : Prompt} (hp : p ∈ h.after.prompts)
    (hc : h.Concerns p.channel id) (hnobody : ¬∃ id, h.after.desk.Awaits p.channel id) :
    h.Bereaves p.channel := by
  refine ⟨id, hc, fun t ht hid => (hf.fates p hp id hc t ht hid).resolve_left fun hwaits => ?_⟩
  exact hnobody ⟨t.id, t, ht, rfl, hwaits⟩

/-- Nobody waits any more where a thread was bereaved. -/
theorem not_awaits (hf : h.Fair) (hb : h.Bereaves c) : ∀ id, ¬h.after.desk.Awaits c id := by
  rintro id' ha
  obtain ⟨id, hc, hlapsed⟩ := hb
  cases hf.once c id id' hc (hf.awaits c id' ha)
  obtain ⟨t, ht, hid, hwaits⟩ := ha
  exact (hlapsed t ht hid).status (hf.posed.parked t ht c hwaits)

/-- **What happens is recorded.** -/
theorem recorded (hf : h.Fair) (hw : h.before.Recorded l) : h.after.Recorded (l ++ [h]) := by
  have hnew : h ∈ l ++ [h] := List.mem_append_right _ (List.mem_singleton_self h)
  refine ⟨hf.posed, fun p hp => ?_, fun h' hh' c hb => ?_⟩
  · rcases hf.prompts p hp with hold | ⟨e, he, hasks⟩
    · -- its channel was given out before, so nobody has begun to wait for it
      obtain ⟨h₀, hh₀, e, he, hasks, hasker, hwaits⟩ := hw.asked p hold
      have hlt : p.channel < h.before.nextChannel := hw.posed.lt p hold
      refine ⟨h₀, List.mem_append_left _ hh₀, e, he, hasks, fun id ha => ?_, ?_⟩
      · exact hasker id (hf.awaits_of_lt hlt (hf.awaits _ id ha))
      · rcases hwaits with ⟨id, ha⟩ | ⟨h', hh', hb⟩
        · by_contra hnone
          obtain ⟨hnobody, hnot⟩ := not_or.1 hnone
          exact hnot ⟨h, hnew, hf.bereaves hp (.inl ha) hnobody⟩
        · exact .inr ⟨h', List.mem_append_left _ hh', hb⟩
    · have hconcerns : h.Concerns p.channel e.thread.id := .inr ⟨e, he, rfl, hasks.waits⟩
      refine ⟨h, hnew, e, he, hasks, fun id ha => ?_, ?_⟩
      · exact hf.once _ _ _ (hf.awaits _ id ha) hconcerns
      · by_contra hnone
        obtain ⟨hnobody, hnot⟩ := not_or.1 hnone
        exact hnot ⟨h, hnew, hf.bereaves hp hconcerns hnobody⟩
  · rcases List.mem_append.1 hh' with hh' | hh'
    · obtain ⟨hlt, hnobody⟩ := hw.bereaved h' hh' c hb
      refine ⟨Nat.lt_of_lt_of_le hlt hf.next_le, fun id ha => ?_⟩
      exact hnobody id (hf.awaits_of_lt hlt (hf.awaits c id ha))
    · cases List.mem_singleton.1 hh'
      refine ⟨?_, hf.not_awaits hb⟩
      obtain ⟨id, ha | ⟨e, he, -, hwaits⟩, -⟩ := hb
      · exact Nat.lt_of_lt_of_le (hw.posed.given c id ha) hf.next_le
      · exact (hf.waits e he c hwaits).2

end Happening.Fair

/-! ### Turns, and what lies between them -/

/-- A thread leaves the list for its turn. -/
theorem World.minds_leave {σ : Type} {w : World σ} {i : Nat} {t : Thread}
    (hi : w.threads[i]? = some t) :
    w.desk.Minds (Scene.desk ⟨{ w with threads := w.threads.set i .absent }, t⟩) := by
  refine .of_stems rfl rfl (result_eq ⟨rfl, rfl, rfl, rfl⟩) fun u hu => ?_
  rcases List.mem_cons.1 hu with rfl | hu
  · exact Desk.stems_of_mem (List.mem_append_left _ (List.mem_of_getElem? hi))
  · rcases Thread.mem_set hu with hu | rfl
    · exact Desk.stems_of_mem hu
    · exact .inl rfl

/-- It comes back to its place. -/
theorem Scene.minds_return {σ : Type} (s : Scene σ) (i : Nat) :
    s.desk.Minds (World.desk { s.world with threads := s.world.threads.set i s.thread }) := by
  refine .of_stems rfl rfl (World.result_eq ⟨rfl, rfl, rfl, rfl⟩) fun u hu => Desk.stems_of_mem ?_
  exact List.mem_cons.2 (Thread.mem_set hu).symm

namespace Thread

/-- Between its turns a thread goes on waiting, is stopped, or starts over. -/
theorem Waited.sticks {t t' : Thread} {c : Nat} (h : Waited t t') (hst : t.status = .parked)
    (hc : t.channel? = some c) : t'.Sticks c := by
  have hdue : t.due = t := if_neg (by rw [hst]; simp)
  rw [Waited, hdue, or_self] at h
  refine h.lapsed.imp_left fun he => ?_
  rw [he]
  exact hc

end Thread

namespace World

open Thread

variable {σ : Type} {w w' : World σ} {c : Nat}

/-- So it is for a thread that is looked up by its id. -/
theorem sticks_of_origin (hnodup : ((w.threads ++ w.spawned).map (·.id)).Nodup)
    (hlt : ∀ t ∈ w.threads ++ w.spawned, t.id < w.nextThread) {t t' : Thread}
    (ht : t ∈ w.threads ++ w.spawned) (hst : t.status = .parked) (hc : t.channel? = some c)
    (hid : t'.id = t.id)
    (horigin : w.nextThread ≤ t'.id ∨ ∃ u ∈ w.threads ++ w.spawned, Waited u t') :
    t'.Sticks c := by
  rcases horigin with hnew | ⟨u, hu, hwaited⟩
  · exact absurd (hid ▸ hlt t ht) (Nat.not_lt.2 hnew)
  · cases List.inj_on_of_nodup_map hnodup hu ht (hwaited.id.symm.trans hid)
    exact hwaited.sticks hst hc

end World

namespace Happening

open World

variable {σ : Type} {h : Happening σ}

/-- What asks nothing is fair, if whoever waits for a prompt in line goes on waiting, is stopped, or
starts over. -/
theorem fair_of_minds (hD : h.before.desk.Posed) (hm : h.before.desk.Minds h.after.desk)
    (hl : ∀ e ∈ h.blocks, ∀ c, ¬e.Waits c)
    (hfates : ∀ p ∈ h.before.prompts, ∀ t ∈ h.before.threads ++ h.before.spawned,
      t.channel? = some p.channel → ∀ t' ∈ h.after.threads ++ h.after.spawned, t'.id = t.id →
        t'.Sticks p.channel) : h.Fair := by
  have hbefore : ∀ {c id}, h.Concerns c id → h.before.desk.Awaits c id := fun hc =>
    hc.resolve_right fun ⟨e, he, _, hwaits⟩ => hl e he _ hwaits
  refine ⟨Nat.le_of_eq hm.next.symm, fun p hp => .inl (hm.prompts hp),
    fun c id ha => .inl (hm.awaits c id ha), fun e he c hc => absurd hc (hl e he c),
    fun c id id' ha ha' => hD.once c id id' (hbefore ha) (hbefore ha'),
    fun p hp id ha t' ht' hid => ?_, hm.posed hD⟩
  obtain ⟨t, ht, rfl, hc⟩ := hbefore ha
  exact hfates p (hm.prompts hp) t ht hc t' ht' hid

/-- So is what asks one question. -/
theorem fair_of_queries (hD : h.before.desk.Posed) {e : Execution σ} {p : Prompt}
    (he : e ∈ h.blocks) (hasks : e.Asks p)
    (hq : h.before.desk.Queries h.after.desk p e.thread.id)
    (hl : ∀ x ∈ h.blocks, x.thread.id = e.thread.id ∧ ∀ c, x.Waits c → c = p.channel)
    (hfates : ∀ p ∈ h.before.prompts, ∀ t ∈ h.before.threads ++ h.before.spawned,
      t.channel? = some p.channel → ∀ t' ∈ h.after.threads ++ h.after.spawned, t'.id = t.id →
        t'.Sticks p.channel)
    (hown : ∀ t ∈ h.after.threads ++ h.after.spawned, t.id = e.thread.id → t.Sticks p.channel) :
    h.Fair := by
  -- the channel of the question is new
  have hnew : ∀ {c id}, h.before.desk.Awaits c id → c ≠ p.channel := fun ha =>
    hq.channel ▸ Nat.ne_of_lt (hD.given _ _ ha)
  have hconcerns : ∀ {c id}, h.Concerns c id →
      h.before.desk.Awaits c id ∨ c = p.channel ∧ id = e.thread.id := fun hc =>
    hc.imp_right fun ⟨x, hx, hid, hwaits⟩ =>
      ⟨(hl x hx).2 _ hwaits, hid.symm.trans (hl x hx).1⟩
  have hnext : h.after.nextChannel = p.channel + 1 := hq.next.trans (by rw [hq.channel])
  have hchannel : p.channel = h.before.nextChannel := hq.channel
  refine ⟨by omega, fun q hq' => ?_, fun c id ha => ?_, fun x hx c hc => ?_,
    fun c id id' ha ha' => ?_, fun q hq' id ha t' ht' hid => ?_, hq.posed hD⟩
  · refine (hq.prompts q hq').imp_right fun heq => ⟨e, he, ?_⟩
    rw [heq]
    exact hasks
  · refine (hq.awaits c id ha).imp_right fun ⟨hc, hid⟩ => ⟨e, he, hid.symm, ?_⟩
    rw [hc]
    exact hasks.waits
  · rw [(hl x hx).2 c hc]
    omega
  · rcases hconcerns ha with ha | ⟨hc, rfl⟩
    · exact hD.once c id id' ha ((hconcerns ha').resolve_right fun hc => hnew ha hc.1)
    · exact ((hconcerns ha').resolve_left fun ha' => hnew ha' hc).2.symm
  · rcases hconcerns ha with ha | ⟨hc, rfl⟩
    · have hold : q ∈ h.before.prompts :=
        (hq.prompts q hq').resolve_right fun heq => hnew ha (heq ▸ rfl)
      obtain ⟨t, ht, rfl, hc⟩ := ha
      exact hfates q hold t ht hc t' ht' hid
    · rw [hc]
      exact hown t' ht' hid

/-- **What lies between turns is fair**, if it asks nothing. -/
theorem fair_of_meanwhile (hs : h.before.Settled) (hD : h.before.desk.Posed)
    (hm : h.before.desk.Minds h.after.desk) (hb : h.blocks = [])
    (hmean : Meanwhile h.before h.after) : h.Fair := by
  have hl : ∀ e ∈ h.blocks, ∀ c, ¬e.Waits c := by
    rw [hb]
    exact fun e he => by cases he
  refine fair_of_minds hD hm hl fun p _ t ht hc t' ht' hid => ?_
  have hnodup : ((h.before.threads ++ h.before.spawned).map (·.id)).Nodup := by
    rw [hs.spawned, List.append_nil]
    exact hs.nodup
  have hlt : ∀ t ∈ h.before.threads ++ h.before.spawned, t.id < h.before.nextThread := by
    rw [hs.spawned, List.append_nil]
    exact hs.lt
  exact sticks_of_origin hnodup hlt ht (hD.parked t ht _ hc) hc hid (hmean.origin t' ht')

end Happening

namespace Pass

open Scene World Happening

variable {σ : Type} {w : World σ} {finished : List ThreadId}

/-- A turn, with the blocks that it executes. -/
def happenings (fuel : Nat) (p : Pass σ) (i : Nat) : List (Happening σ) :=
  ((visitAt .empty fuel p i).map fun p' =>
    ⟨p.world, p'.world, visitExecutions.visitAt .empty fuel p i⟩).toList

/-- **A turn is fair.** -/
theorem fair_visitAt (hw : w.Settled) (hn : w.Counted) {fuel i : Nat} {p p' : Pass σ}
    (ha : Amid w finished p.world) (hD : p.world.desk.Posed)
    (h : visitAt .empty fuel p i = some p') :
    Fair ⟨p.world, p'.world, visitExecutions.visitAt .empty fuel p i⟩ := by
  have hsound := sound_visitAt hw ha h
  have ha' := amid_visitAt orderly_empty hw ha h
  unfold Log.visitAt
  obtain ⟨hi, rfl⟩ | ⟨t, k, s, hi, hv, rfl⟩ := visitAt_cases h
  · rw [hi]
    refine fair_of_minds hD (.refl _) (fun _ he => by cases he) fun q _ t ht hc t' ht' hid => ?_
    exact sticks_of_origin (ha.nodup hw) (ha.lt hw) ht (hD.parked t ht _ hc) hc hid
      (.inr ⟨t', ht', .refl t'⟩)
  · rw [hi]
    have hmem : t ∈ p.world.threads ++ p.world.spawned :=
      List.mem_append_left _ (List.mem_of_getElem? hi)
    have hleave := minds_leave hi
    have hreturn := s.minds_return i
    obtain ⟨hspans, hstill⟩ := spans_visit (hleave.posed hD)
      (fun u hu _ => (misses_of_amid hw hn ha hi).apart u hu) hv
    have hid : s.thread.id = t.id := (conserves_visit orderly_empty hv).id
    have hids := (keeps_visitExecutions orderly_empty fuel p.scheduler
      { p.world with threads := p.world.threads.set i .absent } t).ids
    -- ids are unique, so only the thread of the turn comes back as itself
    have hown : ∀ u ∈ s.world.threads.set i s.thread ++ s.world.spawned, u.id = t.id →
        u = s.thread := fun u hu huid =>
      List.inj_on_of_nodup_map hsound.nodup hu
        (List.mem_append_left _ (mem_of_visitAt ha hi ha')) (huid.trans hid.symm)
    have hfates : ∀ q ∈ p.world.prompts, ∀ u ∈ p.world.threads ++ p.world.spawned,
        u.channel? = some q.channel → ∀ u' ∈ s.world.threads.set i s.thread ++ s.world.spawned,
          u'.id = u.id → u'.Sticks q.channel := by
      intro q hq u hu hc u' hu' huid
      by_cases hut : u.id = t.id
      · cases List.inj_on_of_nodup_map (ha.nodup hw) hu hmem hut
        rw [hown u' hu' huid]
        exact .inl (hstill _ hc ((hleave.posed hD).unanswered q hq))
      · refine sticks_of_origin (ha.nodup hw) (ha.lt hw) hu (hD.parked u hu _ hc) hc huid ?_
        refine (origin_of_sound hsound hu' fun he => hut ?_).imp_right fun ⟨t₀, ht₀, hh⟩ =>
          ⟨t₀, ht₀, .inl hh⟩
        rw [Visit.thread?, hi, huid] at he
        exact (Option.some.inj he).symm
    cases hspans with
    | silent hminds hl => exact fair_of_minds hD ((hleave.trans hminds).trans hreturn) hl hfates
    | @asks e q he hasks hq hl hsticks =>
      have hasker : e.executed.1.thread.id = e.thread.id :=
        e.id_executed (ext_visitExecutions e he ▸ orderly_empty)
      rw [hasker] at hq
      refine fair_of_queries hD he hasks ((hleave.queries hq).minds hreturn)
        (fun x hx => ⟨(hids x hx).trans (hids e he).symm, hl x hx⟩) hfates fun u hu huid => ?_
      rw [hown u hu (huid.trans (hids e he))]
      exact hsticks

end Pass

/-! ### Steps -/

namespace Desk

/-- A thread that takes part again waits for what it waited for. -/
theorem stems_due {D : Desk} {t : Thread} (h : t ∈ D.threads) : D.Stems t.due := by
  unfold Thread.due
  split
  · rename_i hst
    exact .inr ⟨t, h, rfl, rfl, fun hparked => by simp [hst] at hparked⟩
  · exact stems_of_mem h

end Desk

namespace World

variable {σ : Type} {w w' : World σ} {l : List (Happening σ)} {fuel : Nat} {ended : List ThreadId}

theorem minds_of_aside (h : Aside w w') : w.desk.Minds w'.desk := by
  refine .of_stems h.mail.nextChannel h.mail.prompts (result_eq h.mail) fun t' ht' => ?_
  obtain ⟨t, ht, rfl | rfl⟩ := h.origin t' ht'
  · exact Desk.stems_of_mem ht
  · exact Desk.stems_due ht

/-- The end of a turn, of a round or of a pass changes nothing about prompts and those who wait. -/
theorem Recorded.aside (hw : w.Recorded l) (h : Aside w w') : w'.Recorded l := by
  have hm := minds_of_aside h
  have hstays : ∀ c id, w.desk.Awaits c id → w'.desk.Awaits c id := by
    rintro c _ ⟨t, ht, rfl, hc⟩
    have hst := hw.posed.parked t ht c hc
    have hdue : t.due = t := if_neg (by rw [hst]; simp)
    have hmem := h.stays t ht (by rw [Thread.isDone, hst]; rfl)
    rw [hdue, or_self] at hmem
    exact ⟨t, hmem, rfl, hc⟩
  refine ⟨hm.posed hw.posed, fun p hp => ?_, fun h' hh' c hb => ?_⟩
  · obtain ⟨h₀, hh₀, e, he, hasks, hasker, hwaits⟩ := hw.asked p (hm.prompts hp)
    refine ⟨h₀, hh₀, e, he, hasks, fun id ha => hasker id (hm.awaits _ id ha), ?_⟩
    exact hwaits.imp_left (Exists.imp (hstays p.channel))
  · obtain ⟨hlt, hnobody⟩ := hw.bereaved h' hh' c hb
    exact ⟨Nat.lt_of_lt_of_le hlt (Nat.le_of_eq hm.next.symm),
      fun id ha => hnobody id (hm.awaits c id ha)⟩

/-- What happens in a step: its turns, and then queued events start. -/
def happenings (fuel : Nat) (w : World σ) : List (Happening σ) :=
  w.journal (Pass.happenings fuel) .empty fuel ++
    ((w.roundsOfStep .empty fuel).map fun r =>
      ⟨afterPass r.1, (afterPass r.1).dispatchEvents, []⟩).toList

/-- What is known of prompts is known behind each turn. -/
theorem annals_recorded (hw : w.Settled) (hn : w.Counted) (fuel : Nat) :
    Annals .empty fuel (Pass.happenings fuel) w
      (fun w l w' => ∀ l₀, w.Recorded l₀ → w'.Recorded (l₀ ++ l)) fun _ _ => True where
  append h h' l₀ hr := by
    rw [← List.append_assoc]
    exact h' _ (h l₀ hr)
  stop _ _ := trivial
  ends _ := trivial
  aside ha l₀ hr := by
    rw [List.append_nil]
    exact hr.aside ha
  visit ha hv l₀ hr := by
    rw [Pass.happenings, hv]
    exact (Pass.fair_visitAt hw hn ha hr.posed hv).recorded hr
  halt _ _ := trivial

/-- **What is known before a step is known after it.** -/
theorem Recorded.step (hr : w.Recorded l) (hw : w.Reachable)
    (h : w.step .empty fuel = some (w', ended)) : w'.Recorded (l ++ w.happenings fuel) := by
  have hs := settled_of_reachable hw
  obtain ⟨p, hp, rfl⟩ := exists_rounds_of_step hs.idle h
  have hrounds := (annals_step (annals_recorded hs (counted_of_reachable hw) fuel) orderly_empty
    hs).2 p ended hp l hr
  have hafter := hrounds.aside (aside_afterPass p)
  have hevents : Happening.Fair ⟨afterPass p, (afterPass p).dispatchEvents, []⟩ :=
    Happening.fair_of_meanwhile (settled_afterPass hs (amid_roundsOfStep orderly_empty hs hp))
      hafter.posed (minds_of_descends (tends_dispatchEvents _).descends (sameMail_dispatchEvents _))
      rfl (.of_descends (tends_dispatchEvents _).descends)
  have hflush : Aside (afterPass p).dispatchEvents (afterPass p).dispatchEvents.flushCloud.1 :=
    .of_eq rfl rfl ⟨rfl, rfl, rfl, rfl, rfl, rfl, rfl⟩ rfl ⟨rfl, rfl, rfl, rfl⟩ rfl
  rw [happenings, hp, ← List.append_assoc]
  exact (hevents.recorded hafter).aside hflush

end World

end Stagecraft
