import Stagecraft.Proofs.Schedule.Happenings
import Stagecraft.Proofs.Schedule.Parking

/-!
# Prompts that nobody waits for

Between the calls of a host every prompt in line was put there by a block that asks, and nobody but
the thread of that block waits for it. The thread still waits unless it was stopped or started over
meanwhile: only when everything is stopped do the prompts go as well. Whoever waits does so for a
prompt in line, or its answer has come, and the answer to the prompt on screen reaches whoever waits
for that prompt and nobody else.

* `World.exists_answered`, `World.woken_answerQuestion` : what an answer does;
* `World.Hosting` : what a host does between steps; `World.hosting_of_apply` : its calls are that;
* `World.Saga` : a world and all that happened in it;
* `World.Saga.recorded` : **what is known of prompts in the end**;
* `World.prompts_of_saga` : **who waits for which prompt, and whom an answer reaches**;
* `World.orphaned_interview` : a prompt on screen that nobody waits for.
-/

namespace Stagecraft

namespace Pass

open World

variable {σ : Type} {w w' : World σ} {t : Thread} {q : Pending}

/-! ### What a parked thread does -/

/-- What a parked thread does when its turn comes: it goes on waiting, or takes in what has come.
Tells whether the turn goes on. -/
def woken (k : Scheduler) (w : World σ) (t : Thread) : Thread × Bool :=
  ((wake k w t).1.thread, (wake k w t).2)

theorem takeIn_congr (hg : w'.graph? t.actor = w.graph? t.actor) (hn : w'.now = w.now)
    (k : Scheduler) (slot : Slotting) (v : Value) : takeIn k w' t slot v = takeIn k w t slot v := by
  cases slot with
  | reporter h => rfl
  | command =>
    simp only [takeIn]
    rw [hg, hn]

/-- What has come decides. -/
theorem woken_congr (hq : t.pending = some q) (hr : w'.result q.channel = w.result q.channel)
    (hg : w'.graph? t.actor = w.graph? t.actor) (hn : w'.now = w.now) (k : Scheduler) :
    woken k w' t = woken k w t := by
  have hpoll : ∀ w : World σ, (w.poll q.channel).1.graph? t.actor = w.graph? t.actor ∧
      (w.poll q.channel).1.now = w.now := by
    intro w
    obtain ⟨channels, he⟩ := exists_poll w q.channel
    rw [he]
    exact ⟨rfl, rfl⟩
  have hgraph := ((hpoll w').1.trans hg).trans (hpoll w).1.symm
  have hnow := ((hpoll w').2.trans hn).trans (hpoll w).2.symm
  have htake := fun v => takeIn_congr (t := t) hgraph hnow k q.slot v
  unfold result at hr
  unfold woken wake
  rw [hq]
  simp only
  rcases hw : w.poll q.channel with ⟨w₁, r⟩
  rcases hw' : w'.poll q.channel with ⟨w₁', r'⟩
  rw [hw, hw'] at hr htake
  cases hr
  rcases r with _ | ⟨v⟩ | ⟨reason⟩
  · rfl
  · simp only [htake v]
  · rfl

/-- While nothing has come, the thread goes on waiting. -/
theorem wake_of_none (hp : t.pending = some q) (hr : w.result q.channel = none) :
    wake k w t = (⟨(w.poll q.channel).1, t⟩, false) := by
  rw [result] at hr
  rcases hpoll : w.poll q.channel with ⟨w', r⟩
  rw [hpoll] at hr
  cases hr
  rw [wake, hp]
  simp only [hpoll]

/-- An answer is taken. -/
theorem wake_of_resolved {v : Value} (hp : t.pending = some q)
    (hr : w.result q.channel = some (.resolved v)) :
    wake k w t = (⟨(w.poll q.channel).1, (takeIn k (w.poll q.channel).1 t q.slot v).1⟩,
      (takeIn k (w.poll q.channel).1 t q.slot v).2) := by
  rw [result] at hr
  rcases hpoll : w.poll q.channel with ⟨w', r⟩
  rw [hpoll] at hr
  cases hr
  rw [wake, hp]
  simp only [hpoll]

/-- While nothing has come, the thread goes on waiting. -/
theorem woken_of_none (hq : t.pending = some q) (hr : w.result q.channel = none) (k : Scheduler) :
    woken k w t = (t, false) := by
  rw [woken, wake_of_none hq hr]

/-- An answer that has come is taken in. -/
theorem woken_of_resolved {v : Value} (hq : t.pending = some q)
    (hr : w.result q.channel = some (.resolved v)) (k : Scheduler) :
    woken k w t = takeIn k w t q.slot v := by
  obtain ⟨channels, he⟩ := exists_poll w q.channel
  rw [woken, wake_of_resolved hq hr]
  exact takeIn_congr (by rw [he]; rfl) (by rw [he]; rfl) k q.slot v

end Pass

namespace World

variable {σ : Type} {w w' : World σ} {p : Prompt} {rest : List Prompt} {c : Nat}

/-! ### Answers -/

/-- **What an answer does.** The prompt leaves the line, other channels are left alone, and the
answer comes to whoever awaits it. -/
theorem exists_answered (hp : w.prompts = p :: rest) (text : String) : ∃ channels,
    w.answerQuestion text =
      ({ w with prompts := rest, answer := text, channels := channels }, true) ∧
    (∀ c, c ≠ p.channel → channels.get? c = w.channels.get? c) ∧
    (w.result p.channel = none → w.isAwaited p.channel = true →
      (w.answerQuestion text).1.result p.channel = some (.resolved (.text text))) := by
  unfold answerQuestion
  rw [hp]
  simp only
  unfold deliver
  cases hget : w.channels.get? p.channel with
  | none =>
    refine ⟨_, rfl, fun c hc => ?_, fun hnone _ => ?_⟩
    · rw [Table.get?_modify, if_neg hc]
    · rw [result, poll, hget] at hnone
      cases hnone
  | some ch =>
    refine ⟨_, rfl, fun c hc => ?_, fun hnone hawaited => ?_⟩
    · rw [Table.get?_modify, if_neg hc]
      exact Table.get?_insert_of_ne _ hc _
    · have hempty : ch.waiting = none := by
        cases hw : ch.waiting with
        | none => rfl
        | some d =>
          rw [result, poll, hget] at hnone
          simp [Channel.poll, hw] at hnone
      have hsame : isAwaited { w with prompts := rest, answer := text } p.channel = true := hawaited
      simp [result, poll, dropResolver, Table.get?_modify, Channel.deliver, hsame, hempty,
        Channel.dropResolver, Channel.poll]

theorem result_answer_of_ne (hp : w.prompts = p :: rest) (text : String) (hc : c ≠ p.channel) :
    (w.answerQuestion text).1.result c = w.result c := by
  obtain ⟨channels, he, hother, -⟩ := exists_answered hp text
  rw [he]
  exact result_congr (hother c hc)

/-- A thread that waits awaits the result. -/
theorem isAwaited_of_awaits {id : ThreadId} (h : w.desk.Awaits c id) : w.isAwaited c = true := by
  obtain ⟨t, ht, -, hc⟩ := h
  rw [isAwaited, Bool.or_eq_true]
  refine .inl (List.any_eq_true.2 ⟨t, ht, ?_⟩)
  rw [Thread.channel?] at hc
  rw [parkedOn, hc]
  exact beq_self_eq_true _

/-- An answer asks nothing, and whoever waited for it has it. -/
theorem minds_answerQuestion (w : World σ) (text : String) :
    w.desk.Minds (w.answerQuestion text).1.desk := by
  cases hp : w.prompts with
  | nil =>
    rw [answerQuestion, hp]
    exact .refl _
  | cons p rest =>
    obtain ⟨channels, he, -, hanswer⟩ := exists_answered hp text
    have hother := fun c (hc : c ≠ p.channel) => result_answer_of_ne hp text hc
    rw [he] at hanswer hother ⊢
    have hsub : rest ⊆ w.prompts := hp ▸ List.subset_cons_self p rest
    refine ⟨rfl, hsub, fun _ _ ha => ha, fun hD => ?_⟩
    -- the others in line were asked later, so they have other channels
    have horder := hD.order
    rw [show w.desk.prompts = p :: rest from hp] at horder
    obtain ⟨hfirst, horder⟩ := List.pairwise_cons.1 horder
    have hopen : w.result p.channel = none :=
      hD.unanswered p (show p ∈ w.prompts from hp ▸ List.mem_cons_self ..)
    refine ⟨horder, fun q hq => hD.lt q (hsub hq), fun q hq => ?_, hD.parked, hD.given, hD.once,
      fun c id ha => ?_⟩
    · exact (hother _ (Nat.ne_of_gt (hfirst q hq))).trans (hD.unanswered q (hsub hq))
    · by_cases hc : c = p.channel
      · subst hc
        exact .inr ⟨text, hanswer hopen (isAwaited_of_awaits ha)⟩
      · rcases hD.heard c id ha with ⟨q, hq, rfl⟩ | hhas
        · rw [show w.desk.prompts = p :: rest from hp] at hq
          exact .inl ⟨q, (List.mem_cons.1 hq).resolve_left fun h => hc (h ▸ rfl), rfl⟩
        · exact .inr (hhas.imp fun a ha => (hother c hc).trans ha)

/-- **Whoever waits for the prompt on screen takes the answer in**, and all others do what they
would have done. -/
theorem woken_answerQuestion (hD : w.desk.Posed) (hp : w.prompts = p :: rest) (text : String)
    {t : Thread} (ht : t ∈ w.desk.threads) {q : Pending} (hq : t.pending = some q) (k : Scheduler) :
    Pass.woken k (w.answerQuestion text).1 t =
      if q.channel = p.channel then Pass.takeIn k w t q.slot (.text text)
      else Pass.woken k w t := by
  obtain ⟨channels, he, -, hanswer⟩ := exists_answered hp text
  have hgraph : (w.answerQuestion text).1.graph? t.actor = w.graph? t.actor := by rw [he]; rfl
  have hnow : (w.answerQuestion text).1.now = w.now := by rw [he]; rfl
  split
  · rename_i hc
    have hopen : w.result p.channel = none :=
      hD.unanswered p (show p ∈ w.prompts from hp ▸ List.mem_cons_self ..)
    have hawaited : w.isAwaited p.channel = true :=
      isAwaited_of_awaits ⟨t, ht, rfl, by rw [Thread.channel?, hq, ← hc]; rfl⟩
    rw [Pass.woken_of_resolved hq (hc ▸ hanswer hopen hawaited) k]
    exact Pass.takeIn_congr hgraph hnow k q.slot _
  · rename_i hc
    exact Pass.woken_congr hq (result_answer_of_ne hp text hc) hgraph hnow k

/-! ### Hosts -/

theorem sameMail_addStage (w : World σ) (name : String) (g : Graph) :
    SameMail w (w.addStage name g).1 := by
  unfold addStage
  simp only
  split <;> exact ⟨rfl, rfl, rfl, rfl⟩

theorem sameMail_loadActors (saved : List SavedActor) :
    ∀ w : World σ, SameMail w (w.loadActors saved).1 := by
  induction saved with
  | nil => exact .refl
  | cons a rest ih =>
    intro w
    have hadd : SameMail w (if a.isStage then w.addStage a.name (Graph.ofSaved a.blocks)
        else w.addSprite a.name (Graph.ofSaved a.blocks)).1 := by
      split
      · exact sameMail_addStage w _ _
      · exact ⟨rfl, rfl, rfl, rfl⟩
    refine SameMail.trans ?_ (ih _)
    exact hadd.trans ⟨rfl, rfl, rfl, rfl⟩

theorem sameMail_postCloud (w : World σ) (name : String) (v : Value) :
    SameMail w (w.postCloud name v) := by
  unfold postCloud
  split
  · exact ⟨rfl, rfl, rfl, rfl⟩
  · split
    · split <;> exact ⟨rfl, rfl, rfl, rfl⟩
    · exact ⟨rfl, rfl, rfl, rfl⟩

/-- What a host does between steps. It answers the question on screen, stops everything, or leaves
prompts and results alone. -/
inductive Hosting : World σ → World σ → Prop
  | tend {w w' : World σ} : Gesture w w' → SameMail w w' → Hosting w w'
  | answer (w : World σ) (text : String) : Hosting w (w.answerQuestion text).1
  | stopAll (w : World σ) : Hosting w w.stopAll
  | greenFlag (w : World σ) : Hosting w w.greenFlag.1

/-- **Calls are what a host does**, all but steps. -/
theorem hosting_of_apply {c : Call} (hstep : ∀ fuel, c ≠ .step fuel) (h : c.apply w = some w') :
    Hosting w w' := by
  have hgesture := gesture_of_apply hstep h
  cases c with
  | addSprite | queueEvent | postKey | postMouse | postPause | postUser | clock =>
    cases h
    exact .tend hgesture ⟨rfl, rfl, rfl, rfl⟩
  | addStage name g =>
    cases h
    exact .tend hgesture (sameMail_addStage w name g)
  | load p =>
    cases h
    refine .tend hgesture (SameMail.trans ?_ (sameMail_loadActors p.targets _))
    split <;> exact ⟨rfl, rfl, rfl, rfl⟩
  | loadStrict p =>
    cases h
    refine .tend hgesture ?_
    unfold loadStrict
    cases p.problems with
    | nil => exact sameMail_loadActors p.targets w
    | cons problem rest => exact .refl w
  | greenFlag =>
    obtain rfl := Option.some.inj h
    exact .greenFlag w
  | broadcast message | clickActor actor =>
    cases h
    exact .tend hgesture (sameMail_startHats w _ _ _)
  | postCloud name v =>
    cases h
    exact .tend hgesture (sameMail_postCloud w name v)
  | answer text =>
    cases h
    exact .answer w text
  | toggleScript actor top =>
    cases h
    exact .tend hgesture (sameMail_toggleScript w actor top)
  | createClone source =>
    cases h
    exact .tend hgesture (sameMail_createClone w source)
  | deleteClone id =>
    cases h
    exact .tend hgesture (sameMail_deleteClone w id)
  | stopAll =>
    cases h
    exact .stopAll w
  | step fuel => exact absurd rfl (hstep fuel)

namespace Hosting

theorem gesture (h : Hosting w w') : Gesture w w' := by
  cases h with
  | tend h _ => exact h
  | answer text => exact gesture_of_apply (c := .answer text) (fun _ he => by cases he) rfl
  | stopAll => exact .stopAll w
  | greenFlag => exact .greenFlag w

/-- **What a host does asks nothing.** -/
theorem minds (h : Hosting w w') : w.desk.Minds w'.desk := by
  cases h with
  | tend h hm =>
    exact .of_stems hm.nextChannel hm.prompts (result_eq hm) (h.keeps_threads
      (fun _ _ _ => .inl rfl) Desk.Stems.handled (fun h => h) fun _ ht => Desk.stems_of_mem ht)
  | answer text => exact w.minds_answerQuestion text
  | stopAll => exact w.minds_stopAll
  | greenFlag =>
    have hstop := w.minds_stopAll
    unfold World.greenFlag raise
    generalize w.stopAll = w₁ at hstop ⊢
    have hreset : w₁.desk.Minds (desk { w₁ with timer := w₁.timer.reset w₁.now }) :=
      .of_stems rfl rfl (result_eq ⟨rfl, rfl, rfl, rfl⟩) fun _ ht => Desk.stems_of_mem ht
    exact (hstop.trans hreset).trans
      (minds_of_descends (tends_startHats _ _ _ _).descends (sameMail_startHats _ _ _ _))

end Hosting

/-! ### All that happens -/

/-- A world, and all that has happened in it since it was blank. -/
inductive Saga : World σ → List (Happening σ) → Prop
  | blank (settings : Settings) (host : σ) (dice : Nat → Nat := fun _ => 0) :
      Saga (blank settings host dice) []
  | hosting {w w' : World σ} {l : List (Happening σ)} : Saga w l → Hosting w w' →
      Saga w' (l ++ [⟨w, w', []⟩])
  | step {w w' : World σ} {l : List (Happening σ)} {fuel : Nat} {ended : List ThreadId} :
      Saga w l → w.step .empty fuel = some (w', ended) → Saga w' (l ++ w.happenings fuel)

variable {l : List (Happening σ)}

/-- In a blank world there are no prompts, and nobody waits. -/
theorem recorded_blank (settings : Settings) (host : σ) (dice : Nat → Nat) :
    (blank settings host dice).Recorded [] := by
  have hnobody : ∀ c id, ¬(blank settings host dice).desk.Awaits c id := by
    rintro c id ⟨t, ht, -⟩
    cases ht
  exact
    { posed :=
        { order := .nil
          lt := fun p hp => by cases hp
          unanswered := fun p hp => by cases hp
          parked := fun t ht => by cases ht
          given := fun c id ha => absurd ha (hnobody c id)
          once := fun c id id' ha => absurd ha (hnobody c id)
          heard := fun c id ha => absurd ha (hnobody c id) }
      asked := fun p hp => by cases hp
      bereaved := fun h hh => by cases hh }

namespace Saga

theorem shown (h : Saga w l) : Show (fun _ => True) w := by
  induction h with
  | blank settings host dice => exact .blank settings host dice
  | hosting _ hh ih => exact ih.gesture hh.gesture
  | step _ hs ih => exact ih.step trivial hs

/-- **What is known of prompts in the end**, by induction on what happened. -/
theorem recorded (h : Saga w l) : w.Recorded l := by
  induction h with
  | blank settings host dice => exact recorded_blank settings host dice
  | @hosting w w' l hsaga hh ih =>
    have hfair : Happening.Fair ⟨w, w', []⟩ :=
      Happening.fair_of_meanwhile (settled_of_reachable hsaga.shown.reachable) ih.posed hh.minds rfl
        hh.gesture.deed.meanwhile
    exact hfair.recorded ih
  | step hsaga hs ih => exact ih.step hsaga.shown.reachable hs

end Saga

/-! ### Prompts, those who wait, and answers -/

/-- **Who waits for which prompt, and whom an answer reaches.** Prompts stand in line in the order
in which they were asked. Each was put there by a block that asks, and only the thread of that block
waits for it: it does unless a thread that waited for it was stopped or started over. Whoever waits
is parked, and waits for a prompt in line or for an answer that has come. An answer takes the prompt
on screen out of the line. Whoever waits for that prompt takes the answer in, and all others do what
they would have done. -/
theorem prompts_of_saga (h : Saga w l) :
    (w.prompts.Pairwise fun p q => p.channel < q.channel) ∧
    (∀ p ∈ w.prompts, ∃ h ∈ l, ∃ e ∈ h.blocks, e.Asks p ∧
      (∀ t ∈ w.threads, t.channel? = some p.channel →
        t.id = e.thread.id ∧ ∀ k, Pass.woken k w t = (t, false)) ∧
      ((∃ t ∈ w.threads, t.channel? = some p.channel) ↔ ¬∃ h ∈ l, h.Bereaves p.channel)) ∧
    (∀ t ∈ w.threads, ∀ c, t.channel? = some c → t.status = .parked ∧
      ((∃ p ∈ w.prompts, p.channel = c) ∨ ∃ a, w.result c = some (.resolved (.text a)))) ∧
    ∀ p rest, w.prompts = p :: rest → w.pendingQuestion? = some p.text ∧ ∀ text,
      (w.answerQuestion text).2 = true ∧ (w.answerQuestion text).1.prompts = rest ∧
      (w.answerQuestion text).1.threads = w.threads ∧
      ∀ t ∈ w.threads, ∀ q, t.pending = some q → ∀ k,
        Pass.woken k (w.answerQuestion text).1 t =
          if q.channel = p.channel then Pass.takeIn k w t q.slot (.text text)
          else Pass.woken k w t := by
  have hrec := h.recorded
  have hD := hrec.posed
  have hlists : w.threads ++ w.spawned = w.threads := by
    rw [(settled_of_reachable h.shown.reachable).spawned, List.append_nil]
  have hmem : ∀ t, t ∈ w.threads ↔ t ∈ w.desk.threads := fun t => by rw [desk, hlists]
  have hawaits : ∀ c, (∃ id, w.desk.Awaits c id) ↔ ∃ t ∈ w.threads, t.channel? = some c := by
    intro c
    constructor
    · rintro ⟨_, t, ht, -, hc⟩
      exact ⟨t, (hmem t).2 ht, hc⟩
    · rintro ⟨t, ht, hc⟩
      exact ⟨t.id, t, (hmem t).1 ht, rfl, hc⟩
  refine ⟨hD.order, fun p hp => ?_, fun t ht c hc => ?_, fun p rest hp => ?_⟩
  · -- a prompt in line
    obtain ⟨h₀, hh₀, e, he, hasks, hasker, hwaits⟩ := hrec.asked p hp
    refine ⟨h₀, hh₀, e, he, hasks, fun t ht hc => ⟨?_, fun k => ?_⟩, ?_⟩
    · exact hasker t.id ⟨t, (hmem t).1 ht, rfl, hc⟩
    · obtain ⟨q, hq, hqc⟩ := Option.map_eq_some_iff.1 hc
      exact Pass.woken_of_none hq (hqc ▸ hD.unanswered p hp) k
    · rw [← hawaits]
      refine ⟨?_, fun hnone => hwaits.resolve_right hnone⟩
      rintro ⟨id, ha⟩ ⟨h', hh', hb⟩
      exact (hrec.bereaved h' hh' _ hb).2 id ha
  · exact ⟨hD.parked t ((hmem t).1 ht) c hc, hD.heard c t.id ⟨t, (hmem t).1 ht, rfl, hc⟩⟩
  · -- the prompt on screen is answered
    refine ⟨by rw [pendingQuestion?, hp]; rfl, fun text => ?_⟩
    obtain ⟨channels, he, -⟩ := exists_answered hp text
    refine ⟨by rw [he], by rw [he], by rw [he], fun t ht q hq k => ?_⟩
    exact woken_answerQuestion hD hp text ((hmem t).1 ht) hq k

/-- The script has been started and has asked. Its thread waits until the question is answered. When
the actor is stopped instead, the question stays, and its thread was stopped. -/
theorem prompts_of_saga_interview : ∃ (w : World Unit) (l : List (Happening Unit)) (t : Thread),
    Saga w l ∧ w.threads = [t] ∧
    w.pendingQuestion? = some "name?" ∧ t.channel? = some 0 ∧ t.status = .parked ∧
    (∃ h ∈ l, ∃ e ∈ h.blocks, e.Asks ⟨"name?", 0⟩ ∧ t.id = e.thread.id) ∧
    (∀ k, Pass.woken k w t = (t, false)) ∧
    (∃ q, t.pending = some q ∧ ∀ k,
      Pass.woken k (w.answerQuestion "Ada").1 t = Pass.takeIn k w t q.slot (.text "Ada")) ∧
    ∃ (w' : World Unit) (l' : List (Happening Unit)), Saga w' l' ∧
      w'.pendingQuestion? = some "name?" ∧ w'.threads = [] ∧
      ∃ h ∈ l', h.Bereaves 0 := by
  have hrun : (interviewWorld.step .empty 9).map (fun r =>
      (r.1.prompts, r.1.threads.map (·.channel?),
        (r.1.stopActor 0 none).prompts, (r.1.stopActor 0 none).threads.isEmpty)) =
      some ([⟨"name?", 0⟩], [some 0], [⟨"name?", 0⟩], true) := by
    decide +kernel
  obtain ⟨⟨w, _⟩, hstep, hfacts⟩ := Option.map_eq_some_iff.1 hrun
  obtain ⟨hprompts, hthreads, hprompts', hnone⟩ : w.prompts = [⟨"name?", 0⟩] ∧
      w.threads.map (·.channel?) = [some 0] ∧
      (w.stopActor 0 none).prompts = [⟨"name?", 0⟩] ∧
      (w.stopActor 0 none).threads.isEmpty = true := by
    simpa using hfacts
  have hsaga := ((Saga.blank Settings.standard ()).hosting
    (hosting_of_apply (c := .addSprite "Cat" interview) (fun _ he => by cases he) rfl)).hosting
    (.tend (.pushThread _ 0 ⟨0, 0⟩) (sameMail_pushThread _ 0 ⟨0, 0⟩)) |>.step hstep
  have hsaga' := hsaga.hosting (.tend (.stopActor w 0 none) (sameMail_stopActor w 0 none))
  obtain ⟨t, ht, hc⟩ := List.map_eq_singleton_iff.1 hthreads
  obtain ⟨-, hasked, hwaiting, hanswer⟩ := prompts_of_saga hsaga
  obtain ⟨-, hasked', -⟩ := prompts_of_saga hsaga'
  have hmem : t ∈ w.threads := ht ▸ List.mem_singleton_self t
  obtain ⟨q, hq, hqc⟩ := Option.map_eq_some_iff.1 hc
  obtain ⟨h, hh, e, he, hasks, hwho, -⟩ := hasked ⟨"name?", 0⟩ (by simp [hprompts])
  obtain ⟨hid, hstill⟩ := hwho t hmem hc
  obtain ⟨hscreen, hall⟩ := hanswer _ [] hprompts
  obtain ⟨-, -, -, hwoken⟩ := hall "Ada"
  obtain ⟨-, -, -, -, -, -, hwaits⟩ := hasked' ⟨"name?", 0⟩ (by simp [hprompts'])
  refine ⟨w, _, t, hsaga, ht, hscreen, hc, (hwaiting t hmem 0 hc).1, ⟨h, hh, e, he, hasks, hid⟩,
    hstill, ⟨q, hq, fun k => (hwoken t hmem q hq k).trans (if_pos hqc)⟩, _, _, hsaga', ?_,
    List.isEmpty_iff.1 hnone, ?_⟩
  · rw [pendingQuestion?, hprompts']
    rfl
  · by_contra hnot
    obtain ⟨u, hu, -⟩ := hwaits.2 hnot
    rw [List.isEmpty_iff.1 hnone] at hu
    cases hu

/-- A script asks and is toggled off while it waits. Its question is on screen, no thread waits for
the answer, and answering it is reported as done. -/
theorem orphaned_interview : ∃ w, (blank Settings.standard ()).play
      [.addSprite "Cat" interview, .toggleScript 0 ⟨0, 0⟩, .step 9, .toggleScript 0 ⟨0, 0⟩] =
        some w ∧
    w.pendingQuestion? = some "name?" ∧ w.threads ++ w.spawned = [] ∧
    (w.answerQuestion "Ada").2 = true := by
  have hrun : ((blank Settings.standard ()).play
      [.addSprite "Cat" interview, .toggleScript 0 ⟨0, 0⟩, .step 9, .toggleScript 0 ⟨0, 0⟩]).map
        (fun w => (w.pendingQuestion?, (w.threads ++ w.spawned).isEmpty,
          (w.answerQuestion "Ada").2)) = some (some "name?", true, true) := by
    decide +kernel
  obtain ⟨w, hw, hfacts⟩ := Option.map_eq_some_iff.1 hrun
  obtain ⟨hscreen, hnone, hanswered⟩ : w.pendingQuestion? = some "name?" ∧
      (w.threads ++ w.spawned).isEmpty = true ∧ (w.answerQuestion "Ada").2 = true := by
    simpa using hfacts
  exact ⟨w, hw, hscreen, List.isEmpty_iff.1 hnone, hanswered⟩

end World

end Stagecraft
