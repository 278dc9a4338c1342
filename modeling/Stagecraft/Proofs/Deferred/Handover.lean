import Mathlib.Data.List.Induction
import Stagecraft.Deferred

/-!
# Handing over a result

Any number of resolvers and one deferred result share a channel. Whoever does something with it does
it in one moment, so whatever they do at the same time, there is an order of it. What becomes of a
delivery can be told of that order alone: it waits from the moment in which it is accepted to the
next poll. Nothing is accepted after the last resolver is gone, so the polls that report the loss
come after all those that hand over a result.

* `Channel.Step` : what can be done with a channel, and what it answers;
* `Channel.Course` : a channel from its creation on;
* `Channel.left`, `Channel.accepted`, `Channel.polled`, `Channel.unpolled` : what the order tells of
  resolvers and deliveries;
* `Channel.Sound.step` : a channel is as the order tells;
* `Channel.handed_of_course` : **deliveries are handed over in order, once, and none is dropped**.
-/

namespace Stagecraft.Channel

/-! ### What is done with a channel -/

/-- Something is done with a channel, and it answers. Resolvers are told apart by numbers. -/
inductive Event where
  /-- A resolver delivers a result; the channel tells whether it accepts it. -/
  | delivered (resolver : Nat) (d : Delivery) (accepted : Bool)
  /-- A resolver is copied, and the copy has a number of its own. -/
  | copied (resolver copy : Nat)
  /-- A resolver is dropped. -/
  | dropped (resolver : Nat)
  /-- The deferred result is polled; the channel gives what has come of it. -/
  | polled (answer : Option Delivery)
  /-- The deferred result is dropped. -/
  | abandoned
deriving DecidableEq

namespace Event

/-- The delivery that is accepted. -/
def accepted? : Event → Option Delivery
  | delivered _ d true => some d
  | _ => none

/-- What a poll gives. -/
def answer? : Event → Option Delivery
  | polled answer => answer
  | _ => none

/-- Whether the deferred result is polled. -/
def isPoll : Event → Bool
  | polled _ => true
  | _ => false

end Event

/-- The resolvers that are left. The first one has the number zero. -/
def left (l : List Event) : List Nat :=
  l.foldl (fun s e => match e with
    | .copied _ copy => copy :: s
    | .dropped resolver => s.erase resolver
    | _ => s) [0]

/-- The deliveries that were accepted, in order. -/
def accepted (l : List Event) : List Delivery := l.filterMap Event.accepted?

/-- What the polls have given, in order. -/
def polled (l : List Event) : List Delivery := l.filterMap Event.answer?

/-- The deliveries that were accepted since the last poll. -/
def unpolled (l : List Event) : List Delivery :=
  l.foldl (fun ds e => if e.isPoll then [] else ds ++ e.accepted?.toList) []

/-- Something is done by somebody who is still there. -/
inductive Step (l : List Event) (c : Channel) : Event → Channel → Prop
  | deliver {resolver : Nat} (d : Delivery) : resolver ∈ left l →
      Step l c (.delivered resolver d (c.deliver d).2) (c.deliver d).1
  | copy {resolver copy : Nat} : resolver ∈ left l → copy ∉ left l →
      Step l c (.copied resolver copy) c.copyResolver
  | drop {resolver : Nat} : resolver ∈ left l → Step l c (.dropped resolver) c.dropResolver
  | poll : .abandoned ∉ l → Step l c (.polled c.poll.2) c.poll.1
  | abandon : .abandoned ∉ l → Step l c .abandoned c.dropDeferred

/-- A channel from its creation on, with all that is done with it. -/
inductive Course : List Event → Channel → Prop
  | fresh : Course [] .fresh
  | step {l : List Event} {c c' : Channel} {e : Event} : Course l c → Step l c e c' →
      Course (l ++ [e]) c'

variable {l : List Event} {c c' : Channel} {e : Event}

/-! ### What the order tells -/

theorem left_append (l : List Event) (e : Event) : left (l ++ [e]) =
    match e with
    | .copied _ copy => copy :: left l
    | .dropped resolver => (left l).erase resolver
    | _ => left l := by
  rw [left, List.foldl_append]
  rfl

theorem unpolled_append (l : List Event) (e : Event) :
    unpolled (l ++ [e]) = if e.isPoll then [] else unpolled l ++ e.accepted?.toList := by
  rw [unpolled, List.foldl_append]
  rfl

/-- Where nothing is accepted and nothing polled, what waits goes on to wait. -/
theorem unpolled_idle (ha : e.accepted? = none) (hp : e.isPoll = false) :
    unpolled (l ++ [e]) = unpolled l := by
  rw [unpolled_append, hp, ha]
  exact List.append_nil _

theorem accepted_append (l : List Event) (e : Event) :
    accepted (l ++ [e]) = accepted l ++ e.accepted?.toList := by
  simp only [accepted, List.filterMap_append, List.filterMap_cons, List.filterMap_nil]
  cases e.accepted? <;> rfl

theorem polled_append (l : List Event) (e : Event) :
    polled (l ++ [e]) = polled l ++ e.answer?.toList := by
  simp only [polled, List.filterMap_append, List.filterMap_cons, List.filterMap_nil]
  cases e.answer? <;> rfl

/-- The polls give what was accepted before, but for what waits, and then report the loss. -/
def InTurn (l : List Event) : Prop :=
  ∃ n, polled l ++ unpolled l = accepted l ++ List.replicate n (.rejected lostReason) ∧
    (0 < n → unpolled l = [] ∧ left l = [])

/-- As long as a resolver is left, no loss was reported. -/
theorem InTurn.of_left (h : InTurn l) (hl : left l ≠ []) : polled l ++ unpolled l = accepted l := by
  obtain ⟨n, heq, hlost⟩ := h
  cases n with
  | zero => rwa [List.replicate_zero, List.append_nil] at heq
  | succ n => exact absurd (hlost (Nat.succ_pos n)).2 hl

/-- A channel is as the order tells. -/
structure Sound (l : List Event) (c : Channel) : Prop where
  /-- What waits is what was accepted since the last poll. -/
  waiting : c.waiting.toList = unpolled l
  /-- It counts the resolvers that are left. -/
  resolvers : c.resolvers = (left l).length
  /-- The result is awaited until it is dropped. -/
  awaited : c.awaited = true ↔ .abandoned ∉ l
  /-- What was accepted was given, in order. -/
  inTurn : InTurn l

theorem sound_fresh : Sound [] .fresh where
  waiting := rfl
  resolvers := rfl
  awaited := by simp [Channel.fresh]
  inTurn := ⟨0, rfl, fun h => absurd h (Nat.lt_irrefl 0)⟩

/-- A delivery is accepted if the result is awaited and nothing waits. -/
theorem Sound.accepts (h : Sound l c) (d : Delivery) :
    (c.deliver d).2 = true ↔ .abandoned ∉ l ∧ unpolled l = [] := by
  rw [← h.awaited, ← h.waiting]
  unfold deliver
  cases c.awaited <;> cases c.waiting <;> simp

/-- A poll gives what waits, and otherwise the loss if nobody is left. -/
theorem Sound.polls (h : Sound l c) : c.poll.2 = match unpolled l with
    | d :: _ => some d
    | [] => if left l = [] then some (.rejected lostReason) else none := by
  rw [← h.waiting]
  unfold poll
  cases c.waiting with
  | some d => rfl
  | none =>
    simp only [Option.toList_none, h.resolvers, List.length_eq_zero_iff]

/-- Nothing is delivered and nothing polled: nothing changes in what was handed over. -/
theorem InTurn.idle (h : InTurn l) (ha : e.accepted? = none) (hp : e.isPoll = false)
    (hg : e.answer? = none) (hl : left l = [] → left (l ++ [e]) = []) : InTurn (l ++ [e]) := by
  obtain ⟨n, heq, hlost⟩ := h
  have hunpolled : unpolled (l ++ [e]) = unpolled l := unpolled_idle ha hp
  refine ⟨n, ?_, fun hn => ⟨hunpolled.trans (hlost hn).1, hl (hlost hn).2⟩⟩
  rw [hunpolled, polled_append, accepted_append, ha, hg]
  simpa using heq

theorem Sound.deliver (h : Sound l c) {resolver : Nat} (d : Delivery) (hr : resolver ∈ left l) :
    Sound (l ++ [.delivered resolver d (c.deliver d).2]) (c.deliver d).1 := by
  have hleft : left (l ++ [.delivered resolver d (c.deliver d).2]) = left l := left_append ..
  have hnotice : .abandoned ∉ l ++ [Event.delivered resolver d (c.deliver d).2] ↔
      .abandoned ∉ l := by
    simp
  cases hok : (c.deliver d).2 with
  | true =>
    rw [hok] at hleft hnotice
    obtain ⟨hawaited, hnone⟩ := (h.accepts d).1 hok
    have hc : (c.deliver d).1 = { c with waiting := some d } := by
      have hwaiting : c.waiting = none := by
        rw [← h.waiting] at hnone
        exact Option.toList_eq_nil_iff.1 hnone
      rw [Channel.deliver, h.awaited.2 hawaited, hwaiting]
      rfl
    have hunpolled : unpolled (l ++ [.delivered resolver d true]) = [d] := by
      rw [unpolled_append, hnone]
      rfl
    rw [hc]
    refine ⟨hunpolled.symm, h.resolvers.trans (congrArg List.length hleft).symm,
      h.awaited.trans hnotice.symm, 0, ?_, fun hn => absurd hn (Nat.lt_irrefl 0)⟩
    have heq := h.inTurn.of_left (List.ne_nil_of_mem hr)
    rw [hnone, List.append_nil] at heq
    rw [hunpolled, polled_append, accepted_append, heq]
    simp [Event.answer?, Event.accepted?]
  | false =>
    rw [hok] at hleft hnotice
    have hc : (c.deliver d).1 = c := by
      unfold Channel.deliver at hok ⊢
      split at hok
      · cases hok
      · rw [if_neg ‹_›]
    have hunpolled : unpolled (l ++ [.delivered resolver d false]) = unpolled l :=
      unpolled_idle rfl rfl
    rw [hc]
    exact ⟨h.waiting.trans hunpolled.symm, h.resolvers.trans (congrArg List.length hleft).symm,
      h.awaited.trans hnotice.symm, h.inTurn.idle rfl rfl rfl hleft.trans⟩

/-- A poll takes what waits out, or reports the loss behind all that was given. -/
theorem Sound.inTurn_poll (h : Sound l c) : InTurn (l ++ [.polled c.poll.2]) := by
  obtain ⟨n, heq, hlost⟩ := h.inTurn
  have hleft : left (l ++ [.polled c.poll.2]) = left l := left_append ..
  have hunpolled : unpolled (l ++ [.polled c.poll.2]) = [] := unpolled_append ..
  have haccepted : accepted (l ++ [.polled c.poll.2]) = accepted l := by
    rw [accepted_append]
    exact List.append_nil _
  have hpolled : polled (l ++ [.polled c.poll.2]) = polled l ++ c.poll.2.toList := polled_append ..
  unfold InTurn
  rw [hleft, hunpolled, haccepted, hpolled, List.append_nil]
  rw [h.polls]
  cases hwaiting : c.waiting with
  | some d =>
    -- something waits, so no loss was reported
    have hu : unpolled l = [d] := by rw [← h.waiting, hwaiting]; rfl
    rw [hu] at heq hlost ⊢
    exact ⟨n, heq, fun hn => by cases (hlost hn).1⟩
  | none =>
    have hu : unpolled l = [] := by rw [← h.waiting, hwaiting]; rfl
    rw [hu, List.append_nil] at heq
    rw [hu]
    by_cases hl : left l = []
    · refine ⟨n + 1, ?_, fun _ => ⟨rfl, hl⟩⟩
      simp only [if_pos hl, Option.toList_some]
      rw [heq, List.replicate_succ', List.append_assoc]
    · refine ⟨n, ?_, fun hn => ⟨rfl, (hlost hn).2⟩⟩
      simp only [if_neg hl, Option.toList_none, List.append_nil]
      exact heq

theorem Sound.poll (h : Sound l c) : Sound (l ++ [.polled c.poll.2]) c.poll.1 := by
  have hkept : c.poll.1 = { c with waiting := none } := by
    obtain ⟨_ | d, n, a⟩ := c <;> rfl
  have hleft : left (l ++ [.polled c.poll.2]) = left l := left_append ..
  have hunpolled : unpolled (l ++ [.polled c.poll.2]) = [] := unpolled_append ..
  rw [hkept]
  exact ⟨hunpolled.symm, h.resolvers.trans (congrArg List.length hleft).symm,
    h.awaited.trans (by simp), h.inTurn_poll⟩

theorem Sound.step (h : Sound l c) (hs : Step l c e c') : Sound (l ++ [e]) c' := by
  cases hs with
  | deliver d hr => exact h.deliver d hr
  | poll _ => exact h.poll
  | @copy resolver copy hr hnew =>
    have hleft : left (l ++ [.copied resolver copy]) = copy :: left l := left_append ..
    refine ⟨h.waiting.trans (unpolled_idle rfl rfl).symm, ?_, h.awaited.trans (by simp),
      h.inTurn.idle rfl rfl rfl fun hnil => ?_⟩
    · rw [hleft, List.length_cons, ← h.resolvers]
      rfl
    · exact absurd hr (hnil ▸ List.not_mem_nil)
  | @drop resolver hr =>
    have hleft : left (l ++ [.dropped resolver]) = (left l).erase resolver := left_append ..
    refine ⟨h.waiting.trans (unpolled_idle rfl rfl).symm, ?_, h.awaited.trans (by simp),
      h.inTurn.idle rfl rfl rfl fun hnil => ?_⟩
    · rw [hleft, List.length_erase_of_mem hr, ← h.resolvers]
      rfl
    · exact absurd hr (hnil ▸ List.not_mem_nil)
  | abandon _ =>
    have hleft : left (l ++ [.abandoned]) = left l := left_append ..
    refine ⟨h.waiting.trans (unpolled_idle rfl rfl).symm,
      h.resolvers.trans (congrArg List.length hleft).symm, ⟨fun h => ?_, fun h => absurd ?_ h⟩,
      h.inTurn.idle rfl rfl rfl hleft.trans⟩
    · cases h
    · exact List.mem_append_right _ (List.mem_singleton_self _)

theorem Course.sound (h : Course l c) : Sound l c := by
  induction h with
  | fresh => exact sound_fresh
  | step _ hs ih => exact ih.step hs

/-- A channel that was resolved before anybody could wait has a course like any other. -/
theorem course_settled (v : Value) :
    Course [.delivered 0 (.resolved v) true, .dropped 0] (.settled v) :=
  (Course.fresh.step (.deliver _ (List.mem_singleton_self 0))).step
    (.drop (List.mem_singleton_self 0))

/-! ### The result -/

/-- Whatever was done was done with the channel as it was then. -/
theorem Course.exists_step {before after : List Event} (h : Course l c)
    (hl : l = before ++ e :: after) : ∃ b b', Course before b ∧ Step before b e b' := by
  induction h generalizing after with
  | fresh => simp at hl
  | @step l c c' e' hc hs ih =>
    rcases List.eq_nil_or_concat after with rfl | ⟨after, x, rfl⟩
    · obtain ⟨rfl, h⟩ := List.append_inj' hl rfl
      cases h
      exact ⟨c, c', hc, hs⟩
    · rw [List.concat_eq_append, ← List.cons_append, ← List.append_assoc] at hl
      exact ih (List.append_inj' hl rfl).1

/-- Since the last poll at most one delivery was accepted. -/
theorem Sound.length_unpolled_le (h : Sound l c) : (unpolled l).length ≤ 1 := by
  rw [← h.waiting]
  cases c.waiting with
  | none => exact Nat.zero_le 1
  | some d => exact Nat.le_refl 1

/-- A poll gives what waits. -/
theorem Sound.gives (h : Sound l c) {d : Delivery} (hd : d ∈ unpolled l) : c.poll.2 = some d := by
  rw [← h.waiting, Option.mem_toList] at hd
  rw [Channel.poll, hd]

/-- What was accepted waits as long as nobody polls. -/
theorem mem_unpolled {d : Delivery} {before middle : List Event} {resolver : Nat}
    (h : ∀ x ∈ middle, x.isPoll = false) :
    d ∈ unpolled (before ++ .delivered resolver d true :: middle) := by
  induction middle using List.reverseRecOn with
  | nil =>
    rw [unpolled_append]
    exact List.mem_append_right _ (List.mem_singleton_self d)
  | append_singleton middle x ih =>
    rw [← List.cons_append, ← List.append_assoc, unpolled_append, h x (by simp)]
    exact List.mem_append_left _ (ih fun y hy => h y (List.mem_append_left _ hy))

/-- **Deliveries are handed over in order, once, and none is dropped**, whatever resolvers and the
deferred result do, and in whatever order. A delivery is accepted if and only if the result is still
awaited and no other delivery waits. A poll gives the delivery that waits, and if none does, it
reports the loss if and only if no resolver is left. So the polls give what was accepted, in order,
but for one delivery that may still wait, and the loss behind it. What was accepted is given by the
next poll, also if the last resolver is dropped before. -/
theorem handed_of_course (h : Course l c) :
    (∀ before after resolver d ok, l = before ++ .delivered resolver d ok :: after →
      (ok = true ↔ .abandoned ∉ before ∧ unpolled before = [])) ∧
    (∀ before after answer, l = before ++ .polled answer :: after →
      (∀ d ∈ unpolled before, answer = some d) ∧
      (unpolled before = [] → (answer = some (.rejected lostReason) ↔ left before = []) ∧
        (answer = none ↔ left before ≠ []))) ∧
    (unpolled l).length ≤ 1 ∧
    (∃ n, polled l ++ unpolled l = accepted l ++ List.replicate n (.rejected lostReason) ∧
      (0 < n → unpolled l = [] ∧ left l = [])) ∧
    ∀ before middle after resolver d answer,
      l = before ++ .delivered resolver d true :: (middle ++ .polled answer :: after) →
      (∀ x ∈ middle, x.isPoll = false) → answer = some d := by
  have hpoll : ∀ {before after answer}, l = before ++ .polled answer :: after →
      ∃ b, Sound before b ∧ answer = b.poll.2 := fun hl => by
    obtain ⟨b, b', hb, hs⟩ := h.exists_step hl
    cases hs
    exact ⟨b, hb.sound, rfl⟩
  refine ⟨?_, ?_, h.sound.length_unpolled_le, h.sound.inTurn, ?_⟩
  · intro before after resolver d ok hl
    obtain ⟨b, b', hb, hs⟩ := h.exists_step hl
    cases hs
    exact hb.sound.accepts d
  · intro before after answer hl
    obtain ⟨b, hb, rfl⟩ := hpoll hl
    refine ⟨fun d hd => hb.gives hd, fun hnone => ?_⟩
    rw [hb.polls, hnone]
    by_cases hleft : left before = [] <;> simp [hleft]
  · intro before middle after resolver d answer hl hmiddle
    have hl' : l = (before ++ .delivered resolver d true :: middle) ++ .polled answer :: after := by
      rw [hl, List.append_assoc, List.cons_append]
    obtain ⟨b, hb, rfl⟩ := hpoll hl'
    exact hb.gives (mem_unpolled hmiddle)

/-- Two resolvers and one delivery each: the second one has to wait for a poll, and all resolvers
are gone when it is given. -/
def relay : List Event :=
  [.copied 0 1, .delivered 0 (.resolved (.text "yes")) true, .delivered 1 (.rejected "no") false,
    .polled (some (.resolved (.text "yes"))), .polled none, .delivered 1 (.rejected "no") true,
    .dropped 0, .dropped 1, .polled (some (.rejected "no")),
    .polled (some (.rejected lostReason))]

theorem course_relay : Course relay ⟨none, 0, true⟩ := by
  have hcopied : Course (relay.take 1) ⟨none, 2, true⟩ :=
    Course.fresh.step (.copy (by decide) (by decide))
  have hfirst : Course (relay.take 3) ⟨some (.resolved (.text "yes")), 2, true⟩ :=
    (hcopied.step (.deliver _ (by decide))).step (.deliver (.rejected "no") (by decide))
  have hpolled : Course (relay.take 5) ⟨none, 2, true⟩ :=
    (hfirst.step (.poll (by decide))).step (.poll (by decide))
  have hsecond : Course (relay.take 8) ⟨some (.rejected "no"), 0, true⟩ :=
    ((hpolled.step (.deliver _ (by decide))).step (.drop (by decide))).step (.drop (by decide))
  exact (hsecond.step (.poll (by decide))).step (.poll (by decide))

/-- The second delivery is refused and later accepted, and it is given after the last resolver is
gone. Behind it comes the loss. -/
theorem handed_of_course_relay : Course relay ⟨none, 0, true⟩ ∧
    accepted relay = [.resolved (.text "yes"), .rejected "no"] ∧ unpolled relay = [] ∧
    left relay = [] ∧ polled relay = accepted relay ++ [.rejected lostReason] ∧
    (∃ n, polled relay ++ unpolled relay =
      accepted relay ++ List.replicate n (.rejected lostReason) ∧
        (0 < n → unpolled relay = [] ∧ left relay = [])) ∧
    unpolled (relay.take 2) ≠ [] := by
  obtain ⟨haccepts, -, -, hturn, -⟩ := handed_of_course course_relay
  refine ⟨course_relay, by decide, by decide, by decide, by decide, hturn, fun hnone => ?_⟩
  have hrefused := haccepts (relay.take 2) (relay.drop 3) 1 (.rejected "no") false rfl
  exact absurd (hrefused.2 ⟨by decide, hnone⟩) (by decide)

end Stagecraft.Channel
