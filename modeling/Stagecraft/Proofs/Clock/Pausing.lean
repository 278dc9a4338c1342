import Mathlib.Algebra.BigOperators.Intervals
import Mathlib.Order.Interval.Finset.Nat
import Stagecraft.Clock.ProjectTimer

/-!
# What the timer of a project counts

The timer keeps where it counts from and, while it is paused, when that began. A pause is folded
into the former only when it is over, and a reset may fall into it. What it counts is told of the
history alone: it is the time since the last reset in which the last pause or resume was no pause.
Both grow in the same way: what counts up to a press of a button, if that does not reset it, and the
time since then, if the timer runs.

* `ProjectTimer.pausedAfter`, `ProjectTimer.countsFrom`, `ProjectTimer.unpaused` : the time that has
  to be counted, of a history;
* `ProjectTimer.unpaused_append` : how it grows with a press;
* `ProjectTimer.elapsed_press` : how the timer grows with a press;
* `ProjectTimer.elapsed_of_presses` : **the timer counts the time that has to be counted**, and
  until the next reset it does not go back.
-/

namespace Stagecraft.ProjectTimer

/-! ### Histories -/

/-- What is done to a timer. -/
inductive Button where
  | pause
  | resume
  | reset
deriving DecidableEq

/-- Press a button at a reading. -/
def press (t : ProjectTimer) (now : Span) : Button → ProjectTimer
  | .pause => t.pause now
  | .resume => t.resume now
  | .reset => t.reset now

/-- Press one button after the other. -/
def presses (t : ProjectTimer) (history : List (Span × Button)) : ProjectTimer :=
  history.foldl (fun t p => t.press p.1 p.2) t

/-- Whether a timer with a history is paused from a reading on: of the pauses and resumes up to
then, the last one is a pause. -/
def pausedAfter (history : List (Span × Button)) (t : Span) : Bool :=
  (history.reverse.find? fun p => p.1 ≤ t && p.2 != .reset).any fun p => p.2 == .pause

/-- The reading of the last reset, or that at which the timer was made. -/
def countsFrom (made : Span) (history : List (Span × Button)) : Span :=
  (history.reverse.find? fun p => p.2 == .reset).elim made (·.1)

/-- The time since the last reset during which the timer is not paused, nanosecond by nanosecond. -/
def unpaused (made : Span) (history : List (Span × Button)) (now : Span) : Span :=
  ((Finset.Ico (countsFrom made history) now).filter fun t => pausedAfter history t = false).card

variable {made now later r : Span} {history : List (Span × Button)} {b : Button} {t : ProjectTimer}

/-- Readings that do not decrease, from the making of a timer to a last one. -/
def InOrder (made : Span) (history : List (Span × Button)) (now : Span) : Prop :=
  (made :: history.map (·.1) ++ [now]).Pairwise (· ≤ ·)

theorem InOrder.le_last (h : InOrder made history now) : ∀ p ∈ history, p.1 ≤ now := fun _ hp =>
  (List.pairwise_append.1 h).2.2 _ (List.mem_cons_of_mem _ (List.mem_map_of_mem hp)) _
    (List.mem_singleton_self now)

theorem InOrder.made_le (h : InOrder made history now) : made ≤ now :=
  (List.pairwise_append.1 h).2.2 _ List.mem_cons_self _ (List.mem_singleton_self now)

theorem InOrder.until (h : InOrder made (history ++ [(r, b)]) now) :
    InOrder made history r ∧ r ≤ now := by
  unfold InOrder at h
  rw [List.map_append, ← List.cons_append, List.pairwise_append] at h
  exact ⟨h.1, h.2.2 r (List.mem_append_right _ (List.mem_singleton_self r)) now
    (List.mem_singleton_self now)⟩

/-- The last press is the latest. -/
theorem InOrder.le_press (h : InOrder made history r) (b : Button) :
    ∀ p ∈ history ++ [(r, b)], p.1 ≤ r := by
  intro p hp
  rcases List.mem_append.1 hp with hp | hp
  · exact h.le_last p hp
  · rw [List.mem_singleton.1 hp]

/-! ### The time that has to be counted -/

theorem pausedAfter_append (history : List (Span × Button)) (r : Span) (b : Button) (t : Span) :
    pausedAfter (history ++ [(r, b)]) t =
      if r ≤ t ∧ b ≠ .reset then b == .pause else pausedAfter history t := by
  unfold pausedAfter
  rw [List.reverse_append, List.reverse_singleton, List.singleton_append, List.find?_cons]
  by_cases hr : r ≤ t
  · rw [decide_eq_true hr]
    cases b with
    | pause | resume => exact (if_pos ⟨hr, by decide⟩).symm
    | reset => exact (if_neg fun h => h.2 rfl).symm
  · rw [decide_eq_false hr, if_neg fun h => hr h.1]
    rfl

/-- After the last press nothing changes. -/
theorem pausedAfter_of_le (h : ∀ p ∈ history, p.1 ≤ now) {t : Span} (ht : now ≤ t) :
    pausedAfter history t = pausedAfter history now := by
  induction history using List.reverseRecOn with
  | nil => rfl
  | append_singleton history p ih =>
    obtain ⟨r, b⟩ := p
    have hr : r ≤ now := h (r, b) (by simp)
    rw [pausedAfter_append, pausedAfter_append, ih fun q hq => h q (List.mem_append_left _ hq)]
    simp [hr, hr.trans ht]

theorem countsFrom_append (made : Span) (history : List (Span × Button)) (r : Span) (b : Button) :
    countsFrom made (history ++ [(r, b)]) = if b = .reset then r else countsFrom made history := by
  unfold countsFrom
  rw [List.reverse_append, List.reverse_singleton, List.singleton_append, List.find?_cons]
  cases b <;> rfl

theorem countsFrom_le (h : InOrder made history now) : countsFrom made history ≤ now := by
  unfold countsFrom
  cases hf : history.reverse.find? fun p => p.2 == .reset with
  | none => exact h.made_le
  | some p => exact h.le_last p (List.mem_reverse.1 (List.mem_of_find?_eq_some hf))

theorem unpaused_eq_sum (made : Span) (history : List (Span × Button)) (now : Span) :
    unpaused made history now =
      ∑ t ∈ Finset.Ico (countsFrom made history) now, if pausedAfter history t then 0 else 1 := by
  rw [unpaused, Finset.card_filter]
  refine Finset.sum_congr rfl fun t _ => ?_
  cases pausedAfter history t <;> rfl

/-- From the last press on either all the time counts or none of it. -/
theorem sum_of_last (h : ∀ p ∈ history, p.1 ≤ r) (now : Span) :
    (∑ t ∈ Finset.Ico r now, if pausedAfter history t then 0 else 1) =
      if pausedAfter history r then 0 else now - r := by
  have hconst : ∀ t ∈ Finset.Ico r now, (if pausedAfter history t then 0 else 1) =
      if pausedAfter history r then 0 else 1 := fun t ht => by
    rw [pausedAfter_of_le h (Finset.mem_Ico.1 ht).1]
  rw [Finset.sum_congr rfl hconst, Finset.sum_const, Nat.card_Ico, Nat.nsmul_eq_mul]
  cases pausedAfter history r with
  | true => exact Nat.mul_zero _
  | false => exact Nat.mul_one _

/-- **What counts grows with a press**: up to it, unless it is a reset, and from then on, unless the
timer is paused. -/
theorem unpaused_append (h : InOrder made (history ++ [(r, b)]) now) :
    unpaused made (history ++ [(r, b)]) now =
      (if b = .reset then 0 else unpaused made history r) +
        if pausedAfter (history ++ [(r, b)]) r then 0 else now - r := by
  obtain ⟨hr, hnow⟩ := h.until
  rw [unpaused_eq_sum, countsFrom_append]
  split
  · rw [sum_of_last (hr.le_press b), zero_add]
  · rw [← Finset.sum_Ico_consecutive _ (countsFrom_le hr) hnow, sum_of_last (hr.le_press b),
      unpaused_eq_sum]
    refine congrArg (· + _) (Finset.sum_congr rfl fun t ht => ?_)
    have hearlier : ¬ (r ≤ t ∧ b ≠ .reset) := fun hle => Nat.not_lt.2 hle.1 (Finset.mem_Ico.1 ht).2
    rw [pausedAfter_append, if_neg hearlier]

/-! ### The timer -/

/-- The timer counts from a reading no later than the pause, and that is no later than now. -/
structure Sound (t : ProjectTimer) (now : Span) : Prop where
  origin_le : t.origin ≤ t.pausedAt.getD now
  pausedAt_le : t.pausedAt.getD now ≤ now

/-- Counting from later by the time of a pause is counting on. -/
theorem skip_pause {origin p r now : Nat} (ho : origin ≤ p) (hp : p ≤ r) (hnow : r ≤ now) :
    origin + (r - p) ≤ now ∧ now - (origin + (r - p)) = p - origin + (now - r) := by
  omega

theorem Sound.press (h : t.Sound r) (hnow : r ≤ now) (b : Button) : (t.press r b).Sound now := by
  obtain ⟨origin, pausedAt⟩ := t
  obtain ⟨ho, hp⟩ := h
  cases b with
  | pause =>
    cases pausedAt with
    | none => exact ⟨ho, hnow⟩
    | some p => exact ⟨ho, hp.trans hnow⟩
  | resume =>
    cases pausedAt with
    | none => exact ⟨ho.trans hnow, le_refl _⟩
    | some p => exact ⟨(skip_pause ho hp hnow).1, le_refl _⟩
  | reset =>
    cases pausedAt with
    | none => exact ⟨hnow, le_refl _⟩
    | some p => exact ⟨le_refl _, hnow⟩

/-- **The timer grows with a press**: it has what it had before, unless it is reset, and the time
from then on, unless it is paused. -/
theorem elapsed_press (h : t.Sound r) (hnow : r ≤ now) (b : Button) :
    (t.press r b).elapsed now =
      (if b = .reset then 0 else t.elapsed r) + if (t.press r b).isPaused then 0 else now - r := by
  obtain ⟨origin, pausedAt⟩ := t
  obtain ⟨ho, hp⟩ := h
  cases b with
  | pause => cases pausedAt <;> rfl
  | resume =>
    cases pausedAt with
    | none => exact (Nat.sub_add_sub_cancel hnow ho).symm.trans (Nat.add_comm _ _)
    | some p => exact (skip_pause ho hp hnow).2
  | reset =>
    cases pausedAt with
    | none => exact (Nat.zero_add _).symm
    | some p => exact Nat.sub_self r

theorem isPaused_press (t : ProjectTimer) (r : Span) (b : Button) :
    (t.press r b).isPaused = if b ≠ .reset then b == .pause else t.isPaused := by
  obtain ⟨origin, pausedAt⟩ := t
  cases b <;> cases pausedAt <;> rfl

theorem presses_append (t : ProjectTimer) (front middle : List (Span × Button)) :
    t.presses (front ++ middle) = (t.presses front).presses middle := List.foldl_append

/-- By induction on the history, its last press apart. -/
theorem sound_presses : ∀ {now : Span}, InOrder made history now →
    ((start made).presses history).Sound now ∧
      ((start made).presses history).isPaused = pausedAfter history now ∧
      ((start made).presses history).elapsed now = unpaused made history now := by
  induction history using List.reverseRecOn with
  | nil =>
    intro now h
    refine ⟨⟨h.made_le, le_refl _⟩, rfl, ?_⟩
    rw [unpaused_eq_sum, sum_of_last (by simp)]
    rfl
  | append_singleton history p ih =>
    obtain ⟨r, b⟩ := p
    intro now h
    obtain ⟨hr, hnow⟩ := h.until
    obtain ⟨hsound, hpaused, helapsed⟩ := ih hr
    have hstep : (start made).presses (history ++ [(r, b)]) =
        ((start made).presses history).press r b := presses_append ..
    have hpaused' : (((start made).presses history).press r b).isPaused =
        pausedAfter (history ++ [(r, b)]) r := by
      rw [isPaused_press, hpaused, pausedAfter_append]
      simp
    rw [hstep]
    refine ⟨hsound.press hnow b, ?_, ?_⟩
    · rw [hpaused', pausedAfter_of_le (hr.le_press b) hnow]
    · rw [elapsed_press hsound hnow, helapsed, hpaused', unpaused_append h]

/-! ### Until the next reset -/

theorem Sound.mono (h : t.Sound now) (hl : now ≤ later) : t.Sound later := by
  obtain ⟨origin, pausedAt⟩ := t
  obtain ⟨ho, hp⟩ := h
  cases pausedAt with
  | none => exact ⟨ho.trans hl, le_refl _⟩
  | some p => exact ⟨ho, hp.trans hl⟩

theorem elapsed_mono (t : ProjectTimer) (hl : now ≤ later) : t.elapsed now ≤ t.elapsed later := by
  obtain ⟨origin, pausedAt⟩ := t
  cases pausedAt with
  | none => exact Nat.sub_le_sub_right hl origin
  | some p => exact le_refl _

/-- **A timer that is not reset does not go back.** -/
theorem elapsed_le_presses {middle : List (Span × Button)} :
    ∀ {t : ProjectTimer} {now : Span}, t.Sound now → InOrder now middle later →
      (∀ p ∈ middle, p.2 ≠ .reset) → t.elapsed now ≤ (t.presses middle).elapsed later := by
  induction middle with
  | nil => exact fun {t _} _ h _ => t.elapsed_mono h.made_le
  | cons p middle ih =>
    obtain ⟨r, b⟩ := p
    intro t now hs h hkeep
    have hnow : now ≤ r := List.rel_of_pairwise_cons h List.mem_cons_self
    have hsr : t.Sound r := hs.mono hnow
    calc t.elapsed now
      _ ≤ t.elapsed r := t.elapsed_mono hnow
      _ ≤ (t.press r b).elapsed r := by
        rw [elapsed_press hsr (le_refl r), if_neg (hkeep (r, b) List.mem_cons_self)]
        exact Nat.le_add_right _ _
      _ ≤ ((t.press r b).presses middle).elapsed later :=
        ih (hsr.press (le_refl r) b) h.of_cons fun p hp => hkeep p (List.mem_cons_of_mem _ hp)

/-! ### The result -/

/-- **A timer counts exactly the time since its last reset during which it is not paused.** That is
so at any reading after any history, however often it is paused, resumed and reset, and in whatever
order. Whatever is done to it from then on, it does not go back unless it is reset. -/
theorem elapsed_of_presses (made : Span) (front middle : List (Span × Button)) (now later : Span)
    (h : InOrder made front now) (h' : InOrder now middle later) :
    ((start made).presses front).elapsed now = unpaused made front now ∧
    ((∀ p ∈ middle, p.2 ≠ .reset) → ((start made).presses front).elapsed now ≤
      ((start made).presses (front ++ middle)).elapsed later) := by
  obtain ⟨hsound, -, helapsed⟩ := sound_presses h
  refine ⟨helapsed, fun hkeep => ?_⟩
  rw [presses_append]
  exact elapsed_le_presses hsound h' hkeep

/-- A timer is paused twice, reset while it is paused, and resumed twice. -/
def fiddled : List (Span × Button) :=
  [(3, .pause), (4, .pause), (7, .reset), (9, .resume), (9, .resume)]

/-- It has counted from the first resume on. A second pause begins three nanoseconds later, and
there it stays. -/
theorem elapsed_of_presses_fiddled :
    InOrder 2 fiddled 12 ∧ InOrder 12 [(12, .pause)] 20 ∧ unpaused 2 fiddled 12 = 3 ∧
    ((start 2).presses fiddled).elapsed 12 = 3 ∧
    3 ≤ ((start 2).presses (fiddled ++ [(12, .pause)])).elapsed 20 := by
  have h : InOrder 2 fiddled 12 := by
    unfold InOrder
    decide
  have h' : InOrder 12 [(12, .pause)] 20 := by
    unfold InOrder
    decide
  have hcount : unpaused 2 fiddled 12 = 3 := by decide
  obtain ⟨helapsed, hlater⟩ := elapsed_of_presses 2 fiddled [(12, .pause)] 12 20 h h'
  rw [hcount] at helapsed
  exact ⟨h, h', hcount, helapsed, helapsed ▸ hlater (by decide)⟩

end Stagecraft.ProjectTimer
