import Mathlib.Algebra.Order.Field.Rat
import Mathlib.Algebra.Order.Ring.Cast
import Mathlib.Data.Nat.Cast.Order.Field
import Mathlib.Tactic.Linarith
import Mathlib.Tactic.Ring
import Stagecraft.Clock.Limiter

/-!
# The rate that a limiter allows

What a bucket of tokens lets through when its tokens are exact. A full bucket holds what it refills
in one second, so within any window of time it grants at most that many sends, and what it refills
during the window. The bound is an account: a grant takes a token, and between two readings at most
the time that has passed is added.

* `Limiter.grants` : the readings of the sends that are granted;
* `Limiter.tokens_refill` : a refill adds the time that has passed, up to the capacity;
* `Limiter.length_grants_le` : grants are paid for by the tokens and the time;
* `Limiter.Due` : there will be a token, unless it is taken before;
* `Limiter.rate_of_queries` : **the rate is bounded over every window**, a refusal takes nothing,
  and after a pause that is long enough there is none.
-/

namespace Stagecraft

instance : TokenArithmetic ℚ where
  ofNat n := n
  seconds t := t / 1000000000
  add := (· + ·)
  sub := (· - ·)
  mul := (· * ·)
  less a b := a < b

namespace Limiter

open TokenArithmetic

/-! ### Limiters and those who ask them -/

/-- What a limiter is asked. -/
inductive Query where
  | send
  | available
deriving DecidableEq

section Run

variable {R : Type} [TokenArithmetic R]

/-- Ask once; tells whether a send was granted. -/
def ask (l : Limiter R) (now : Span) : Query → Limiter R × Bool
  | .send => l.send now
  | .available => ((l.available now).1, false)

/-- The limiter after it was asked, question after question. -/
def asked (l : Limiter R) : List (Span × Query) → Limiter R
  | [] => l
  | (now, q) :: rest => (l.ask now q).1.asked rest

/-- The readings at which it granted a send. -/
def grants (l : Limiter R) : List (Span × Query) → List Span
  | [] => []
  | (now, q) :: rest =>
    if (l.ask now q).2 then now :: (l.ask now q).1.grants rest else (l.ask now q).1.grants rest

theorem grants_sublist (queries : List (Span × Query)) :
    ∀ l : Limiter R, (l.grants queries).Sublist (queries.map (·.1)) := by
  induction queries with
  | nil => exact fun _ => .slnil
  | cons query rest ih =>
    intro l
    rw [grants, List.map_cons]
    split
    · exact (ih _).cons_cons _
    · exact (ih _).cons _

end Run

variable {l : Limiter ℚ} {now t t₁ t₂ : Span}

/-! ### Exact tokens -/

/-- The bucket holds no less than nothing and no more than its capacity. -/
structure Sound (l : Limiter ℚ) : Prop where
  nonneg : 0 ≤ l.tokens
  full : l.tokens ≤ l.rate

theorem Sound.rate_nonneg (h : l.Sound) : 0 ≤ l.rate := h.nonneg.trans h.full

theorem seconds_nonneg (t : Span) : (0 : ℚ) ≤ seconds t :=
  div_nonneg (Nat.cast_nonneg t) (by norm_num)

theorem seconds_mono (h : t₁ ≤ t₂) : (seconds t₁ : ℚ) ≤ seconds t₂ :=
  div_le_div_of_nonneg_right (Nat.cast_le.mpr h) (by norm_num)

/-- Time that is measured in two parts is measured once. -/
theorem seconds_sub_add (h₁ : now ≤ t) (h₂ : t ≤ t₂) :
    (seconds (t - now) + seconds (t₂ - t) : ℚ) = seconds (t₂ - now) := by
  rw [← Nat.sub_add_sub_cancel h₂ h₁]
  simp only [seconds, Nat.cast_add]
  ring

theorem sound_start (rate : Nat) (now : Span) : (start rate now : Limiter ℚ).Sound :=
  ⟨Nat.cast_nonneg rate, le_refl _⟩

/-- **A refill adds the time that has passed, up to the capacity.** -/
theorem tokens_refill (h : l.Sound) (now : Span) :
    (l.refill now).tokens = min l.rate (l.tokens + seconds (now - l.refilled) * l.rate) := by
  have hpos : 0 ≤ l.tokens + seconds (now - l.refilled) * l.rate :=
    add_nonneg h.nonneg (mul_nonneg (seconds_nonneg _) h.rate_nonneg)
  have hless : ¬ l.tokens + seconds (now - l.refilled) * l.rate < 0 := not_lt.mpr hpos
  simp only [refill, clamp, less, ofNat, add, mul, Nat.cast_zero, decide_eq_true_eq, if_neg hless]
  split
  · exact (min_eq_left (le_of_lt ‹_›)).symm
  · exact (min_eq_right (not_lt.mp ‹_›)).symm

theorem Sound.refill (h : l.Sound) (now : Span) : (l.refill now).Sound := by
  refine ⟨?_, ?_⟩ <;> rw [tokens_refill h]
  · exact le_min h.rate_nonneg
      (add_nonneg h.nonneg (mul_nonneg (seconds_nonneg _) h.rate_nonneg))
  · exact min_le_left _ _

theorem tokens_le_refill (h : l.Sound) (now : Span) : l.tokens ≤ (l.refill now).tokens := by
  rw [tokens_refill h]
  exact le_min h.full (le_add_of_nonneg_right (mul_nonneg (seconds_nonneg _) h.rate_nonneg))

/-! ### One question -/

theorem rate_ask (l : Limiter ℚ) (now : Span) (q : Query) : (l.ask now q).1.rate = l.rate := by
  cases q with
  | send =>
    simp only [ask, send]
    split <;> rfl
  | available => rfl

theorem refilled_ask (l : Limiter ℚ) (now : Span) (q : Query) :
    (l.ask now q).1.refilled = now := by
  cases q with
  | send =>
    simp only [ask, send]
    split <;> rfl
  | available => rfl

/-- A question refills the bucket, and takes one token if it is granted. -/
theorem tokens_ask (l : Limiter ℚ) (now : Span) (q : Query) :
    ((l.ask now q).2 = false ∧ (l.ask now q).1 = l.refill now) ∨
      (l.ask now q).2 = true ∧ 1 ≤ (l.refill now).tokens ∧
        (l.ask now q).1.tokens = (l.refill now).tokens - 1 := by
  cases q with
  | send =>
    simp only [ask, send, less, ofNat, sub, Nat.cast_one, decide_eq_true_eq]
    split
    · exact .inl ⟨rfl, rfl⟩
    · exact .inr ⟨rfl, not_lt.mp ‹_›, rfl⟩
  | available => exact .inl ⟨rfl, rfl⟩

theorem Sound.ask (h : l.Sound) (now : Span) (q : Query) : (l.ask now q).1.Sound := by
  have hr := h.refill now
  rcases tokens_ask l now q with ⟨-, heq⟩ | ⟨-, hone, htokens⟩
  · rwa [heq]
  · have hfull : (l.refill now).tokens ≤ l.rate := hr.full
    refine ⟨?_, ?_⟩ <;> rw [htokens]
    · linarith
    · rw [rate_ask]
      linarith

/-- What a question grants and what it leaves comes out of the refilled bucket. -/
theorem ask_le_refill (l : Limiter ℚ) (now : Span) (q : Query) :
    ((if (l.ask now q).2 then 1 else 0 : ℚ)) + (l.ask now q).1.tokens = (l.refill now).tokens := by
  rcases tokens_ask l now q with ⟨hno, heq⟩ | ⟨hyes, -, htokens⟩
  · rw [hno, heq, if_neg Bool.false_ne_true, zero_add]
  · rw [hyes, if_pos rfl, htokens]
    ring

/-! ### A run of questions -/

theorem Sound.asked (queries : List (Span × Query)) :
    ∀ {l : Limiter ℚ}, l.Sound → (l.asked queries).Sound := by
  induction queries with
  | nil => exact fun h => h
  | cons query rest ih => exact fun h => ih (h.ask query.1 query.2)

theorem rate_asked (queries : List (Span × Query)) :
    ∀ l : Limiter ℚ, (l.asked queries).rate = l.rate := by
  induction queries with
  | nil => exact fun _ => rfl
  | cons query rest ih => exact fun l => (ih _).trans (rate_ask l query.1 query.2)

/-- The number of grants within a window. -/
def granted (t₁ t₂ : Span) (readings : List Span) : Nat :=
  readings.countP fun t => t₁ ≤ t ∧ t ≤ t₂

theorem granted_cons (t₁ t₂ : Span) (l : Limiter ℚ) (now : Span) (q : Query)
    (rest : List (Span × Query)) (h₁ : t₁ ≤ now) (h₂ : now ≤ t₂) :
    (granted t₁ t₂ (l.grants ((now, q) :: rest)) : ℚ) =
      (if (l.ask now q).2 then 1 else 0) + granted t₁ t₂ ((l.ask now q).1.grants rest) := by
  rw [grants]
  split
  · rw [granted, List.countP_cons_of_pos (by simp [h₁, h₂]), Nat.cast_add_one, add_comm]
    rfl
  · rw [zero_add]

/-- Questions after a window are granted outside of it. -/
theorem granted_of_late (queries : List (Span × Query)) (h : ∀ query ∈ queries, t₂ < query.1)
    (l : Limiter ℚ) : granted t₁ t₂ (l.grants queries) = 0 := by
  refine List.countP_eq_zero.mpr fun s hs => ?_
  obtain ⟨query, hquery, rfl⟩ := List.mem_map.mp ((grants_sublist queries l).subset hs)
  have hlate := h query hquery
  simp only [decide_eq_true_eq, not_and, not_le]
  exact fun _ => hlate

/-- **Grants are paid for by the tokens in the bucket and by the time until the last of them.** -/
theorem length_grants_le (queries : List (Span × Query)) : ∀ {l : Limiter ℚ}, l.Sound →
    (l.refilled :: queries.map (·.1)).Pairwise (· ≤ ·) → t₁ ≤ l.refilled → l.refilled ≤ t₂ →
    (granted t₁ t₂ (l.grants queries) : ℚ) ≤
      l.tokens + seconds (t₂ - l.refilled) * l.rate := by
  induction queries with
  | nil =>
    intro l hs _ _ _
    exact (Nat.cast_zero (R := ℚ)).le.trans
      (add_nonneg hs.nonneg (mul_nonneg (seconds_nonneg _) hs.rate_nonneg))
  | cons query rest ih =>
    obtain ⟨now, q⟩ := query
    intro l hs hsorted h₁ h₂
    have hnow : l.refilled ≤ now := List.rel_of_pairwise_cons hsorted List.mem_cons_self
    have hrest : (now :: rest.map (·.1)).Pairwise (· ≤ ·) := hsorted.of_cons
    by_cases hlate : t₂ < now
    · have hall : ∀ query ∈ (now, q) :: rest, t₂ < query.1 := by
        rintro query (_ | ⟨_, hmem⟩)
        · exact hlate
        · exact hlate.trans_le (List.rel_of_pairwise_cons hrest (List.mem_map_of_mem hmem))
      rw [granted_of_late _ hall, Nat.cast_zero]
      exact add_nonneg hs.nonneg (mul_nonneg (seconds_nonneg _) hs.rate_nonneg)
    -- What the head is granted and what it leaves is what was there, and the time up to it.
    · have hin : now ≤ t₂ := not_lt.mp hlate
      have hleft := ih (hs.ask now q) (by rwa [refilled_ask])
        (by rw [refilled_ask]; exact h₁.trans hnow) (by rwa [refilled_ask])
      have hpaid := ask_le_refill l now q
      have hadded : (l.refill now).tokens ≤ l.tokens + seconds (now - l.refilled) * l.rate := by
        rw [tokens_refill hs]
        exact min_le_right _ _
      rw [granted_cons _ _ _ _ _ _ (h₁.trans hnow) hin, ← seconds_sub_add hnow hin]
      rw [refilled_ask, rate_ask] at hleft
      linarith

/-- **Within any window a bucket grants what it can hold and what it refills meanwhile.** -/
theorem granted_le (queries : List (Span × Query)) : ∀ {l : Limiter ℚ}, l.Sound →
    (queries.map (·.1)).Pairwise (· ≤ ·) →
    (granted t₁ t₂ (l.grants queries) : ℚ) ≤ l.rate + l.rate * seconds (t₂ - t₁) := by
  induction queries with
  | nil =>
    intro l hs _
    exact (Nat.cast_zero (R := ℚ)).le.trans
      (add_nonneg hs.rate_nonneg (mul_nonneg hs.rate_nonneg (seconds_nonneg _)))
  | cons query rest ih =>
    obtain ⟨now, q⟩ := query
    intro l hs hsorted
    by_cases hearly : now < t₁
    · have hskip : granted t₁ t₂ (l.grants ((now, q) :: rest)) =
          granted t₁ t₂ ((l.ask now q).1.grants rest) := by
        rw [grants]
        split
        · refine List.countP_cons_of_neg ?_
          simp only [decide_eq_true_eq, not_and]
          exact fun h => absurd hearly (not_lt.mpr h)
        · rfl
      have hleft := ih (hs.ask now q) hsorted.of_cons
      rwa [rate_ask, ← hskip] at hleft
    by_cases hlate : t₂ < now
    · have hall : ∀ query ∈ (now, q) :: rest, t₂ < query.1 := by
        rintro query (_ | ⟨_, hmem⟩)
        · exact hlate
        · exact hlate.trans_le (List.rel_of_pairwise_cons hsorted (List.mem_map_of_mem hmem))
      rw [granted_of_late _ hall, Nat.cast_zero]
      exact add_nonneg hs.rate_nonneg (mul_nonneg hs.rate_nonneg (seconds_nonneg _))
    -- The first question of the window: the bucket is full at most, and the window begins before.
    · have hfrom : t₁ ≤ now := not_lt.mp hearly
      have hin : now ≤ t₂ := not_lt.mp hlate
      have hleft : (granted t₁ t₂ ((l.ask now q).1.grants rest) : ℚ) ≤ _ :=
        length_grants_le rest (hs.ask now q) (by rwa [refilled_ask]) (by rwa [refilled_ask])
          (by rwa [refilled_ask])
      have hpaid := ask_le_refill l now q
      have hfull : (l.refill now).tokens ≤ l.rate := (hs.refill now).full
      have hwindow : seconds (t₂ - now) * l.rate ≤ seconds (t₂ - t₁) * l.rate :=
        mul_le_mul_of_nonneg_right (seconds_mono (Nat.sub_le_sub_left hfrom t₂)) hs.rate_nonneg
      rw [granted_cons _ _ _ _ _ _ hfrom hin, mul_comm l.rate]
      rw [refilled_ask, rate_ask] at hleft
      linarith

/-! ### Those who rest -/

/-- If nothing is taken before, there is a token at a reading. -/
def Due (l : Limiter ℚ) (t : Span) : Prop := 1 ≤ l.tokens + seconds (t - l.refilled) * l.rate

/-- With a rate of one or more, a refill keeps what is due. -/
theorem Due.refill (h : l.Due t) (hs : l.Sound) (hrate : 1 ≤ l.rate) (hnow : l.refilled ≤ now)
    (ht : now ≤ t) : (l.refill now).Due t := by
  have hmore := mul_nonneg (seconds_nonneg (t - now)) hs.rate_nonneg
  have hsplit := seconds_sub_add hnow ht
  unfold Due at h ⊢
  rw [tokens_refill hs, ← min_add_add_right]
  change 1 ≤ min (l.rate + seconds (t - now) * l.rate) (_ + seconds (t - now) * l.rate)
  refine le_min (by linarith) ?_
  rw [add_assoc, ← add_mul, hsplit]
  exact h

/-- A token is due again as soon as the bucket had the time to refill one. -/
theorem due_of_rested (queries : List (Span × Query)) : ∀ {l : Limiter ℚ}, l.Sound → 1 ≤ l.rate →
    (l.refilled :: queries.map (·.1)).Pairwise (· ≤ ·) → (∀ query ∈ queries, query.1 ≤ t) →
    l.Due t → (∀ s ∈ l.grants queries, 1 / l.rate ≤ seconds (t - s)) →
    (l.asked queries).Due t := by
  induction queries with
  | nil => exact fun _ _ _ _ h _ => h
  | cons query rest ih =>
    obtain ⟨now, q⟩ := query
    intro l hs hrate hsorted ht hdue hrested
    have hnow : l.refilled ≤ now := List.rel_of_pairwise_cons hsorted List.mem_cons_self
    rw [grants] at hrested
    refine ih (hs.ask now q) (by rwa [rate_ask]) (by rw [refilled_ask]; exact hsorted.of_cons)
      (fun query hmem => ht query (List.mem_cons_of_mem _ hmem)) ?_ ?_
    · rcases tokens_ask l now q with ⟨-, heq⟩ | ⟨hyes, hone, htokens⟩
      · rw [heq]
        exact hdue.refill hs hrate hnow (ht _ List.mem_cons_self)
      -- The token has just been taken, so it is the time since then that pays for the next.
      · rw [hyes, if_pos rfl] at hrested
        have hrest : 1 ≤ seconds (t - now) * l.rate :=
          (div_le_iff₀ (lt_of_lt_of_le one_pos hrate)).mp (hrested now List.mem_cons_self)
        unfold Due
        rw [htokens, refilled_ask, rate_ask]
        linarith
    · intro s hmem
      rw [rate_ask]
      refine hrested s ?_
      split
      · exact List.mem_cons_of_mem _ hmem
      · exact hmem

/-- What is due is granted. -/
theorem send_of_due (h : l.Due t) (hs : l.Sound) (hrate : 1 ≤ l.rate) : (l.send t).2 = true := by
  have htoken : 1 ≤ (l.refill t).tokens := by
    rw [tokens_refill hs]
    exact le_min hrate h
  rcases tokens_ask l t .send with ⟨hno, -⟩ | ⟨hyes, -⟩
  · simp only [ask, send, less, ofNat, Nat.cast_one, decide_eq_true_eq,
      if_neg (not_lt.mpr htoken), Bool.true_eq_false] at hno
  · exact hyes

/-! ### The result -/

/-- **The rate is bounded over every window.** However a limiter is asked, at readings that do not
decrease: its tokens stay between none and its capacity; within any window it grants at most its
rate and what it refills meanwhile; where it refuses, it takes nothing; and after a pause of the
time for one token it grants, unless it does not refill even one token a second. -/
theorem rate_of_queries (rate : Nat) (now : Span) (queries : List (Span × Query))
    (h : (now :: queries.map (·.1)).Pairwise (· ≤ ·)) :
    (∀ front, front <+: queries →
      (asked (start rate now : Limiter ℚ) front).capacity = rate ∧
      0 ≤ (asked (start rate now : Limiter ℚ) front).tokens ∧
      (asked (start rate now : Limiter ℚ) front).tokens ≤ rate) ∧
    (∀ t₁ t₂ : Span, (granted t₁ t₂ (grants (start rate now : Limiter ℚ) queries) : ℚ) ≤
      rate + rate * seconds (t₂ - t₁)) ∧
    ∀ front t rest, queries = front ++ (t, .send) :: rest → ∀ l : Limiter ℚ,
      l = asked (start rate now) front →
      ((l.send t).2 = false → (l.send t).1 = (l.available t).1 ∧ l.tokens ≤ (l.send t).1.tokens) ∧
      (1 ≤ rate →
        (∀ s ∈ grants (start rate now : Limiter ℚ) front, 1 / rate ≤ (seconds (t - s) : ℚ)) →
        (l.send t).2 = true) := by
  have hs := sound_start rate now
  refine ⟨fun front _ => ?_, fun t₁ t₂ => granted_le queries hs h.of_cons, ?_⟩
  · have hrate : (asked (start rate now : Limiter ℚ) front).rate = rate := rate_asked front _
    exact ⟨hrate, (hs.asked front).nonneg, (hs.asked front).full.trans hrate.le⟩
  rintro front t rest rfl l rfl
  have hsl := hs.asked front
  refine ⟨fun hno => ?_, fun hone hrested => ?_⟩
  · rcases tokens_ask (asked (start rate now) front) t .send with ⟨-, heq⟩ | ⟨hyes, -⟩
    · refine ⟨heq, ?_⟩
      change (send _ t).1 = _ at heq
      rw [heq]
      exact tokens_le_refill hsl t
    · exact absurd hno (by rw [show (send _ t).2 = true from hyes]; exact Bool.noConfusion)
  · have hrate : (1 : ℚ) ≤ (start rate now : Limiter ℚ).rate := Nat.one_le_cast.mpr hone
    have hsorted : (now :: front.map (·.1)).Pairwise (· ≤ ·) :=
      h.sublist ((((List.sublist_append_left front _).map _)).cons_cons now)
    have hearlier : ∀ query ∈ front, query.1 ≤ t := by
      have happ := h.of_cons
      rw [List.map_append, List.pairwise_append] at happ
      exact fun query hmem => happ.2.2 _ (List.mem_map_of_mem hmem) _ List.mem_cons_self
    -- A full bucket has a token for whoever comes first.
    have hdue : (start rate now : Limiter ℚ).Due t :=
      le_add_of_le_of_nonneg hrate (mul_nonneg (seconds_nonneg _) hs.rate_nonneg)
    exact send_of_due (due_of_rested front hs hrate hsorted hearlier hdue hrested) hsl
      (by rwa [rate_asked])

/-- Four sends within half a second. -/
def hasty : List (Span × Query) :=
  [(0, .send), (0, .send), (250000000, .send), (500000000, .send)]

/-- At two a second the bucket is empty at once; the third send comes too early and takes nothing
from the fourth. The bound for the half second is met exactly. -/
theorem rate_of_queries_hasty :
    (0 :: hasty.map (·.1)).Pairwise (· ≤ ·) ∧
    grants (start 2 0 : Limiter ℚ) hasty = [0, 0, 500000000] ∧
    (granted 0 500000000 (grants (start 2 0 : Limiter ℚ) hasty) : ℚ) =
      (2 : Nat) + (2 : Nat) * seconds (500000000 - 0) ∧
    (asked (start 2 0 : Limiter ℚ) (hasty.take 3)).tokens = 1 / 2 ∧
    ((asked (start 2 0 : Limiter ℚ) (hasty.take 3)).send 500000000).2 = true := by
  have h : (0 :: hasty.map (·.1)).Pairwise (· ≤ ·) := by decide
  have hbound := rate_of_queries 2 0 hasty h
  refine ⟨h, by decide +kernel, ?_, by decide +kernel, ?_⟩
  · exact le_antisymm (hbound.2.1 0 500000000) (by decide +kernel)
  · exact (hbound.2.2 (hasty.take 3) 500000000 [] rfl _ rfl).2 (by decide) (by decide +kernel)

end Limiter

end Stagecraft
