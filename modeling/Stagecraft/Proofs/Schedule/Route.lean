import Stagecraft.Proofs.Schedule.Bystanders
import Stagecraft.Proofs.Schedule.Invocations

/-!
# The way through a step

A step is a row of turns, and between them time passes, threads leave and join the list, and events
are looked at. So every turn of a step is reached on a way of turns before it, and what is written
down on this way is the front part of what the step writes down. This holds in the middle of a step
as well, and in one that does not come to its end.

* `World.Interlude` : what a step does between turns;
* `World.Route` : the way from the world in which a step starts, with what is written down;
* `World.trail_step` : **to everything that a step writes down there is a way**;
* `World.route_of_step` : **and one to the end of the step**;
* `World.invocations`, `World.amidst_of_invocations` : the primitives that a step runs, and the way
  to them.
-/

namespace Stagecraft

namespace World

variable {σ β : Type}

/-- What a step does between turns. -/
inductive Interlude : World σ → World σ → Prop
  | elapse (w : World σ) : Interlude w w.elapse
  | begin (k : Scheduler) (w : World σ) :
      Interlude w (Pass.begin k { w with scheduler := none }).world
  | collect (p : Pass σ) (finished : List ThreadId) :
      Interlude p.world (p.collect finished).1.world
  | finish (p : Pass σ) : Interlude p.world (afterPass p)
  | dispatch (w : World σ) : Interlude w w.dispatchEvents
  | flush (w : World σ) : Interlude w w.flushCloud.1

end World

/-- The pass is running under the limits of a scheduler. -/
structure Pass.Under {σ : Type} (k : Scheduler) (p : Pass σ) : Prop where
  inPass : p.world.inPass = true
  limits : k.Alike p.scheduler

namespace World

variable {σ β : Type} {k : Scheduler} {log : Pass σ → Nat → List β} {fuel : Nat}
  {w w' w'' : World σ} {l l' : List β} {p p' : Pass σ}

/-- The way from one world to another in a step, with what `log` writes down about the turns. -/
inductive Route (k : Scheduler) (log : Pass σ → Nat → List β) (fuel : Nat) (w : World σ) :
    List β → World σ → Prop
  | nil : Route k log fuel w [] w
  | aside {l : List β} {w' w'' : World σ} :
      Route k log fuel w l w' → Interlude w' w'' → Route k log fuel w l w''
  | turn {l : List β} {p p' : Pass σ} {i : Nat} : Route k log fuel w l p.world → p.Under k →
      Pass.visitAt .empty fuel p i = some p' → Route k log fuel w (l ++ log p i) p'.world

/-- Between turns nothing is done to the cast. -/
theorem Interlude.sameCast (h : Interlude w w') : SameCast w w' := by
  cases h with
  | dispatch => exact w.sameCast_dispatchEvents
  | _ => exact ⟨rfl, rfl, rfl, rfl, rfl, rfl, rfl⟩

/-- There is a way to a turn in which something is written down, after what is written down
before. -/
def Reaches (k : Scheduler) (log : Pass σ → Nat → List β) (fuel : Nat) (w : World σ)
    (front : List β) (b : β) : Prop :=
  ∃ (p : Pass σ) (i : Nat) (front₁ front₂ rest : List β), Route k log fuel w front₁ p.world ∧
    p.Under k ∧ log p i = front₂ ++ b :: rest ∧ front = front₁ ++ front₂

/-- There is a way to everything that is written down after `l`, and to the end if there is one. -/
structure Trail (k : Scheduler) (log : Pass σ → Nat → List β) (fuel : Nat) (w : World σ)
    (l notes : List β) (last : Option (Pass σ)) : Prop where
  reaches : ∀ front b rest, notes = front ++ b :: rest → Reaches k log fuel w (l ++ front) b
  ends : ∀ p, last = some p → Route k log fuel w (l ++ notes) p.world ∧ p.Under k

/-- What stands in two lists one after the other stands in the first or in the second. -/
theorem append_eq_split {front rest : List β} {b : β} (h : l ++ l' = front ++ b :: rest) :
    (∃ rest', l = front ++ b :: rest') ∨
      ∃ front', front = l ++ front' ∧ l' = front' ++ b :: rest := by
  rcases List.append_eq_append_iff.1 h with ⟨front', rfl, hl'⟩ | ⟨rest', rfl, hl'⟩
  · exact .inr ⟨front', rfl, hl'⟩
  · cases rest' with
    | nil => exact .inr ⟨[], by simp, hl'.symm⟩
    | cons b' rest' =>
      cases hl'
      exact .inl ⟨rest', rfl⟩

namespace Trail

variable {last : Option (Pass σ)}

/-- Nothing more is written down. -/
theorem nil (h : Route k log fuel w l p.world) (hp : p.Under k) :
    Trail k log fuel w l [] (some p) := by
  refine ⟨fun front b rest hl => by simp at hl, fun q hq => ?_⟩
  cases hq
  rw [List.append_nil]
  exact ⟨h, hp⟩

theorem append {notes notes' : List β} (h : Trail k log fuel w l notes (some p))
    (h' : Route k log fuel w (l ++ notes) p.world → p.Under k →
      Trail k log fuel w (l ++ notes) notes' last) :
    Trail k log fuel w l (notes ++ notes') last := by
  obtain ⟨hroute, hp⟩ := h.ends p rfl
  have hrest := h' hroute hp
  refine ⟨fun front b rest hl => ?_, fun q hq => ?_⟩
  -- a note of the first part is reached within it, one of the second after all of the first
  · rcases append_eq_split hl with ⟨rest', hfirst⟩ | ⟨front', rfl, hsecond⟩
    · exact h.reaches front b rest' hfirst
    · rw [← List.append_assoc]
      exact hrest.reaches front' b rest hsecond
  · rw [← List.append_assoc]
    exact hrest.ends q hq

/-- There is nothing. -/
theorem stuck : Trail k log fuel w l [] none :=
  ⟨fun front b rest hl => by simp at hl, fun q hq => by cases hq⟩

/-- The rest does not come to an end. -/
theorem halt {notes : List β} (h : Trail k log fuel w l notes last) :
    Trail k log fuel w l (notes ++ []) none :=
  ⟨fun front b rest hl => h.reaches front b rest (List.append_nil notes ▸ hl),
    fun q hq => by cases hq⟩

end Trail

/-- A turn leaves the limits of the pass alone. -/
theorem under_visitAt {i : Nat} (hp : p.Under k) (h : Pass.visitAt .empty fuel p i = some p') :
    p'.Under k := by
  rcases Pass.along_visitAt h with ⟨-, rfl⟩ | ⟨-, -, -, -, -, hlimits⟩
  · exact hp
  · refine ⟨?_, hp.limits.trans hlimits⟩
    obtain ⟨-, rfl⟩ | ⟨t, k', s, -, hv, rfl⟩ := Pass.visitAt_cases h
    · exact hp.inPass
    · have hsame : s.world.scheduler = p.world.scheduler := (upheld_tends.visit hv).scheduler
      exact (congrArg Option.isNone hsame).trans hp.inPass

/-- One turn. -/
theorem trail_visitAt (h : Route k log fuel w l p.world) (hp : p.Under k) (i : Nat) :
    Trail k log fuel w l (log p i) (Pass.visitAt .empty fuel p i) :=
  ⟨fun front _ rest hl => ⟨p, i, l, front, rest, h, hp, hl, rfl⟩,
    fun _ hq => ⟨h.turn hp hq, under_visitAt hp hq⟩⟩

/-- Turns at the listed places. -/
theorem trail_visitAll (places : List Nat) : ∀ {l : List β} {p : Pass σ},
    Route k log fuel w l p.world → p.Under k →
      Trail k log fuel w l (Pass.visitAllJournal log .empty fuel places p)
        ((Pass.visitAll .empty fuel places p).map (·.1)) := by
  induction places with
  | nil => exact fun h hp => .nil h ⟨hp.inPass, hp.limits.trans ⟨_, _, _, rfl⟩⟩
  | cons i rest ih =>
    intro l p h hp
    have hturn := trail_visitAt h hp i
    rw [Pass.visitAllJournal, Pass.visitAll]
    cases hv : Pass.visitAt .empty fuel p i with
    | none => exact hturn.halt
    | some p₁ =>
      rw [hv] at hturn
      refine hturn.append fun hroute hp₁ => ?_
      -- time passes after the turn, and then the pass may be out of time
      have hpast : Route k log fuel w (l ++ log p i) p₁.world.elapse := hroute.aside (.elapse _)
      simp only
      split
      · exact .nil hpast ⟨hp₁.inPass, hp₁.limits.trans ⟨_, _, _, rfl⟩⟩
      · exact ih (p := { p₁ with world := p₁.world.elapse }) hpast ⟨hp₁.inPass, hp₁.limits⟩

/-- The rounds of a pass, by induction on their number. -/
theorem trail_rounds {turnFuel : Nat} (fuel : Nat) : ∀ {first : Nat} {l : List β} {p : Pass σ}
    {finished : List ThreadId}, Route k log turnFuel w l p.world → p.Under k →
      Trail k log turnFuel w l (Pass.roundsJournal log .empty turnFuel fuel first p finished)
        ((Pass.rounds .empty turnFuel fuel first p finished).map (·.1)) := by
  induction fuel with
  | zero => exact fun h hp => .stuck
  | succ fuel ih =>
    intro first l p finished h hp
    have hround := trail_visitAll (Pass.order first p.world.threads.length)
      (p := { p with scheduler := Pass.countRound p.scheduler }) h
      ⟨hp.inPass, hp.limits.trans ⟨_, _, _, rfl⟩⟩
    rw [Pass.roundsJournal, Pass.rounds]
    simp only at hround ⊢
    rcases hv : Pass.visitAll .empty turnFuel (Pass.order first p.world.threads.length)
      { p with scheduler := Pass.countRound p.scheduler } with _ | ⟨p₁, exhausted⟩
    · rw [hv] at hround
      exact hround.halt
    · rw [hv] at hround
      refine hround.append fun hroute hp₁ => ?_
      have hpast := hroute.aside (.collect p₁ finished)
      have hp₂ : Pass.Under k { (p₁.collect finished).1 with
          scheduler := Pass.noteBudget (p₁.collect finished).1.scheduler exhausted } :=
        ⟨hp₁.inPass, hp₁.limits.trans ⟨_, _, _, rfl⟩⟩
      simp only
      split
      · exact ih hpast hp₂
      · exact .nil hpast hp₂

/-- **There is a way to everything that a step writes down**, also in a step that does not come to
its end, and to the end of its rounds. -/
theorem trail_step {s : Scheduler} (hs : w.scheduler = some s) (log : Pass σ → Nat → List β)
    (fuel : Nat) :
    Trail (s.configure w.settings) log fuel w [] (w.journal log .empty fuel)
      ((w.roundsOfStep .empty fuel).map (·.1)) := by
  unfold journal roundsOfStep
  rw [hs]
  exact trail_rounds fuel (.aside .nil (.begin (s.configure w.settings) w)) ⟨rfl, _, _, _, rfl⟩

/-- **There is a way to the end of a step.** -/
theorem route_of_step {s : Scheduler} (hs : w.scheduler = some s) (log : Pass σ → Nat → List β)
    {ended : List ThreadId} (h : w.step .empty fuel = some (w', ended)) :
    Route (s.configure w.settings) log fuel w (w.journal log .empty fuel) w' := by
  obtain ⟨p, hp, rfl⟩ := exists_rounds_of_step (by rw [inPass, hs]; rfl) h
  obtain ⟨hroute, -⟩ := (trail_step hs log fuel).ends p (by rw [hp]; rfl)
  exact ((hroute.aside (.finish p)).aside (.dispatch _)).aside (.flush _)

/-! ### The primitives of a step -/

/-- The primitives that a step runs. -/
def invocations (fuel : Nat) (w : World σ) : List (Invocation σ) :=
  w.journal (Pass.visitAtInvocations fuel) .empty fuel

/-- A primitive in a step: the step has come to a turn, and the turn to the primitive. -/
structure Amidst (k : Scheduler) (fuel : Nat) (w : World σ) (front : List (Invocation σ))
    (i : Invocation σ) (p : Pass σ) (place : Nat) (t : Thread)
    (front₁ front₂ : List (Invocation σ)) : Prop where
  route : Route k (Pass.visitAtInvocations fuel) fuel w front₁ p.world
  inPass : p.world.inPass = true
  thread : p.world.threads[place]? = some t
  along : Scene.Along k (p.world.graph? t.actor) ⟨p.without place, t⟩ front₂ i.before
  within : i.Within k (p.world.graph? t.actor)
  front : front = front₁ ++ front₂

/-- **To each primitive that a step runs the ones before it lead**, from turn to turn and then in
its own. -/
theorem amidst_of_invocations {s : Scheduler} (hs : w.scheduler = some s)
    {front rest : List (Invocation σ)} {i : Invocation σ}
    (h : w.invocations fuel = front ++ i :: rest) :
    ∃ p place t front₁ front₂,
      Amidst (s.configure w.settings) fuel w front i p place t front₁ front₂ := by
  obtain ⟨p, place, front₁, front₂, rest', hroute, hp, hturn, hfront⟩ :=
    (trail_step hs (Pass.visitAtInvocations fuel) fuel).reaches front i rest h
  obtain ⟨t, ht, halong, hwithin⟩ := Pass.along_of_mem hturn
  exact ⟨p, place, t, front₁, front₂, hroute, hp.inPass, ht, halong.of_alike hp.limits,
    hwithin.of_alike hp.limits, hfront⟩

end World

end Stagecraft
