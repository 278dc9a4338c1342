import Stagecraft.Proofs.Schedule.Conservation

/-!
# Journals of a step

What happens in a step can be written down visit by visit. A journal is given by `log`, which says
what is noted of the visit at a place of the list when a pass has come to some point. The trace of
the blocks that a step executes is the journal that notes the thread of each block.

* `World.journal` : what a step writes down;
* `World.map_journal`, `World.flatMap_journal` : changing the notes changes nothing else;
* `World.journal_eq_rounds` : what a step writes down is what its rounds write down;
* `World.trace_eq_journal` : the trace of a step is a journal.
-/

namespace Stagecraft

namespace Pass

variable {σ β γ : Type}

/-- The notes of turns at the listed places. -/
def visitAllJournal (log : Pass σ → Nat → List β) (ext : Extensions σ) (fuel : Nat) :
    List Nat → Pass σ → List β
  | [], _ => []
  | i :: rest, p =>
    log p i ++
      match visitAt ext fuel p i with
      | none => []
      | some p =>
        let p := { p with world := p.world.elapse }
        if p.scheduler.budgetExhausted p.world.now then []
        else visitAllJournal log ext fuel rest p

/-- The notes of the rounds of a pass. -/
def roundsJournal (log : Pass σ → Nat → List β) (ext : Extensions σ) (turnFuel : Nat) :
    Nat → Nat → Pass σ → List ThreadId → List β
  | 0, _, _, _ => []
  | fuel + 1, first, p, finished =>
    let p := { p with scheduler := countRound p.scheduler }
    let places := order first p.world.threads.length
    visitAllJournal log ext turnFuel places p ++
      match visitAll ext turnFuel places p with
      | none => []
      | some (p, exhausted) =>
        let (p, finished) := p.collect finished
        let p := { p with scheduler := noteBudget p.scheduler exhausted }
        if p.goesAround exhausted then roundsJournal log ext turnFuel fuel 0 p finished else []

variable {log : Pass σ → Nat → List β} {ext : Extensions σ}

theorem flatMap_visitAllJournal (f : β → List γ) (fuel : Nat) (places : List Nat) :
    ∀ p : Pass σ, (visitAllJournal log ext fuel places p).flatMap f =
      visitAllJournal (fun p i => (log p i).flatMap f) ext fuel places p := by
  induction places with
  | nil => exact fun _ => rfl
  | cons i rest ih =>
    intro p
    simp only [visitAllJournal, List.flatMap_append]
    congr 1
    split
    · rfl
    · split
      · rfl
      · exact ih _

theorem flatMap_roundsJournal (f : β → List γ) (turnFuel : Nat) (fuel : Nat) :
    ∀ (first : Nat) (p : Pass σ) (finished : List ThreadId),
      (roundsJournal log ext turnFuel fuel first p finished).flatMap f =
        roundsJournal (fun p i => (log p i).flatMap f) ext turnFuel fuel first p finished := by
  induction fuel with
  | zero => exact fun _ _ _ => rfl
  | succ fuel ih =>
    intro first p finished
    simp only [roundsJournal, List.flatMap_append, flatMap_visitAllJournal]
    congr 1
    split
    · rfl
    · split
      · exact ih _ _ _
      · rfl

/-- The rounds of a pass: the place where each starts, and the pass at that point. -/
def openings (ext : Extensions σ) (turnFuel : Nat) :
    Nat → Nat → Pass σ → List ThreadId → List (Nat × Pass σ)
  | 0, _, _, _ => []
  | fuel + 1, first, p, finished =>
    let p := { p with scheduler := countRound p.scheduler }
    (first, p) ::
      match visitAll ext turnFuel (order first p.world.threads.length) p with
      | none => []
      | some (p, exhausted) =>
        let (p, finished) := p.collect finished
        let p := { p with scheduler := noteBudget p.scheduler exhausted }
        if p.goesAround exhausted then openings ext turnFuel fuel 0 p finished else []

/-- The notes of a round. -/
def roundJournal (log : Pass σ → Nat → List β) (ext : Extensions σ) (fuel : Nat)
    (o : Nat × Pass σ) : List β :=
  visitAllJournal log ext fuel (order o.1 o.2.world.threads.length) o.2

theorem roundsJournal_eq_openings (turnFuel : Nat) (fuel : Nat) :
    ∀ (first : Nat) (p : Pass σ) (finished : List ThreadId),
      roundsJournal log ext turnFuel fuel first p finished =
        (openings ext turnFuel fuel first p finished).flatMap (roundJournal log ext turnFuel) := by
  induction fuel with
  | zero => exact fun _ _ _ => rfl
  | succ fuel ih =>
    intro first p finished
    rw [roundsJournal, openings, List.flatMap_cons]
    simp only [roundJournal]
    congr 1
    split
    · rfl
    · split
      · exact ih _ _ _
      · rfl

theorem visitAllTrace_eq_journal (ext : Extensions σ) (fuel : Nat) (places : List Nat) :
    ∀ p : Pass σ, visitAllTrace ext fuel places p =
      visitAllJournal (visitAtTrace ext fuel) ext fuel places p := by
  induction places with
  | nil => exact fun _ => rfl
  | cons i rest ih =>
    intro p
    rw [visitAllTrace, visitAllJournal]
    congr 1
    cases visitAt ext fuel p i with
    | none => rfl
    | some p₁ => simp only [ih]

theorem roundsTrace_eq_journal (ext : Extensions σ) (turnFuel : Nat) (fuel : Nat) :
    ∀ (first : Nat) (p : Pass σ) (finished : List ThreadId),
      roundsTrace ext turnFuel fuel first p finished =
        roundsJournal (visitAtTrace ext turnFuel) ext turnFuel fuel first p finished := by
  induction fuel with
  | zero => exact fun _ _ _ => rfl
  | succ fuel ih =>
    intro first p finished
    rw [roundsTrace, roundsJournal]
    simp only [visitAllTrace_eq_journal]
    congr 1
    rcases visitAll ext turnFuel (order first p.world.threads.length)
      ⟨countRound p.scheduler, p.world⟩ with _ | ⟨p₁, exhausted⟩
    · rfl
    · simp only [ih]

end Pass

namespace World

variable {σ β γ : Type}

/-- What a step writes down. -/
def journal (log : Pass σ → Nat → List β) (ext : Extensions σ) (fuel : Nat) (w : World σ) :
    List β :=
  match w.scheduler with
  | none => []
  | some s =>
    let s := s.configure w.settings
    Pass.roundsJournal log ext fuel fuel (Pass.firstPlace s w.threads)
      (Pass.begin s { w with scheduler := none }) []

/-- Writing more down about each note changes nothing else. -/
theorem flatMap_journal (f : β → List γ) (log : Pass σ → Nat → List β) (ext : Extensions σ)
    (fuel : Nat) (w : World σ) : (w.journal log ext fuel).flatMap f =
      w.journal (fun p i => (log p i).flatMap f) ext fuel := by
  unfold journal
  split
  · rfl
  · exact Pass.flatMap_roundsJournal f fuel fuel _ _ _

theorem map_journal (f : β → γ) (log : Pass σ → Nat → List β) (ext : Extensions σ) (fuel : Nat)
    (w : World σ) : (w.journal log ext fuel).map f =
      w.journal (fun p i => (log p i).map f) ext fuel := by
  simp only [List.map_eq_flatMap, flatMap_journal]

/-- The rounds of a step. -/
def rounds (ext : Extensions σ) (fuel : Nat) (w : World σ) : List (Nat × Pass σ) :=
  match w.scheduler with
  | none => []
  | some s =>
    let s := s.configure w.settings
    Pass.openings ext fuel fuel (Pass.firstPlace s w.threads)
      (Pass.begin s { w with scheduler := none }) []

/-- What a step writes down is what its rounds write down. -/
theorem journal_eq_rounds (log : Pass σ → Nat → List β) (ext : Extensions σ) (fuel : Nat)
    (w : World σ) :
    w.journal log ext fuel = (w.rounds ext fuel).flatMap (Pass.roundJournal log ext fuel) := by
  unfold journal rounds
  cases w.scheduler with
  | none => rfl
  | some s => exact Pass.roundsJournal_eq_openings fuel fuel _ _ _

/-- The trace of a step notes the thread of every block. -/
theorem trace_eq_journal (ext : Extensions σ) (fuel : Nat) (w : World σ) :
    w.trace ext fuel = w.journal (Pass.visitAtTrace ext fuel) ext fuel := by
  unfold trace journal
  cases w.scheduler with
  | none => rfl
  | some s => exact Pass.roundsTrace_eq_journal ext fuel fuel _ _ _

end World

end Stagecraft
