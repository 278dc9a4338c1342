import Stagecraft.Proofs.Flag.Cues
import Stagecraft.Proofs.Schedule.Fairness
import Stagecraft.Proofs.Schedule.Halting
import Stagecraft.Proofs.Schedule.Hats

/-!
# A clean start

The green flag stops everything and starts the scripts under it. What it leaves of the run before is
a past that nobody can see: worlds that agree in all that is not stopped start the same run.

* `World.bare` : what is left when everything is stopped, and nothing is remembered of it;
* `World.exists_stopAll` : **stopping everything leaves that, and a past**;
* `World.turns_of_fresh` : a pass begins at the head if the thread to go on with is gone;
* `World.CleanStart` : a run that begins with the scripts under the green flag and nothing else;
* `World.cleanStart_greenFlag` : **the green flag is a clean start**, and whatever is left of
  earlier runs makes no difference to what comes.
-/

namespace Stagecraft

/-- A timer that was reset reads zero, paused or not. -/
theorem ProjectTimer.seconds_reset (t : ProjectTimer) (now : Span) :
    (t.reset now).seconds now = 0.0 := by
  have helapsed : (t.reset now).elapsed now = 0 := by
    unfold ProjectTimer.elapsed ProjectTimer.reset
    cases t.pausedAt <;> exact Nat.sub_self now
  rw [ProjectTimer.seconds, helapsed]
  rfl

namespace World

variable {σ : Type} {w w' : World σ}

/-! ### What is left when everything is stopped -/

/-- A world without threads, clones, queued events, questions, bubbles and results, in which no pass
was cut short. -/
def bare (w : World σ) : World σ :=
  { w with
    threads := []
    spawned := []
    scheduler := w.scheduler.map fun k => { k with resumeAt := none }
    sprites := w.sprites.mapValues fun s => { s with clones := [] }
    actors := (w.actors.filter fun _ a => !a.isClone).mapValues fun a => { a with bubble := none }
    cloneCount := 0
    events := .empty
    prompts := []
    channels := .empty
    held := []
    nextChannel := 0 }

/-- Between passes no thread stays when all are stopped. -/
theorem dropFinished_retired (hidle : w.inPass = false) (hstage : w.current = none) :
    ((w.mapThreads Thread.retire).retireCurrent fun _ => true).dropFinished =
      { w with threads := [], spawned := [] } := by
  have hnone : ∀ l : List Thread, (l.map Thread.retire).filter (fun t => !t.isDone) = [] := by
    intro l
    refine List.filter_eq_nil_iff.2 fun t ht => ?_
    obtain ⟨u, -, rfl⟩ := List.mem_map.1 ht
    exact Bool.false_ne_true
  have hidle' : ((w.mapThreads Thread.retire).retireCurrent fun _ => true).inPass = false := hidle
  have hcurrent : w.current.map (fun c => { c with retire := true }) = w.current := by
    rw [hstage]
    rfl
  unfold dropFinished
  rw [hidle']
  simp only [Bool.false_eq_true, if_false, retireCurrent, mapThreads, hnone, if_true, hcurrent]

/-- Without threads there is nobody to stop. -/
theorem stopActor_of_none (hidle : w.inPass = false) (hstage : w.current = none)
    (ht : w.threads = []) (hs : w.spawned = []) (actor : ActorId) (keep : Option ThreadId) :
    w.stopActor actor keep = w := by
  have hdrop : ∀ v : World σ, v.inPass = false → v.threads = [] → v.spawned = [] →
      v.dropFinished = v := by
    rintro ⟨⟩ hv rfl rfl
    exact if_neg (Bool.eq_false_iff.1 hv)
  have hasked : (w.mapThreads fun t =>
      if t.actor = actor && some t.id ≠ keep then t.retire else t).retireCurrent
        (fun c => c.actor == actor && some c.id != keep) = w := by
    obtain ⟨⟩ := w
    simp only at ht hs hstage
    subst ht hs hstage
    rfl
  unfold stopActor
  simp only
  rw [hasked, hdrop w hidle ht hs]

/-- Without threads, deleting a clone takes it out of the actors and off the rosters. -/
theorem exists_deleteClone (hidle : w.inPass = false) (hstage : w.current = none)
    (ht : w.threads = []) (hs : w.spawned = []) (id : ActorId) :
    ∃ sprites cloneCount, (w.deleteClone id).1 =
        { w with
          actors := w.actors.filter fun k a => !(a.isClone && k == id)
          sprites := sprites
          cloneCount := cloneCount } ∧
      (sprites.mapValues fun s => { s with clones := [] }) =
        w.sprites.mapValues fun s => { s with clones := [] } := by
  have hsame : (∀ e ∈ w.actors.entries, e.1 = id → e.2.isClone = false) →
      (w.actors.filter fun k a => !(a.isClone && k == id)) = w.actors := by
    intro hall
    refine Table.eq_of_entries (List.filter_eq_self.2 fun e he => ?_)
    by_cases hid : e.1 = id
    · simp [hall e he hid]
    · simp [hid]
  have hstop := stopActor_of_none hidle hstage ht hs id none
  unfold deleteClone actor?
  cases ha : w.actors.get? id with
  | none =>
    refine ⟨w.sprites, w.cloneCount, ?_, rfl⟩
    simp only
    rw [hsame]
    rintro e he rfl
    rw [(Table.get?_eq_some_iff _ _ _).2 he] at ha
    cases ha
  | some a =>
    cases hclone : a.isClone with
    | false =>
      refine ⟨w.sprites, w.cloneCount, ?_, rfl⟩
      simp only [hclone, Bool.not_false, if_true]
      rw [hsame]
      rintro e he rfl
      obtain rfl := Option.some.inj (((Table.get?_eq_some_iff _ _ _).2 he).symm.trans ha)
      exact hclone
    | true =>
      refine ⟨w.sprites.modify a.sprite fun s => { s with clones := s.clones.filter (· ≠ id) },
        w.cloneCount - 1, ?_, ?_⟩
      · have herase : w.actors.erase id = w.actors.filter fun k a => !(a.isClone && k == id) := by
          refine Table.eq_of_entries (List.filter_congr fun e he => ?_)
          by_cases hid : e.1 = id
          · rw [← hid, (Table.get?_eq_some_iff _ _ _).2 he] at ha
            obtain rfl := Option.some.inj ha
            simp [hid, hclone]
          · simp [hid]
        simp only [hclone, Bool.not_true, Bool.false_eq_true, if_false]
        rw [hstop, herase]
      · refine Table.eq_of_entries (List.map_map.trans (List.map_congr_left fun e _ => ?_))
        simp only [Function.comp_apply]
        split <;> rfl

/-- So does deleting some of them, one after the other. -/
theorem exists_deleteClones (ids : List ActorId) : ∀ {w : World σ}, w.inPass = false →
    w.current = none → w.threads = [] → w.spawned = [] →
      ∃ sprites cloneCount, ids.foldl (fun w id => (w.deleteClone id).1) w =
          { w with
            actors := w.actors.filter fun k a => !(a.isClone && ids.contains k)
            sprites := sprites
            cloneCount := cloneCount } ∧
        (sprites.mapValues fun s => { s with clones := [] }) =
          w.sprites.mapValues fun s => { s with clones := [] } := by
  induction ids with
  | nil =>
    intro w _ _ _ _
    have hall : (w.actors.filter fun k a => !(a.isClone && ([] : List ActorId).contains k)) =
        w.actors := Table.eq_of_entries (List.filter_eq_self.2 fun e _ => by simp)
    exact ⟨w.sprites, w.cloneCount, by rw [hall]; rfl, rfl⟩
  | cons id rest ih =>
    intro w hidle hstage ht hs
    obtain ⟨sprites₁, count₁, hfirst, hrows₁⟩ := exists_deleteClone hidle hstage ht hs id
    obtain ⟨sprites, count, hrest, hrows⟩ := ih (w := { w with
      actors := w.actors.filter fun k a => !(a.isClone && k == id)
      sprites := sprites₁
      cloneCount := count₁ }) hidle hstage ht hs
    refine ⟨sprites, count, ?_, hrows.trans hrows₁⟩
    have hactors : ((w.actors.filter fun k a => !(a.isClone && k == id)).filter
        fun k a => !(a.isClone && rest.contains k)) =
          w.actors.filter fun k a => !(a.isClone && (id :: rest).contains k) := by
      refine Table.eq_of_entries (List.filter_filter.trans (List.filter_congr fun e _ => ?_))
      simp only [List.contains_cons]
      rw [Bool.and_comm, ← Bool.not_or, ← Bool.and_or_distrib_left]
    rw [List.foldl_cons, hfirst, hrest]
    simp only [hactors]

/-- **Stopping everything** leaves what is bare, the scheduler as it was, and results that nobody
asks for any more. -/
theorem exists_stopAll (hw : w.book.Sound) (hidle : w.inPass = false) (hstage : w.current = none) :
    ∃ channels, w.stopAll =
      { w.bare with
        scheduler := w.scheduler
        channels := channels
        held := w.held
        nextChannel := w.nextChannel } := by
  have hvacant := vacant_stopAll hw hidle
  obtain ⟨sprites, count, hdeleted, hrows⟩ := exists_deleteClones
    (w := { w with threads := [], spawned := [] }) w.clones hidle hstage rfl rfl
  -- an actor that is a clone is in the list of clones
  have hid := identified_of_sound hw
  have hactors : (w.actors.filter fun k a => !(a.isClone && w.clones.contains k)) =
      w.actors.filter fun _ a => !a.isClone := by
    refine Table.eq_of_entries (List.filter_congr fun e he => ?_)
    cases hclone : e.2.isClone with
    | false => simp [hclone]
    | true =>
      have hmem : e.1 ∈ w.clones := by
        rw [← hid e he]
        exact List.mem_map_of_mem (List.mem_filter.2 ⟨List.mem_map_of_mem he, hclone⟩)
      simp [hclone, hmem]
  obtain ⟨channels, hclear⟩ := clearPrompts_eq { w with
    threads := []
    spawned := []
    actors := (w.actors.filter fun _ a => !a.isClone).mapValues fun a => { a with bubble := none }
    sprites := sprites
    cloneCount := count
    events := .empty }
  have hstop : w.stopAll = { w with
      threads := []
      spawned := []
      actors := (w.actors.filter fun _ a => !a.isClone).mapValues fun a => { a with bubble := none }
      sprites := sprites
      cloneCount := count
      events := .empty
      prompts := []
      channels := channels } := by
    refine Eq.trans ?_ hclear
    unfold stopAll
    simp only
    rw [dropFinished_retired hidle hstage]
    have hclones : ({ w with threads := [], spawned := [] } : World σ).clones = w.clones := rfl
    rw [hclones, hdeleted]
    simp only [hactors]
  rw [hstop] at hvacant
  -- the books agree with the actors, and no clone is left among them
  have hcount : count = 0 := hvacant.cloneCount
  have hsprites : sprites = w.sprites.mapValues fun s => { s with clones := [] } := by
    refine Eq.trans ?_ hrows
    refine Table.eq_of_entries ((List.map_id _).symm.trans (List.map_congr_left fun e he => ?_))
    have hroster : e.2.clones = [] := hvacant.rosters e he
    obtain ⟨k, ⟨name, graph, original, clones⟩⟩ := e
    obtain rfl : clones = [] := hroster
    rfl
  refine ⟨channels, ?_⟩
  rw [hstop, hcount, hsprites]
  rfl

/-! ### What is left of the run before -/

theorem nextChannel_stopAll (w : World σ) : w.stopAll.nextChannel = w.nextChannel := by
  obtain ⟨w₁, hmail, -, he⟩ := w.stopAll_eq_clearPrompts
  obtain ⟨channels, hclear⟩ := clearPrompts_eq w₁
  rw [he, hclear]
  exact hmail.nextChannel

/-- The past of a world in which everything is stopped. -/
def past (names : Nat → σ → σ) (w : World σ) (hw : w.InOrder) : Past σ where
  next := w.nextChannel
  channels := w.stopAll.channels
  held := w.held
  stale := w.resumesAt
  host := names w.nextChannel
  channels_lt := w.nextChannel_stopAll ▸ hw.stopAll.channels
  held_lt := hw.held

/-- The flag itself, when everything was stopped: the timer starts again, and so do scripts. -/
def wave (w : World σ) : World σ × List ThreadId :=
  { w with timer := w.timer.reset w.now }.raise .greenFlag

variable {names : Nat → σ → σ}

theorem stopAll_eq_upon (hw : w.Journey) (hhost : names w.nextChannel w.host = w.host) :
    w.stopAll = w.bare.upon (w.past names hw.inOrder) := by
  obtain ⟨channels, hstop⟩ := exists_stopAll hw.tour.sound hw.tour.idle hw.stage
  have hchannels : w.stopAll.channels = channels := by rw [hstop]
  have htable : (w.past names hw.inOrder).table w.bare.channels = channels :=
    Table.eq_of_entries ((List.append_nil _).trans (congrArg Table.entries hchannels))
  have hscheduler : w.bare.scheduler.map (·.upon w.resumesAt) = w.scheduler := by
    unfold resumesAt bare
    simp only
    cases w.scheduler <;> rfl
  have hheld : w.held ++ w.bare.held.map (w.nextChannel + ·) = w.held := List.append_nil _
  have hupon : w.bare.upon (w.past names hw.inOrder) = { w.bare with
      scheduler := w.bare.scheduler.map (·.upon w.resumesAt)
      channels := (w.past names hw.inOrder).table w.bare.channels
      held := w.held ++ w.bare.held.map (w.nextChannel + ·)
      nextChannel := w.nextChannel
      host := names w.nextChannel w.host } := rfl
  rw [hstop, hupon, hscheduler, htable, hheld, hhost]
  rfl

/-- **The green flag makes of a world what it makes of what is bare in it**, behind a past. -/
theorem greenFlag_eq_upon (hw : w.Journey) (hhost : names w.nextChannel w.host = w.host) :
    w.greenFlag = (w.bare.wave.1.upon (w.past names hw.inOrder), w.bare.wave.2) := by
  unfold greenFlag
  simp only
  rw [stopAll_eq_upon hw hhost]
  exact upon_raise (w.past names hw.inOrder)
    { w.bare with timer := w.bare.timer.reset w.bare.now } .greenFlag

theorem settled_bare (hw : w.inPass = false) : w.bare.Settled := by
  refine ⟨?_, rfl, .nil, fun t ht => by cases ht⟩
  rw [← hw, inPass, inPass, bare, Option.isNone_map]

theorem follows_wave (hw : w.inPass = false) : Follows w.bare w.bare.wave.1 := by
  have hreset : Settled { w.bare with timer := w.bare.timer.reset w.bare.now } :=
    ⟨(settled_bare hw).idle, rfl, .nil, fun t ht => by cases ht⟩
  have hstart := (Deed.startHats _ Event.greenFlag.hat Event.greenFlag.fields
    Event.greenFlag.actor).conserves.follows hreset
  exact ⟨hstart.settled, hstart.next_le, hstart.threads⟩

/-- The thread at which a pass was cut short is gone when the scripts start. -/
theorem past_over (hw : w.Journey) : (w.past names hw.inOrder).Over w.bare.wave.1 := by
  have hbare : (w.past names hw.inOrder).Over w.bare := fun id hid =>
    ⟨hw.resumes_lt hid, List.not_mem_nil⟩
  exact hbare.follows (follows_wave hw.tour.idle) (.inl rfl)

/-! ### The scripts under the flag -/

theorem map_id_recruits (n : ThreadId) (scripts : List (ActorId × Handle)) :
    (recruits n scripts).map (·.id) = List.range' n scripts.length := by
  induction scripts generalizing n with
  | nil => rfl
  | cons p rest ih =>
    rw [recruits, List.map_cons, ih, List.length_cons, List.range'_succ]
    rfl

/-- Scripts that no thread runs get new threads, in their order. -/
theorem startScripts_of_idle (restarts : Bool) {scripts : List (ActorId × Handle)}
    (hnodup : scripts.Nodup) : ∀ {w : World σ}, w.inPass = false → w.spawned = [] →
      w.current = none → (∀ p ∈ scripts, ∀ t ∈ w.threads, runsScript p.1 p.2 t = false) →
        startScripts restarts scripts w =
          ({ w with
              threads := w.threads ++ recruits w.nextThread scripts
              nextThread := w.nextThread + scripts.length },
            List.range' w.nextThread scripts.length) := by
  induction scripts with
  | nil =>
    intro w _ _ _ _
    rw [startScripts, recruits, List.append_nil]
    rfl
  | cons p rest ih =>
    intro w hidle hspawned hstage hnone
    obtain ⟨hp, hnodup⟩ := List.nodup_cons.1 hnodup
    have hstart : w.startScript restarts p.1 p.2 =
        ({ w with
            nextThread := w.nextThread + 1
            threads := w.threads ++ [.start w.nextThread p.1 p.2] }, some w.nextThread) := by
      have hcurrent : w.currentRuns p.1 p.2 = false := by rw [currentRuns, hstage]
      have hrunning : w.running? p.1 p.2 = none := by
        rw [running?, hspawned, List.append_nil]
        exact List.find?_eq_none.2 fun t ht => by simp [hnone p List.mem_cons_self t ht]
      have hpush : w.pushThread p.1 p.2 =
          ({ w with
              nextThread := w.nextThread + 1
              threads := w.threads ++ [.start w.nextThread p.1 p.2] }, w.nextThread) :=
        if_neg (Bool.eq_false_iff.1 hidle)
      unfold startScript
      rw [hcurrent, hrunning, hpush]
      rfl
    have hrest := ih hnodup (w := { w with
      nextThread := w.nextThread + 1
      threads := w.threads ++ [.start w.nextThread p.1 p.2] }) hidle hspawned hstage ?_
    · rw [startScripts]
      simp only [hstart, hrest, List.append_assoc, List.length_cons, List.range'_succ]
      rw [Nat.add_assoc, Nat.add_comm 1]
      rfl
    · intro q hq t ht
      rcases List.mem_append.1 ht with ht | ht
      · exact hnone q (List.mem_cons_of_mem _ hq) t ht
      · obtain rfl := List.mem_singleton.1 ht
        rw [Bool.eq_false_iff, Ne, runsScript_start]
        rintro rfl
        exact hp hq

/-- **What the green flag makes of a world**: what is bare in it, with the timer at zero and new
threads for the scripts under the flag, in order, of which it gives the ids. -/
theorem exists_greenFlag (hw : w.Journey) :
    ∃ channels, w.greenFlag =
      ({ w.bare with
          timer := w.timer.reset w.now
          threads := recruits w.nextThread (w.bare.hearers (.event .whenFlagClicked) [] none)
          nextThread :=
            w.nextThread + (w.bare.hearers (.event .whenFlagClicked) [] none).length
          scheduler := w.scheduler
          channels := channels
          held := w.held
          nextChannel := w.nextChannel },
        List.range' w.nextThread (w.bare.hearers (.event .whenFlagClicked) [] none).length) := by
  obtain ⟨channels, hstop⟩ := exists_stopAll hw.tour.sound hw.tour.idle hw.stage
  have hjourney : w.stopAll.Journey := hw.apply (c := .stopAll) trivial rfl
  have hscripts := matchingScripts_eq (identified_of_sound hjourney.tour.sound)
    hjourney.inOrder.labelled (.event .whenFlagClicked) [] none
  have hstart := startScripts_of_idle (w := { w.stopAll with
      timer := w.stopAll.timer.reset w.stopAll.now }) true
    (nodup_hearers w.stopAll (.event .whenFlagClicked) [] none) hjourney.tour.idle
    hjourney.settled.spawned hjourney.stage fun p _ t ht => by
      rw [(vacant_stopAll hw.tour.sound hw.tour.idle).threads] at ht
      cases ht
  rw [← hscripts] at hstart
  refine ⟨channels, hstart.trans ?_⟩
  rw [hscripts, hstop]
  rfl

end World

/-! ### The next pass -/

namespace Pass

open World

variable {σ : Type} {w w' : World σ} {ext : Extensions σ} {finished : List ThreadId}

/-- **The turns of a pass begin with a round**, which is cut short before one of the threads if it
does not give all of them a turn; no other round follows then. -/
theorem exists_first_round (hext : ext.Orderly) (hw : w.Settled) {turnFuel fuel first : Nat}
    {s : Scheduler} {p' : Pass σ} {finished' : List ThreadId} (ha : Amid w finished w')
    (h : rounds ext turnFuel fuel first ⟨s, w'⟩ finished = some (p', finished')) :
    ∃ round later, roundsJournal visited ext turnFuel fuel first ⟨s, w'⟩ finished =
        round ++ later ∧
      (round = w'.ids.rotate first ∨ round ≠ [] ∧ later = [] ∧
        ∃ r rest, w'.ids.rotate first = round ++ r :: rest ∧
          p'.scheduler.resumeAt = some r) := by
  cases fuel with
  | zero => cases h
  | succ fuel =>
    rw [rounds] at h
    rw [roundsJournal]
    simp only at h ⊢
    cases hv : visitAll ext turnFuel (order first w'.threads.length) ⟨countRound s, w'⟩ with
    | none =>
      rw [hv] at h
      cases h
    | some r =>
      obtain ⟨p₁, exhausted⟩ := r
      rw [hv] at h
      simp only at h ⊢
      rcases visited_round hext hw ha hv with hall |
        ⟨front, r, rest, hsplit, hne, rfl, hresume, hcut⟩
      · exact ⟨_, _, rfl, .inl hall⟩
      · -- a pass that was cut short goes round no more
        have hgo : ∀ q : Pass σ, q.goesAround true = false := fun q => by simp [goesAround]
        rw [hgo, if_neg (by decide)] at h
        obtain ⟨rfl, -⟩ := Prod.mk.inj (Option.some.inj h)
        refine ⟨front, [], ?_, .inr ⟨hne, rfl, r, rest, hsplit, hresume⟩⟩
        rw [hcut, hgo, if_neg (by decide)]

end Pass

namespace World

variable {σ : Type} {w w' : World σ}

/-- **A pass begins at the head of the list if the thread to go on with is gone.** -/
theorem turns_of_fresh {ext : Extensions σ} {fuel : Nat} {ended : List ThreadId}
    (hext : ext.Orderly) (hw : w.Settled) (hgone : ∀ r, w.resumesAt = some r → r ∉ w.ids)
    (h : w.step ext fuel = some (w', ended)) :
    ∃ round later, w.turns ext fuel = round ++ later ∧
      (round = w.ids ∨ round ≠ [] ∧ later = [] ∧
        ∃ r rest, w.ids = round ++ r :: rest ∧ w'.resumesAt = some r) := by
  obtain ⟨p, hp, hg⟩ := grown_of_step hw h
  have hresumes' : w'.resumesAt = p.scheduler.resumeAt := by
    rw [resumesAt, hg.scheduler]
    rfl
  unfold roundsOfStep at hp
  rw [hresumes', turns, journal]
  cases hs : w.scheduler with
  | none =>
    rw [hs] at hp
    cases hp
  | some k =>
    rw [hs] at hp
    have ha := Pass.amid_begin hw (k.configure w.settings)
    have hids : (Pass.begin (k.configure w.settings) { w with scheduler := none }).world.ids =
        w.ids := by
      rw [ids, ha.threads]
      simp [ids]
    have hfirst : w.ids.rotate (Pass.firstPlace (k.configure w.settings) w.threads) = w.ids := by
      have hresume : (k.configure w.settings).resumeAt = w.resumesAt := by
        rw [resumesAt, hs]
        rfl
      have hhead : around w.ids w.resumesAt = w.ids := by
        cases hr : w.resumesAt with
        | none => rfl
        | some r =>
          rw [around, List.idxOf_eq_length (hgone r hr)]
          exact List.rotate_length _
      exact (Pass.rotate_firstPlace (k.configure w.settings) w.threads).trans (hresume ▸ hhead)
    have hround := Pass.exists_first_round hext hw ha hp
    rwa [hids, hfirst] at hround

/-! ### A clean start -/

/-- A run begins: `flagged` is what the green flag makes of `w`, and `started` are the ids that it
gives. -/
structure CleanStart (w flagged : World σ) (started : List ThreadId) : Prop where
  /-- There is one new thread for each script under the flag, in the order of actors and blocks. -/
  threads : flagged.threads =
    recruits w.nextThread (flagged.hearers (.event .whenFlagClicked) [] none)
  started : started = flagged.ids
  /-- Each is about to run its hat. -/
  running : ∀ t ∈ flagged.threads, t.status = .running ∧
    ∃ top, t.top = some top ∧ t.stack = [.start top false]
  /-- The actors are those that are no clones. -/
  actors : flagged.actors =
    (w.actors.filter fun _ a => !a.isClone).mapValues fun a => { a with bubble := none }
  /-- But for the threads there are no clones, events, prompts and bubbles. -/
  vacant : ({ flagged with threads := [] } : World σ).Vacant
  timer : flagged.timer.seconds flagged.now = 0.0
  /-- The next pass goes through the list from its head, and if it is cut short it is so before one
  of its first turns. -/
  turns : ∀ {ext : Extensions σ} {fuel : Nat} {w' : World σ} {ended : List ThreadId},
    ext.Orderly → flagged.step ext fuel = some (w', ended) →
      ∃ round later, flagged.turns ext fuel = round ++ later ∧
        (round = flagged.ids ∨ round ≠ [] ∧ later = [] ∧
          ∃ r rest, flagged.ids = round ++ r :: rest ∧ w'.resumesAt = some r)

theorem cleanStart_of_journey (hw : w.Journey) : CleanStart w w.greenFlag.1 w.greenFlag.2 := by
  obtain ⟨channels, hflag⟩ := exists_greenFlag hw
  obtain ⟨hvacant, -⟩ := vacant_greenFlag hw.tour.sound hw.tour.idle
  have hjourney : w.greenFlag.1.Journey := hw.apply (c := .greenFlag) trivial rfl
  have hids : w.greenFlag.1.ids =
      List.range' w.nextThread (w.bare.hearers (.event .whenFlagClicked) [] none).length := by
    rw [hflag]
    exact map_id_recruits _ _
  have hresumes : w.greenFlag.1.resumesAt = w.resumesAt := by rw [hflag]; rfl
  have hspawned : ∀ {v : World σ}, v.spawned = [] →
      ({ v with threads := [], spawned := [] } : World σ).Vacant →
        ({ v with threads := [] } : World σ).Vacant := by
    rintro ⟨⟩ rfl h
    exact h
  refine ⟨?_, ?_, fun t ht => ?_, ?_, ?_, ?_, fun hext h => ?_⟩
  · rw [hflag]
    rfl
  · rw [hids, hflag]
  · rw [hflag] at ht
    obtain ⟨id, p, -, rfl⟩ := exists_of_mem_recruits ht
    exact ⟨rfl, p.2, rfl, rfl⟩
  · rw [hflag]
    rfl
  · exact hspawned hjourney.settled.spawned hvacant
  · rw [hflag]
    exact w.timer.seconds_reset w.now
  · -- the thread that is remembered has an old id
    refine turns_of_fresh hext hjourney.settled (fun r hr hmem => ?_) h
    rw [hids] at hmem
    exact Nat.not_lt.2 (List.mem_range'_1.1 hmem).1 (hw.resumes_lt (hresumes.symm.trans hr))

/-- **The green flag is a clean start.** On any journey, whatever extensions, scripts and the host
have done before: the flag leaves one new thread for each script under it, about to run its hat, and
no clones, events, prompts and bubbles; the timer reads zero, and the next pass gives the threads
their turns from the head of the list on, also if the last one was cut short. So two worlds that
agree in all that is not stopped start the same run, as far as anybody can tell: the same cues get
the same answers, and the worlds look the same after each of them. -/
theorem cleanStart_greenFlag (hw : w.Journey) :
    CleanStart w w.greenFlag.1 w.greenFlag.2 ∧
      ∀ (names : Nat → σ → σ) {w' : World σ}, w'.Journey → w'.bare = w.bare →
        names w.nextChannel w.host = w.host → names w'.nextChannel w.host = w.host →
          w'.greenFlag.2 = w.greenFlag.2 ∧
            ∀ cues : List (Cue σ), (∀ c ∈ cues, c.Heeds names) →
              Option.Rel
                (fun r r' => r.2 = r'.2 ∧ Alike names w.nextChannel w'.nextChannel r.1 r'.1)
                (performAll w.nextChannel cues w.greenFlag.1)
                (performAll w'.nextChannel cues w'.greenFlag.1) := by
  refine ⟨cleanStart_of_journey hw, fun names w' hw' hbare hhost hhost' => ?_⟩
  have hhosts : w'.host = w.host := (congrArg World.host hbare : w'.bare.host = w.bare.host)
  have hflag := greenFlag_eq_upon hw hhost
  have hflag' : w'.greenFlag =
      (w'.bare.wave.1.upon (w'.past names hw'.inOrder), w'.bare.wave.2) :=
    greenFlag_eq_upon hw' (by rw [hhosts, hhost'])
  have hover' : (w'.past names hw'.inOrder).Over w'.bare.wave.1 := past_over hw'
  rw [hbare] at hflag' hover'
  rw [hflag, hflag']
  refine ⟨rfl, fun cues hcues => ?_⟩
  exact alike_performAll hcues (follows_wave hw.tour.idle).settled (past_over hw) hover' rfl rfl

/-! ### Two runs after which the same one starts -/

/-- A primitive whose result comes later. -/
def promise : Extension Unit := fun _ _ s =>
  ({ s with world := (s.world.openChannel .fresh).1 },
    .outcome (.deferred (s.world.openChannel .fresh).2))

/-- An extension with that primitive. -/
def later : Extensions Unit := Table.empty.insert "host_later" promise

theorem eq_promise {name : String} {handler : Extension Unit}
    (hget : later.get? name = some handler) : handler = promise := by
  by_cases hname : name = "host_later"
  · subst hname
    rw [later, Table.get?_insert_self] at hget
    exact (Option.some.inj hget).symm
  · rw [later, Table.get?_insert_of_ne _ hname] at hget
    cases hget

theorem orderly_later : later.Orderly := by
  intro name handler hget site args s
  rw [eq_promise hget]
  exact ⟨.single (.tend rfl rfl rfl rfl), rfl⟩

theorem portable_later (p : Past Unit) : Extensions.Portable p later := by
  intro name handler hget site args s
  rw [eq_promise hget]
  simp only [promise, Scene.upon, upon_openChannel]
  rfl

/-- Two scripts under the flag, the first of which waits for a result, and two others: one says
something and asks the user, and one goes on for ever. -/
def encore : Graph :=
  Graph.empty.run
    [.create { Block.detached "flag" (.event .whenFlagClicked) with
        next := some ⟨1, 0⟩
        topLevel := true },
      .create { Block.detached "await" (.custom "host_later") with
        parent := some ⟨0, 0⟩
        next := some ⟨2, 0⟩ },
      .create { Block.detached "show" (.looks .show) with parent := some ⟨1, 0⟩ },
      .create { Block.detached "again" (.event .whenFlagClicked) with
        next := some ⟨4, 0⟩
        topLevel := true },
      .create { Block.detached "loop" (.control .forever) with parent := some ⟨3, 0⟩ },
      .create { Block.detached "say" (.looks .say) with
        inputs := Table.empty.insert "MESSAGE" (.literal (.text "Hey"))
        next := some ⟨6, 0⟩
        topLevel := true },
      .create { Block.detached "ask" (.sensing .askAndWait) with parent := some ⟨5, 0⟩ },
      .create { Block.detached "run" (.control .forever) with
        inputs := Table.empty.insert "SUBSTACK" (.branch ⟨8, 0⟩)
        topLevel := true },
      .create { Block.detached "stay" (.looks .show) with parent := some ⟨7, 0⟩ }]

theorem proper_encore : encore.Proper := Graph.proper_run (by simp [Operation.KeepsLabels])

/-- There is no time for more than one turn in a pass. -/
def stageDoor : World Unit := blank { Settings.standard with workFraction := 0.0 } ()

/-- Two scripts are started and have a pass, which is cut short after the first, and what follows
leaves a clone and an event. -/
def firstNight : List Call :=
  [.addSprite "Cat" encore, .toggleScript 0 ⟨5, 0⟩, .toggleScript 0 ⟨7, 0⟩, .step 9,
    .createClone 0, .queueEvent (.broadcast "go")]

/-- The first script is stopped before it can do anything, so the pass has time for the second one,
and the clone is deleted. -/
def secondNight : List Call :=
  [.addSprite "Cat" encore, .toggleScript 0 ⟨5, 0⟩, .toggleScript 0 ⟨5, 0⟩, .toggleScript 0 ⟨7, 0⟩,
    .step 9, .createClone 0, .deleteClone 1]

/-- Where such a run ends. The host sets the clock then, and the random numbers to come are told, so
that nothing but what lies about differs. -/
def endOf (calls : List Call) : Option (World Unit) :=
  (stageDoor.play calls).map fun w => { w with
    drift := fun _ => 0
    dice := fun _ => 0 }

theorem journey_endOf {calls : List Call} {w : World Unit} (hproper : ∀ c ∈ calls, c.Proper)
    (h : endOf calls = some w) : w.Journey := by
  obtain ⟨w₁, hplay, rfl⟩ := Option.map_eq_some_iff.1 h
  have hjourney : w₁.Journey := (Journey.blank _ ()).play hproper hplay
  exact hjourney.gesture (.tend (.still rfl rfl rfl rfl rfl rfl rfl) .refl) fun hin =>
    ⟨hin.channels, hin.held, hin.programs⟩

/-- Two worlds agree in what is bare in them, but for how their clocks drift and what random numbers
come. -/
def agree (w w' : World Unit) : Bool :=
  w.settings = w'.settings && w.clock = w'.clock && w.drifted = w'.drifted &&
    w.bare.sprites = w'.bare.sprites && w.bare.actors = w'.bare.actors && w.stage = w'.stage &&
    w.bare.scheduler = w'.bare.scheduler && w.keyboard = w'.keyboard && w.mouse = w'.mouse &&
    w.timer = w'.timer && w.user = w'.user && w.cloud = w'.cloud && w.faults = w'.faults &&
    w.answer = w'.answer && w.reports = w'.reports && w.redraw = w'.redraw &&
    w.current = w'.current && w.nextThread = w'.nextThread && w.nextActor = w'.nextActor &&
    w.nextSprite = w'.nextSprite && w.drawn = w'.drawn && w.notices = w'.notices

theorem bare_of_agree {w w' : World Unit} (hdrift : w.drift = w'.drift) (hdice : w.dice = w'.dice)
    (h : agree w w' = true) : w'.bare = w.bare := by
  simp only [agree, Bool.and_eq_true, decide_eq_true_eq] at h
  unfold bare at *
  simp_all

/-- What lies about in a world: the ids of threads and clones, and bubbles; how many events and
questions wait, and how many results there were; and the thread to go on with. -/
def litter (w : World Unit) :
    (List ThreadId × List ActorId × List String) × (Nat × Nat × Nat) × Option ThreadId :=
  ((w.ids, w.clones, w.actors.values.filterMap (·.bubble)),
    (w.events.size, w.prompts.length, w.nextChannel), w.resumesAt)

/-- A result comes, something comes late of an earlier one, the user is asked and answers. -/
def curtainCall : List (Cue Unit) :=
  [.step later 9, .step later 9, .deliver 0 (.resolved (.text "now")), .late 0 none, .ask "Who?",
    .call (.answer "Me"), .step later 9]

/-- The first run leaves two threads, a clone, an event, a question and a bubble, and its next pass
would go on with the second thread; the second one leaves a thread only. After the flag both begin
with the first of the two scripts under it. -/
theorem cleanStart_greenFlag_encore : ∃ w w' : World Unit, w.Journey ∧ w'.Journey ∧
    w'.bare = w.bare ∧
    w.litter = (([1, 2], [1], ["Hey"]), (1, 1, 1), some 2) ∧
    w'.litter = (([2], [], []), (0, 0, 0), none) ∧
    CleanStart w w.greenFlag.1 w.greenFlag.2 ∧
    (w.greenFlag.2, w.greenFlag.1.turns later 9) = ([3, 4], [3]) ∧
    w'.greenFlag.2 = w.greenFlag.2 ∧ (∀ c ∈ curtainCall, c.Heeds fun _ => id) ∧
    (performAll w.nextChannel curtainCall w.greenFlag.1).map (·.2) =
      some [.threads [], .threads [], .flag true, .nothing, .channel 1, .flag true, .threads [3]] ∧
    Option.Rel
      (fun r r' => r.2 = r'.2 ∧ Alike (fun _ => id) w.nextChannel w'.nextChannel r.1 r'.1)
      (performAll w.nextChannel curtainCall w.greenFlag.1)
      (performAll w'.nextChannel curtainCall w'.greenFlag.1) := by
  obtain ⟨w, hw⟩ : ∃ w, endOf firstNight = some w :=
    Option.isSome_iff_exists.1 (by decide +kernel)
  obtain ⟨w', hw'⟩ : ∃ w', endOf secondNight = some w' :=
    Option.isSome_iff_exists.1 (by decide +kernel)
  have hfirst : ∀ {α : Type} {f : World Unit → α} {a : α},
      (endOf firstNight).map f = some a → f w = a := by
    rw [hw]
    exact Option.some.inj
  have hsecond : ∀ {α : Type} {f : World Unit → α} {a : α},
      (endOf secondNight).map f = some a → f w' = a := by
    rw [hw']
    exact Option.some.inj
  have hjourney : w.Journey :=
    journey_endOf (by simp [firstNight, Call.Proper, proper_encore]) hw
  have hjourney' : w'.Journey :=
    journey_endOf (by simp [secondNight, Call.Proper, proper_encore]) hw'
  have hbare : w'.bare = w.bare := by
    have hagree : (endOf firstNight).bind (fun w => (endOf secondNight).map fun w' =>
        agree w w') = some true := by decide +kernel
    obtain ⟨w₁, -, rfl⟩ := Option.map_eq_some_iff.1 hw
    obtain ⟨w₂, -, rfl⟩ := Option.map_eq_some_iff.1 hw'
    rw [hw, hw'] at hagree
    exact bare_of_agree rfl rfl (Option.some.inj hagree)
  have hcues : ∀ c ∈ curtainCall, c.Heeds fun _ => id := by
    simp [curtainCall, Cue.Heeds, orderly_later, portable_later]
  have hanswers : (endOf firstNight).map (fun w =>
      (performAll w.nextChannel curtainCall w.greenFlag.1).map (·.2)) =
        some (some [.threads [], .threads [], .flag true, .nothing, .channel 1, .flag true,
          .threads [3]]) := by
    decide +kernel
  have hleft : (endOf firstNight).map litter =
      some (([1, 2], [1], ["Hey"]), (1, 1, 1), some 2) := by
    decide +kernel
  have hleft' : (endOf secondNight).map litter = some (([2], [], []), (0, 0, 0), none) := by
    decide +kernel
  have hturns : (endOf firstNight).map (fun w =>
      (w.greenFlag.2, w.greenFlag.1.turns later 9)) = some ([3, 4], [3]) := by
    decide +kernel
  obtain ⟨hstart, hsame⟩ := cleanStart_greenFlag hjourney
  obtain ⟨hids, hrel⟩ := hsame (fun _ => id) hjourney' hbare rfl rfl
  exact ⟨w, w', hjourney, hjourney', hbare, hfirst hleft, hsecond hleft', hstart, hfirst hturns,
    hids, hcues, hfirst hanswers, hrel curtainCall hcues⟩

end World

end Stagecraft
