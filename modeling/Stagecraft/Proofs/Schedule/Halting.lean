import Stagecraft.Proofs.Cast.Tour
import Stagecraft.Proofs.Schedule.Alive

/-!
# Stopping everything

When a thread stops everything it is out of the list itself. Of the others some have had their
turns, some are still to have them, and some were only started and wait for the end of the pass.
All of them end, and so does the one on stage. The clones go, which ends their threads once more;
bubbles, events and prompts are cleared. No thread that has ended executes a block, so nothing is
started from then on: the rest of the pass does nothing, and the threads leave when the round is
over.

* `World.Hushed`, `World.Vacant` : nothing goes on in a world, and nothing is there to go on;
* `World.hushed_stopAll` : stopping everything hushes a world;
* `World.halts` : the threads that stop everything in a step;
* `Pass.visitAll_of_halts`, `Pass.rounds_of_halts` : what is hushed stays so to the end of the pass;
* `World.vacant_of_halts` : **a step in which a thread stops everything ends in a vacant world**,
  and so does it if the host stops everything.
-/

namespace Stagecraft

namespace World

variable {σ : Type} {w w' : World σ}

/-! ### Worlds in which nothing goes on -/

/-- All threads in the lists have ended, and the one on stage was asked to end. -/
structure Dismissed (w : World σ) : Prop where
  threads : ∀ t ∈ w.threads ++ w.spawned, t.isDone = true
  stage : ∀ c, w.current = some c → c.retire = true

/-- Nothing goes on: all threads in the lists have ended, there are no clones, nobody says
anything, and no events and prompts wait. -/
structure Hushed (w : World σ) : Prop where
  threads : ∀ t ∈ w.threads ++ w.spawned, t.isDone = true
  clones : ∀ e ∈ w.actors.entries, e.2.isClone = false
  bubbles : ∀ e ∈ w.actors.entries, e.2.bubble = none
  events : w.events = .empty
  prompts : w.prompts = []

/-- Nothing is there to go on: there are no threads, no clones, neither among the actors nor on the
rosters of the sprites, no events and no prompts, and nobody says anything. -/
structure Vacant (w : World σ) : Prop where
  threads : w.threads = []
  spawned : w.spawned = []
  clones : w.clones = []
  cloneCount : w.cloneCount = 0
  rosters : ∀ e ∈ w.sprites.entries, e.2.clones = []
  bubbles : ∀ e ∈ w.actors.entries, e.2.bubble = none
  events : w.events = .empty
  prompts : w.prompts = []

/-- Where nothing is started, nobody comes back. -/
theorem Calms.dismissed (h : Calms w w') (hw : w.Dismissed) : w'.Dismissed := by
  induction h with
  | subdued hc hl =>
    refine ⟨fun t ht => ?_, fun c hcur => hw.stage c (hc ▸ hcur)⟩
    obtain ⟨u, hu, hs⟩ := exists_of_forall₂ hl ht
    by_contra hd
    have halive := hs.alive (Bool.eq_false_iff.2 hd)
    rw [hw.threads u hu] at halive
    cases halive
  | sublist hc hl =>
    exact ⟨fun t ht => hw.threads t (hl.subset ht), fun c hcur => hw.stage c (hc ▸ hcur)⟩
  | @note w f _ hretire =>
    refine ⟨hw.threads, fun c hcur => ?_⟩
    obtain ⟨c₀, hc₀, rfl⟩ := Option.map_eq_some_iff.1 hcur
    by_contra hd
    have hasked := hretire c₀ (Bool.eq_false_iff.2 hd)
    rw [hw.stage c₀ hc₀] at hasked
    cases hasked
  | trans _ _ ih ih' => exact ih' (ih hw)

theorem Hushed.of_subset (h : w.Hushed) (hsub : w'.threads ++ w'.spawned ⊆ w.threads ++ w.spawned)
    (ha : w'.actors = w.actors) (he : w'.events = w.events) (hp : w'.prompts = w.prompts) :
    w'.Hushed :=
  ⟨fun t ht => h.threads t (hsub ht), ha ▸ h.clones, ha ▸ h.bubbles, he.trans h.events,
    hp.trans h.prompts⟩

/-! ### Stopping everything -/

/-- Prompts are dropped with their resolvers, and nothing else is touched. -/
theorem clearPrompts_eq (w : World σ) :
    ∃ channels, w.clearPrompts = { w with prompts := [], channels := channels } := by
  have hfold : ∀ (prompts : List Prompt) (w : World σ), ∃ channels,
      prompts.foldl (fun w p => w.dropResolver p.channel) w = { w with channels := channels } := by
    intro prompts
    induction prompts with
    | nil => exact fun w => ⟨w.channels, rfl⟩
    | cons p rest ih =>
      intro w
      obtain ⟨channels, h⟩ := ih (w.dropResolver p.channel)
      exact ⟨channels, h⟩
  obtain ⟨channels, h⟩ := hfold w.prompts { w with prompts := [] }
  exact ⟨channels, h⟩

theorem calms_deleteClone (w : World σ) (id : ActorId) : Calms w (w.deleteClone id).1 := by
  unfold deleteClone
  split
  · exact .refl w
  · split
    · exact .refl w
    · exact (calms_stopActor w id none).trans (.tend rfl rfl rfl)

/-- Whoever is left when a clone was deleted was there before, and is not that clone. -/
theorem mem_of_deleteClone {id : ActorId} {e : ActorId × Actor}
    (he : e ∈ (w.deleteClone id).1.actors.entries) :
    e ∈ w.actors.entries ∧ (e.2.isClone = true → e.1 ≠ id) := by
  unfold deleteClone at he
  split at he
  · rename_i hnone
    refine ⟨he, fun _ hid => ?_⟩
    have hsome := (Table.get?_eq_some_iff _ _ _).2 he
    rw [hid] at hsome
    cases hnone.symm.trans hsome
  · rename_i a ha
    split at he
    · rename_i hclone
      refine ⟨he, fun hc hid => ?_⟩
      have hsome := (Table.get?_eq_some_iff _ _ _).2 he
      rw [hid] at hsome
      cases ha.symm.trans hsome
      simp [hc] at hclone
    · simp only [(sameCast_stopActor w id none).actors] at he
      obtain ⟨hmem, hne⟩ := List.mem_filter.1 he
      exact ⟨hmem, fun _ => of_decide_eq_true hne⟩

theorem mem_of_deleteClones (ids : List ActorId) : ∀ {w : World σ} {e : ActorId × Actor},
    e ∈ (ids.foldl (fun w id => (w.deleteClone id).1) w).actors.entries →
      e ∈ w.actors.entries ∧ (e.2.isClone = true → e.1 ∉ ids) := by
  induction ids with
  | nil => exact fun he => ⟨he, fun _ => List.not_mem_nil⟩
  | cons id rest ih =>
    intro w e he
    obtain ⟨hmem, hrest⟩ := ih he
    obtain ⟨hmem, hne⟩ := mem_of_deleteClone hmem
    exact ⟨hmem, fun hc hin => (List.mem_cons.1 hin).elim (hne hc) (hrest hc)⟩

/-- Stopping everything asks all threads to end, wherever they are. -/
theorem dismissed_stopAll (w : World σ) : w.stopAll.Dismissed := by
  have hretire : ((w.mapThreads Thread.retire).retireCurrent fun _ => true).Dismissed := by
    refine ⟨fun t ht => ?_, fun c hc => ?_⟩
    · simp only [retireCurrent, mapThreads, ← List.map_append] at ht
      obtain ⟨u, -, rfl⟩ := List.mem_map.1 ht
      rfl
    · obtain ⟨c₀, -, rfl⟩ := Option.map_eq_some_iff.1 hc
      rfl
  have hdrop := (calms_dropFinished _).dismissed hretire
  have hdelete := (Calms.foldl (f := fun w id => (w.deleteClone id).1)
    (fun w id => calms_deleteClone w id)
    ((w.mapThreads Thread.retire).retireCurrent fun _ => true).dropFinished.clones _).dismissed
      hdrop
  unfold stopAll
  simp only
  exact (calms_clearPrompts _).dismissed ⟨hdelete.threads, hdelete.stage⟩

/-- **Stopping everything hushes a world.** -/
theorem hushed_stopAll (hw : w.Identified) : w.stopAll.Hushed := by
  obtain ⟨w₁, hs₁, w₂, hw₂, hs₂⟩ := w.stopAll_cast
  have hid : w₁.Identified := .of_same hs₁ hw
  -- an actor carries its id, so each clone was deleted under the id that it has in the table
  have hclones : ∀ e ∈ w₂.actors.entries, e.2.isClone = false := by
    intro e he
    rw [hw₂] at he
    obtain ⟨hmem, hgone⟩ := mem_of_deleteClones _ he
    by_contra hc
    have hc := Bool.not_eq_false _ ▸ hc
    refine hgone hc (List.mem_map.2 ⟨e.2, List.mem_filter.2 ⟨?_, hc⟩, hid e hmem⟩)
    exact List.mem_map.2 ⟨e, hmem, rfl⟩
  have hcleared : ∀ e ∈ w.stopAll.actors.entries, ∃ e' ∈ w₂.actors.entries,
      e.2 = { e'.2 with bubble := none } := by
    intro e he
    rw [hs₂.actors] at he
    obtain ⟨e', he', rfl⟩ := List.mem_map.1 he
    exact ⟨e', he', rfl⟩
  refine ⟨w.dismissed_stopAll.threads, fun e he => ?_, fun e he => ?_, ?_, ?_⟩
  · obtain ⟨e', he', heq⟩ := hcleared e he
    rw [heq]
    exact hclones e' he'
  · obtain ⟨e', -, heq⟩ := hcleared e he
    rw [heq]
  all_goals
    unfold stopAll
    obtain ⟨channels, hclear⟩ := clearPrompts_eq (σ := σ) _
    rw [hclear]

/-- When the threads of a hushed world have left, it is vacant. -/
theorem Hushed.vacant (h : w.Hushed) (hsound : w.book.Sound) (ht : w.threads = [])
    (hs : w.spawned = []) : w.Vacant := by
  have hbook : w.book.clones = [] := by
    refine List.filter_eq_nil_iff.2 fun e he hclone => ?_
    obtain ⟨e', he', rfl⟩ := List.mem_map.1 he
    rw [show e'.2.role.isClone = e'.2.isClone from rfl, h.clones e' he'] at hclone
    cases hclone
  refine ⟨ht, hs, ?_, hsound.count.trans (by rw [hbook]; rfl), fun e he => ?_, h.bubbles, h.events,
    h.prompts⟩
  · rw [World.clones, List.filter_eq_nil_iff.2, List.map_nil]
    intro a ha hclone
    obtain ⟨e, he, rfl⟩ := List.mem_map.1 ha
    rw [h.clones e he] at hclone
    cases hclone
  · have hroster := hsound.roster (e.1, e.2.clones) (List.mem_map.2 ⟨e, he, rfl⟩)
    rw [Book.clonesOf, hbook] at hroster
    exact hroster

end World

/-! ### A block that stops everything -/

/-- A block stops everything if it stops scripts and its field says so, or says nothing. -/
def Block.stopsAll (b : Block) : Bool :=
  b.opcode == .control .stop && (b.field? "STOP_OPTION").getD "all" == "all"

/-- Whether there is a value. -/
def Evaluation.isValue {α : Type} : Evaluation α → Bool
  | .value _ => true
  | .parked => false
  | .failed _ => false

theorem Evaluation.exists_of_isValue {α : Type} {e : Evaluation α} (h : e.isValue = true) :
    ∃ a, e = .value a := by
  cases e with
  | value a => exact ⟨a, rfl⟩
  | parked | failed => cases h

namespace Scene

open World

variable {σ : Type} {ext : Extensions σ} {g : Graph} {k : Scheduler} {s s' : Scene σ}

/-- Whether executing the top block of the thread stops everything: it is a block for that, and
all its inputs come to a value. -/
def stopsAll (ext : Extensions σ) (k : Scheduler) (g : Graph) (s : Scene σ) : Bool :=
  s.thread.topBlock?.any fun h => (g.get? h).any fun b => b.stopsAll &&
    (gather (report ext ⟨k, g, h, s.thread.depth - 1⟩ k.maxReporterDepth) b.inputs.entries []
      s).2.isValue

/-- The turn of a thread is over for good, and nothing goes on. -/
structure Silenced (s : Scene σ) : Prop where
  world : s.world.Hushed
  ended : s.thread.isDone = true
  stays : s.thread.restarting = false

/-- The primitive of a block that stops everything. -/
theorem stop_of_stopsAll {site : Site} {b : Block} (hb : site.block? = some b)
    (h : b.stopsAll = true) (args : Args) (s : Scene σ) :
    Primitive.run ext b.opcode site args s = (⟨s.world.stopAll, s.thread.retire⟩, .done) := by
  obtain ⟨hop, hoption⟩ := Bool.and_eq_true_iff.1 h
  have hfield : (site.field? "STOP_OPTION").getD "all" = "all" := by
    rw [Site.field?, hb]
    exact eq_of_beq hoption
  rw [eq_of_beq hop, Primitive.run, Primitive.control, Primitive.stop, hfield]
  rfl

/-- **A block that stops everything** does so when its reporters have been evaluated, and ends its
own thread. -/
theorem execute_of_stopsAll (h : s.stopsAll ext k g = true) : ∃ s₁, Acts ext s s₁ ∧
    s.execute ext k g = (⟨s₁.world.stopAll, s₁.thread.retire⟩, none) := by
  obtain ⟨top, htop, h⟩ := (Option.any_eq_true _ _).1 h
  obtain ⟨b, hb, h⟩ := (Option.any_eq_true _ _).1 h
  obtain ⟨hstops, hvalue⟩ := Bool.and_eq_true_iff.1 h
  obtain ⟨args, hargs⟩ := Evaluation.exists_of_isValue hvalue
  obtain ⟨site, hsite⟩ : ∃ site : Site, site = ⟨k, g, top, s.thread.depth - 1⟩ := ⟨_, rfl⟩
  have hblock : site.block? = some b := by rwa [hsite]
  have hacts : Acts ext s (gather (report ext site k.maxReporterDepth) b.inputs.entries [] s).1 :=
    acts_gather (acts_report site k.maxReporterDepth) b.inputs.entries [] s
  rw [← hsite] at hargs
  obtain ⟨⟨s₁, e⟩, hgather⟩ : ∃ r, gather (report ext site k.maxReporterDepth) b.inputs.entries []
    s = r := ⟨_, rfl⟩
  rw [hgather] at hargs hacts
  obtain rfl : e = .value args := hargs
  refine ⟨s₁, hacts, ?_⟩
  unfold execute
  rw [htop]
  simp only
  rw [hb]
  simp only
  rw [← hsite, hgather]
  simp only
  rw [stop_of_stopsAll hblock hstops]
  -- the thread has no frames any more that could forget anything
  rfl

/-- A thread that has ended and was asked to end stays ended. -/
theorem Obeyed.silenced {r : Scene σ × Bool} (h : Obeyed s r) (hw : s.world.Hushed)
    (hd : s.world.Dismissed) (ht : s.thread.isDone = true) (hr : s.thread.restarting = false) :
    r.1.Silenced := by
  cases h with
  | unasked => exact ⟨hw, ht, hr⟩
  | stopped => exact ⟨hw.of_subset (List.Subset.refl _) rfl rfl rfl, rfl, rfl⟩
  | startsOver hc hretire => cases hretire.symm.trans (hd.stage _ hc)

/-- A thread that has ended does not move on. -/
theorem proceed_of_done (h : s.thread.status = .done) (top : Handle) (warp : Bool) :
    s.proceed k g top warp = (s, .ends) := by
  unfold proceed
  rw [h]

/-- **When its top block stops everything, the turn of a thread is over.** -/
theorem stepBlock_of_stopsAll (hext : ext.Accountable) (hw : s.world.book.Sound)
    (h : s.entered.stopsAll ext k.countBlock g = true) :
    ∃ s', s.stepBlock ext g k = (k.countBlock, s', .ends) ∧ s'.Silenced := by
  obtain ⟨s₁, hacts, hexec⟩ := execute_of_stopsAll h
  have hentered : s.entered.world.book.Sound :=
    hw.entries (Interlude.elapse s.world).sameCast.entries
  have hsound := hentered.entries ((upheld_entries hext).acts hacts)
  obtain ⟨s₂, hs₂⟩ : ∃ s₂ : Scene σ, s₂ = ⟨s₁.world.stopAll, s₁.thread.retire⟩ := ⟨_, rfl⟩
  have hdone : s₂.thread.status = .done := by rw [hs₂]; rfl
  have hobey : s₂.obey.1.Silenced := by
    subst hs₂
    exact (obeyed_of_obey rfl).silenced (hushed_stopAll (identified_of_sound hsound))
      s₁.world.dismissed_stopAll rfl rfl
  obtain ⟨top, htop, -⟩ := (Option.any_eq_true _ _).1 h
  have htop' : s.thread.topBlock? = some top := by
    rw [Thread.topBlock?, ← s.stack_entered]
    exact htop
  unfold stepBlock
  rw [htop']
  simp only
  rw [show (⟨s.world.elapse, startWarp s.world.elapse.now s.thread⟩ : Scene σ) = s.entered from rfl,
    hexec, ← hs₂]
  simp only
  obtain ⟨⟨s₃, b⟩, ho⟩ : ∃ r, s₂.obey = r := ⟨_, rfl⟩
  rw [ho] at hobey ⊢
  cases b with
  | true => exact ⟨s₃, rfl, hobey⟩
  | false =>
    -- nobody is on stage
    cases obey_fst_of_false ho
    refine ⟨s₂, ?_, hobey⟩
    simp only [proceed_of_done hdone]

/-! ### A turn -/

/-- Whether a thread that executes blocks stops everything before its turn is over. -/
def halts (ext : Extensions σ) (g : Graph) : Nat → Scheduler → Scene σ → Bool
  | 0, _, _ => false
  | fuel + 1, k, s =>
    s.entered.stopsAll ext k.countBlock g ||
      match s.stepBlock ext g k with
      | (_, _, .ends) => false
      | (k, s, .goesOn) => halts ext g fuel k s

/-- **A turn in which a thread stops everything is over with that**, by induction on its blocks. -/
theorem takeTurn_of_halts (hext : ext.Accountable) (fuel : Nat) : ∀ {k : Scheduler} {s : Scene σ},
    s.world.book.Sound → halts ext g fuel k s = true →
      ∃ k' s', takeTurn ext g fuel k s = some (k', s') ∧ s'.Silenced := by
  induction fuel with
  | zero =>
    intro _ _ _ h
    cases h
  | succ fuel ih =>
    intro k s hw h
    rw [takeTurn]
    rw [halts] at h
    by_cases hstop : s.entered.stopsAll ext k.countBlock g = true
    · obtain ⟨s', hstep, hs'⟩ := stepBlock_of_stopsAll hext hw hstop
      rw [hstep]
      exact ⟨_, s', rfl, hs'⟩
    · rw [Bool.eq_false_iff.2 hstop, Bool.false_or] at h
      obtain ⟨⟨k₁, s₁, turn⟩, hstep⟩ : ∃ r, s.stepBlock ext g k = r := ⟨_, rfl⟩
      rw [hstep] at h ⊢
      cases turn with
      | ends => cases h
      | goesOn =>
        exact ih (hw.entries ((upheld_entries hext).stepped (stepped_of_stepBlock hstep))) h

end Scene

namespace Pass

open World

variable {σ : Type} {ext : Extensions σ} {fuel : Nat} {k k' : Scheduler} {w : World σ} {t : Thread}
  {p p' : Pass σ} {i : Nat}

/-! ### A visit -/

/-- Whether a thread that is let run stops everything. -/
def runHalts (ext : Extensions σ) (fuel : Nat) (k : Scheduler) (w : World σ) (t : Thread) : Bool :=
  (w.graph? t.actor).any fun g => Scene.halts ext g fuel k ⟨onStage w t, t⟩

/-- Whether a thread that is visited stops everything. -/
def visitHalts (ext : Extensions σ) (fuel : Nat) (k : Scheduler) (w : World σ)
    (t : Thread) : Bool :=
  match t.status with
  | .done => false
  | .yieldedTick => false
  | .running => runHalts ext fuel k w t
  | .yielded => runHalts ext fuel k w t
  | .parked =>
    match wake k w t with
    | (scene, true) => runHalts ext fuel k scene.world scene.thread
    | (_, false) => false

/-- The thread at a place of the list, if it stops everything in its turn. -/
def visitAtHalts (ext : Extensions σ) (fuel : Nat) (p : Pass σ) (i : Nat) : List ThreadId :=
  (p.world.threads[i]?.filter fun t =>
    visitHalts ext fuel p.scheduler
      { p.world with threads := p.world.threads.set i .absent } t).toList.map (·.id)

theorem letRun_of_halts (hext : ext.Accountable) (hw : w.book.Sound)
    (h : runHalts ext fuel k w t = true) :
    ∃ k' s, letRun ext fuel k w t = some (k', s) ∧ s.Silenced := by
  obtain ⟨g, hg, hhalts⟩ := (Option.any_eq_true _ _).1 h
  obtain ⟨k', s, hturn, hs⟩ := Scene.takeTurn_of_halts hext fuel (s := ⟨onStage w t, t⟩) hw hhalts
  rw [letRun_of_graph hg, hturn]
  refine ⟨k', _, rfl, hs.world.of_subset (List.Subset.refl _) rfl rfl rfl, ?_, ?_⟩ <;>
    simp only [Thread.atRest, hs.stays]
  · exact hs.ended
  · exact hs.stays

theorem visit_of_halts (hext : ext.Accountable) (hw : w.book.Sound)
    (h : visitHalts ext fuel k w t = true) :
    ∃ k' s, visit ext fuel k w t = some (k', s) ∧ s.Silenced := by
  unfold visitHalts at h
  unfold visit
  cases hst : t.status with
  | done | yieldedTick =>
    rw [hst] at h
    cases h
  | running | yielded =>
    rw [hst] at h
    exact letRun_of_halts hext hw h
  | parked =>
    rw [hst] at h
    simp only at h ⊢
    obtain ⟨⟨s, on⟩, he⟩ : ∃ r, wake k w t = r := ⟨_, rfl⟩
    have hwake := (upheld_entries hext).woken (woken_of_wake he)
    rw [he] at h ⊢
    cases on with
    | true => exact letRun_of_halts hext (hw.entries hwake) h
    | false => cases h

/-- **A thread that stops everything comes back to a world in which nothing goes on**, and has
ended. -/
theorem visitAt_of_halts (hext : ext.Accountable) (hw : p.world.book.Sound)
    (h : visitAtHalts ext fuel p i ≠ []) :
    ∃ p', visitAt ext fuel p i = some p' ∧ p'.world.Hushed := by
  unfold visitAtHalts at h
  unfold visitAt
  cases ht : p.world.threads[i]? with
  | none =>
    rw [ht] at h
    exact absurd rfl h
  | some t =>
    rw [ht, Option.filter_some] at h
    split at h
    · rename_i hhalts
      obtain ⟨k', s, hv, hs⟩ := visit_of_halts hext (w := { p.world with
        threads := p.world.threads.set i .absent }) hw hhalts
      simp only
      rw [hv]
      refine ⟨_, rfl, fun u hu => ?_, hs.world.clones, hs.world.bubbles, hs.world.events,
        hs.world.prompts⟩
      rcases Thread.mem_set hu with hu | rfl
      · exact hs.world.threads u hu
      · exact hs.ended
    · exact absurd rfl h

/-! ### The rest of the pass -/

/-- Where all threads have ended, a visit does nothing. -/
theorem visitAt_of_hushed (hp : p.world.Hushed) (i : Nat) : visitAt ext fuel p i = some p := by
  unfold visitAt
  cases ht : p.world.threads[i]? with
  | none => rfl
  | some t =>
    have hdone : t.status = .done :=
      eq_of_beq (hp.threads t (List.mem_append_left _ (List.mem_of_getElem? ht)))
    have hback : (p.world.threads.set i .absent).set i t = p.world.threads := by
      rw [List.set_set]
      obtain ⟨hi, rfl⟩ := List.getElem?_eq_some_iff.1 ht
      exact List.set_getElem_self hi
    simp only [visit, hdone, Option.map_some, hback]

theorem visitAll_of_hushed (places : List Nat) : ∀ {p : Pass σ}, p.world.Hushed →
    ∃ p' exhausted, visitAll ext fuel places p = some (p', exhausted) ∧ p'.world.Hushed := by
  induction places with
  | nil => exact fun hp => ⟨_, _, rfl, hp⟩
  | cons i rest ih =>
    intro p hp
    have hpast : p.world.elapse.Hushed := hp.of_subset (List.Subset.refl _) rfl rfl rfl
    rw [visitAll, visitAt_of_hushed hp]
    simp only
    split
    · exact ⟨_, _, rfl, hpast⟩
    · exact ih hpast

/-- **A round in which a thread stops everything comes to its end**, by induction on the turns. -/
theorem visitAll_of_halts (hext : ext.Accountable) (places : List Nat) : ∀ {p : Pass σ},
    p.world.book.Sound → visitAllJournal (visitAtHalts ext fuel) ext fuel places p ≠ [] →
      ∃ p' exhausted, visitAll ext fuel places p = some (p', exhausted) ∧ p'.world.Hushed := by
  induction places with
  | nil => exact fun _ h => absurd rfl h
  | cons i rest ih =>
    intro p hw h
    rw [visitAllJournal] at h
    rw [visitAll]
    by_cases hturn : visitAtHalts ext fuel p i = []
    · rw [hturn, List.nil_append] at h
      cases hv : visitAt ext fuel p i with
      | none =>
        rw [hv] at h
        exact absurd rfl h
      | some p₁ =>
        rw [hv] at h
        simp only at h ⊢
        split at h
        · exact absurd rfl h
        · rename_i htime
          rw [if_neg htime]
          exact ih ((hw.entries (entries_visitAt hext hv)).entries
            (Interlude.elapse p₁.world).sameCast.entries) h
    · obtain ⟨p₁, hv, hp₁⟩ := visitAt_of_halts hext hw hturn
      have hpast : p₁.world.elapse.Hushed := hp₁.of_subset (List.Subset.refl _) rfl rfl rfl
      rw [hv]
      simp only
      split
      · exact ⟨_, _, rfl, hpast⟩
      · exact visitAll_of_hushed rest hpast

/-- When the threads that ended have left, there is none. -/
theorem threads_collect_of_hushed (hp : p.world.Hushed) (finished : List ThreadId) :
    (p.collect finished).1.world.threads = [] := by
  refine List.filter_eq_nil_iff.2 fun t ht => ?_
  simp [hp.threads t (List.mem_append_left _ ht)]

/-- **A pass in which a thread stops everything comes to its end**, by induction on its rounds. -/
theorem rounds_of_halts (hext : ext.Accountable) {turnFuel : Nat} (fuel : Nat) :
    ∀ {first : Nat} {p : Pass σ} {finished : List ThreadId}, p.world.book.Sound →
      roundsJournal (visitAtHalts ext turnFuel) ext turnFuel fuel first p finished ≠ [] →
        ∃ p' finished', rounds ext turnFuel fuel first p finished = some (p', finished') ∧
          p'.world.Hushed ∧ p'.world.threads = [] := by
  induction fuel with
  | zero => exact fun _ h => absurd rfl h
  | succ fuel ih =>
    intro first p finished hw h
    rw [roundsJournal] at h
    rw [rounds]
    simp only at h ⊢
    by_cases hround : visitAllJournal (visitAtHalts ext turnFuel) ext turnFuel
        (order first p.world.threads.length) ⟨countRound p.scheduler, p.world⟩ = []
    · rw [hround, List.nil_append] at h
      cases hv : visitAll ext turnFuel (order first p.world.threads.length)
          ⟨countRound p.scheduler, p.world⟩ with
      | none =>
        rw [hv] at h
        exact absurd rfl h
      | some r =>
        obtain ⟨p₁, exhausted⟩ := r
        rw [hv] at h
        simp only at h ⊢
        split at h
        · rename_i hgo
          rw [if_pos hgo]
          have hround := (entries_visitAll hext _ hv).trans
            (Interlude.collect p₁ finished).sameCast.entries
          exact ih (hw.entries hround) h
        · exact absurd rfl h
    · obtain ⟨p₁, exhausted, hv, hp₁⟩ := visitAll_of_halts hext _
        (p := ⟨countRound p.scheduler, p.world⟩) hw hround
      have hnone := threads_collect_of_hushed hp₁ finished
      have hpast : (p₁.collect finished).1.world.Hushed :=
        hp₁.of_subset (List.filter_sublist.append (List.Sublist.refl _)).subset rfl rfl rfl
      rw [hv]
      simp only
      -- nobody is left who could run in another round
      rw [if_neg (by simp [goesAround, hnone])]
      exact ⟨_, _, rfl, hpast, hnone⟩

end Pass

namespace World

variable {σ : Type} {w w' : World σ}

/-! ### Steps -/

/-- The threads that stop everything in a step, each as often as it does so. -/
def halts (ext : Extensions σ) (fuel : Nat) (w : World σ) : List ThreadId :=
  w.journal (Pass.visitAtHalts ext fuel) ext fuel

/-- After the rounds of a pass nothing is left of a hushed world, and no event is there to be
raised. -/
theorem Hushed.close {p : Pass σ} (hp : p.world.Hushed) (hnone : p.world.threads = [])
    (hsound : p.world.book.Sound) : (afterPass p).dispatchEvents.flushCloud.1.Vacant := by
  have hspawned : p.world.spawned.filter (fun t => !t.isDone) = [] :=
    List.filter_eq_nil_iff.2 fun t ht => by simp [hp.threads t (List.mem_append_right _ ht)]
  have hthreads : (afterPass p).threads = [] := by
    rw [show (afterPass p).threads = p.world.threads ++ p.world.spawned.filter fun t => !t.isDone
      from rfl, hnone, hspawned]
    rfl
  have hquiet : (afterPass p).dispatchEvents = { afterPass p with events := .empty } := by
    rw [dispatchEvents, show (afterPass p).events = .empty from hp.events]
    rfl
  rw [hquiet]
  refine Hushed.vacant (hp.of_subset ?_ rfl hp.events.symm rfl) ?_ hthreads rfl
  · rw [show ({ afterPass p with events := .empty } : World σ).flushCloud.1.threads =
      (afterPass p).threads from rfl, hthreads]
    exact List.nil_subset _
  · have hcast := (sameCast_close p).entries
    rw [hquiet] at hcast
    exact hsound.entries hcast

/-- **A step in which a thread stops everything comes to its end, and leaves a vacant world.** -/
theorem step_of_halts {ext : Extensions σ} {fuel : Nat} (hext : ext.Accountable)
    (hw : w.book.Sound) (h : w.halts ext fuel ≠ []) :
    ∃ w' ended, w.step ext fuel = some (w', ended) ∧ w'.Vacant := by
  unfold halts journal at h
  unfold step
  cases hs : w.scheduler with
  | none =>
    rw [hs] at h
    exact absurd rfl h
  | some k =>
    rw [hs] at h
    simp only at h ⊢
    have hbegin := (Interlude.begin (k.configure w.settings) w).sameCast.entries
    obtain ⟨p, finished, hrounds, hp, hnone⟩ :=
      Pass.rounds_of_halts hext fuel (hw.entries hbegin) h
    rw [Pass.run, hrounds]
    refine ⟨_, _, rfl, hp.close hnone ?_⟩
    exact (hw.entries hbegin).entries (Pass.entries_rounds hext hrounds)

/-! ### The host -/

/-- **Between steps, stopping everything leaves a vacant world.** -/
theorem vacant_stopAll (hw : w.book.Sound) (hp : w.inPass = false) : w.stopAll.Vacant := by
  -- threads that ended are dropped at once, and all have ended
  have hnone : w.stopAll.threads ++ w.stopAll.spawned = [] := by
    refine List.eq_nil_iff_forall_not_mem.2 fun t ht => ?_
    have halive := Alive.stopAll hp t ht
    rw [w.dismissed_stopAll.threads t ht] at halive
    cases halive
  obtain ⟨ht, hs⟩ := List.append_eq_nil_iff.1 hnone
  exact (hushed_stopAll (identified_of_sound hw)).vacant (hw.entries (entries_stopAll w)) ht hs

/-- Starting scripts queues no events and asks nothing. -/
theorem queues_startHats (w : World σ) (hat : Opcode) (fields : List (String × String))
    (only : Option ActorId) : (w.startHats hat fields only).1.events = w.events ∧
      (w.startHats hat fields only).1.prompts = w.prompts := by
  have hscript : ∀ (restarts : Bool) (actor : ActorId) (top : Handle) (w : World σ),
      (w.startScript restarts actor top).1.events = w.events ∧
        (w.startScript restarts actor top).1.prompts = w.prompts := by
    intro restarts actor top w
    unfold startScript
    split
    · exact ⟨rfl, rfl⟩
    · split
      · split
        · unfold modifyRunning
          split <;> exact ⟨rfl, rfl⟩
        · exact ⟨rfl, rfl⟩
      · unfold pushThread
        simp only
        split <;> exact ⟨rfl, rfl⟩
  have hscripts : ∀ (restarts : Bool) (scripts : List (ActorId × Handle)) (w : World σ),
      (startScripts restarts scripts w).1.events = w.events ∧
        (startScripts restarts scripts w).1.prompts = w.prompts := by
    intro restarts scripts
    induction scripts with
    | nil => exact fun _ => ⟨rfl, rfl⟩
    | cons script rest ih =>
      intro w
      obtain ⟨he, hp⟩ := hscript restarts script.1 script.2 w
      obtain ⟨he', hp'⟩ := ih (w.startScript restarts script.1 script.2).1
      exact ⟨he'.trans he, hp'.trans hp⟩
  unfold startHats
  split
  · exact ⟨rfl, rfl⟩
  · exact hscripts _ _ w

/-- Scripts that are started in a vacant world are all that goes on in it. -/
theorem Vacant.startHats (h : w.Vacant) (hat : Opcode) (fields : List (String × String))
    (only : Option ActorId) :
    ({ (w.startHats hat fields only).1 with threads := [], spawned := [] } : World σ).Vacant ∧
      ∀ t ∈ (w.startHats hat fields only).1.threads ++ (w.startHats hat fields only).1.spawned,
        Begun w t := by
  have hcast := sameCast_startHats w hat fields only
  obtain ⟨hevents, hprompts⟩ := queues_startHats w hat fields only
  have hdescends := (tends_startHats w hat fields only).descends
  generalize (w.startHats hat fields only).1 = w' at *
  have hclones : w'.clones = w.clones := by rw [World.clones, World.clones, hcast.actors]
  refine ⟨⟨rfl, rfl, hclones.trans h.clones, hcast.cloneCount.trans h.cloneCount,
    hcast.sprites ▸ h.rosters, hcast.actors ▸ h.bubbles, hevents.trans h.events,
    hprompts.trans h.prompts⟩, fun t ht => ?_⟩
  rcases hdescends.origin t ht with hbegun | ⟨u, hu, -⟩
  · exact hbegun
  · rw [h.threads, h.spawned] at hu
    cases hu

/-- **The green flag leaves a vacant world but for the threads that it starts.** -/
theorem vacant_greenFlag (hw : w.book.Sound) (hp : w.inPass = false) :
    ({ w.greenFlag.1 with threads := [], spawned := [] } : World σ).Vacant ∧
      ∀ t ∈ w.greenFlag.1.threads ++ w.greenFlag.1.spawned, Begun w t := by
  have hvacant := vacant_stopAll hw hp
  obtain ⟨w₁, hw₁, hflag⟩ : ∃ w₁ : World σ, w₁ = { w.stopAll with
      timer := w.stopAll.timer.reset w.stopAll.now } ∧
        w.greenFlag = w₁.startHats Event.greenFlag.hat Event.greenFlag.fields
          Event.greenFlag.actor :=
    ⟨_, rfl, rfl⟩
  have hreset : w₁.Vacant := by
    rw [hw₁]
    exact ⟨hvacant.threads, hvacant.spawned, hvacant.clones, hvacant.cloneCount, hvacant.rosters,
      hvacant.bubbles, hvacant.events, hvacant.prompts⟩
  have hnext : w.nextThread ≤ w₁.nextThread := by
    rw [hw₁]
    exact (tends_stopAll w).descends.next_le
  rw [hflag]
  obtain ⟨hrest, hbegun⟩ := hreset.startHats Event.greenFlag.hat Event.greenFlag.fields
    Event.greenFlag.actor
  exact ⟨hrest, fun t ht => ⟨hnext.trans (hbegun t ht).1, (hbegun t ht).2⟩⟩

/-- **Stopping everything stops everything.** On any tour, whatever extensions and scripts have
done before: a step in which a thread stops everything as its top block comes to its end, and no
threads, no clones, no events, no prompts and no bubbles are left, whatever threads were started
or started over earlier in the pass. Nor are there any when the host stops everything between two
steps; when it raises the green flag, there are only the threads that this starts. -/
theorem vacant_of_halts (hw : w.Tour) :
    (∀ (ext : Extensions σ) (fuel : Nat), ext.Accountable → w.halts ext fuel ≠ [] →
        ∃ w' ended, w.step ext fuel = some (w', ended) ∧ w'.Vacant) ∧
      w.stopAll.Vacant ∧
      ({ w.greenFlag.1 with threads := [], spawned := [] } : World σ).Vacant ∧
      ∀ t ∈ w.greenFlag.1.threads ++ w.greenFlag.1.spawned, Begun w t :=
  ⟨fun _ _ hext h => step_of_halts hext hw.sound h, vacant_stopAll hw.sound hw.idle,
    vacant_greenFlag hw.sound hw.idle⟩

/-- A script that clones its actor, says something and asks the user, one for the clone, and one
that stops everything. -/
def uproar : Graph :=
  Graph.empty.run
    [.create { Block.detached "flag" (.event .whenFlagClicked) with
        next := some ⟨1, 0⟩
        topLevel := true },
      .create { Block.detached "clone" (.control .createCloneOf) with
        inputs := Table.empty.insert "CLONE_OPTION" (.literal (.text "_myself_"))
        parent := some ⟨0, 0⟩
        next := some ⟨2, 0⟩ },
      .create { Block.detached "say" (.looks .say) with
        inputs := Table.empty.insert "MESSAGE" (.literal (.text "Hey"))
        parent := some ⟨1, 0⟩
        next := some ⟨3, 0⟩ },
      .create { Block.detached "ask" (.sensing .askAndWait) with parent := some ⟨2, 0⟩ },
      .create { Block.detached "hatched" (.control .startAsClone) with
        next := some ⟨5, 0⟩
        topLevel := true },
      .create { Block.detached "loop" (.control .forever) with parent := some ⟨4, 0⟩ },
      .create { Block.detached "again" (.event .whenFlagClicked) with
        next := some ⟨7, 0⟩
        topLevel := true },
      .create { Block.detached "stop" (.control .stop) with parent := some ⟨6, 0⟩ }]

/-- When the second thread has its turn, there are a thread that waits for the end of the pass, a
clone, a bubble, a question and an event. After the step there is nothing. -/
theorem vacant_of_halts_uproar : ∃ w : World Unit, w.Tour ∧
    w.journal (fun p _ => [(p.world.spawned.map (·.id), p.world.clones,
        p.world.actors.values.filterMap (·.bubble), p.world.prompts.length, p.world.events.size)])
      .empty 9 = [([], [], [], 0, 1), ([3], [1], ["Hey"], 1, 1)] ∧
    w.halts .empty 9 = [2] ∧ ∃ w' ended, w.step .empty 9 = some (w', ended) ∧ w'.Vacant := by
  let start := ((blank Settings.standard ()).addSprite "Cat" uproar).1
  let ready := start.greenFlag.1.queueEvent (.broadcast "go")
  have hready : Show (fun _ => True) ready :=
    (((Show.blank _ ()).apply (c := .addSprite "Cat" uproar) nofun rfl).apply (c := .greenFlag)
      nofun rfl).apply (c := .queueEvent (.broadcast "go")) nofun rfl
  have hhalts : ready.halts .empty 9 = [2] := by decide +kernel
  have hnil : ready.halts .empty 9 ≠ [] := by
    rw [hhalts]
    exact List.cons_ne_nil _ _
  exact ⟨ready, hready.tour, by decide +kernel, hhalts,
    (vacant_of_halts hready.tour).1 .empty 9 accountable_empty hnil⟩

end World

end Stagecraft
