import Stagecraft.Proofs.Cast.Registry

/-!
# Whoever runs exists

A clone can be deleted while its scripts run, also in the middle of their own turn. It takes its
threads along: those in the lists end with it, and the one on stage is asked to. So a thread that
has not ended belongs to an actor that exists, and the rosters of the sprites, the number of
clones and the table of actors tell the same.

* `World.Busy` : the actors that have a thread which has not ended;
* `World.Effect.sheltered` : every effect of a built-in primitive leaves them where they are;
* `World.seating_housed` : **so the lists are in order after every step**;
* `World.Session` : whatever a host does between steps;
* `World.tenancy_of_session` : **the clones are in order at any time**.
-/

namespace Stagecraft

namespace World

variable {σ : Type} {w w' w'' : World σ} {id : ActorId}

/-! ### Actors with something to do -/

/-- There is such an actor. -/
def Lives (w : World σ) (id : ActorId) : Prop := (w.actor? id).isSome = true

/-- The actor has a thread that has not ended: one in the lists, or the one on stage unless it was
asked to end. -/
def Busy (w : World σ) (id : ActorId) : Prop :=
  (∃ t ∈ w.threads ++ w.spawned, t.isDone = false ∧ t.actor = id) ∨
    ∃ c, w.current = some c ∧ c.retire = false ∧ c.actor = id

theorem lives_iff : w.Lives id ↔ (w.book.roles.get? id).isSome = true := by
  rw [get?_roles, Option.isSome_map]
  rfl

/-- Whoever is there stays when somebody is added. -/
theorem Lives.of_insert (hl : w.Lives id) {k : ActorId} {r : Role}
    (h : w'.book.roles = w.book.roles.insert k r) : w'.Lives id := by
  rw [lives_iff, h]
  by_cases hid : id = k
  · rw [hid, Table.get?_insert_self]
    rfl
  · rw [Table.get?_insert_of_ne _ hid]
    exact lives_iff.1 hl

theorem Lives.of_book (hl : w.Lives id) (h : w'.book = w.book) : w'.Lives id := by
  rw [lives_iff, h]
  exact lives_iff.1 hl

/-- **Where nothing is started, nobody gets busy.** -/
theorem Calms.busy (h : Calms w w') : w'.Busy id → w.Busy id := by
  induction h with
  | subdued hc hl =>
    rintro (⟨t', ht', hd, rfl⟩ | ⟨c, hcur, hr, rfl⟩)
    · obtain ⟨t, ht, hs⟩ := exists_of_forall₂ hl ht'
      exact .inl ⟨t, ht, hs.alive hd, (congrArg Prod.fst hs.script).symm⟩
    · exact .inr ⟨c, hc ▸ hcur, hr, rfl⟩
  | sublist hc hl =>
    rintro (⟨t, ht, hd, rfl⟩ | ⟨c, hcur, hr, rfl⟩)
    · exact .inl ⟨t, hl.subset ht, hd, rfl⟩
    · exact .inr ⟨c, hc ▸ hcur, hr, rfl⟩
  | note w hscript hretire =>
    rintro (hlist | ⟨c, hcur, hr, rfl⟩)
    · exact .inl hlist
    · obtain ⟨c₀, hc₀, rfl⟩ := Option.map_eq_some_iff.1 hcur
      exact .inr ⟨c₀, hc₀, hretire c₀ hr, (congrArg Prod.fst (hscript c₀)).symm⟩
  | trans _ _ ih ih' => exact fun hb => ih (ih' hb)

/-! ### Starting -/

theorem busy_pushThread {actor : ActorId} {top : Handle}
    (hb : (w.pushThread actor top).1.Busy id) : w.Busy id ∨ id = actor := by
  rcases hb with ⟨t, ht, hd, rfl⟩ | ⟨c, hc, hr, rfl⟩
  · rcases List.mem_cons.1 ((w.perm_pushThread actor top).mem_iff.1 ht) with rfl | ht
    · exact .inr rfl
    · exact .inl (.inl ⟨t, ht, hd, rfl⟩)
  · rw [current_pushThread] at hc
    exact .inl (.inr ⟨c, hc, hr, rfl⟩)

theorem busy_startScript {restarts : Bool} {actor : ActorId} {top : Handle}
    (hb : (w.startScript restarts actor top).1.Busy id) : w.Busy id ∨ id = actor := by
  unfold startScript at hb
  split at hb
  · have hnote : Calms w { w with current := w.current.map fun c =>
        { c with restart := c.restart || restarts } } := .note w (fun _ => rfl) fun _ h => h
    exact .inl (hnote.busy hb)
  · split at hb
    · split at hb
      · exact .inl ((calms_modifyRunning Thread.script_restart w actor top).busy hb)
      · exact .inl hb
    · exact busy_pushThread hb

theorem busy_startScripts {restarts : Bool} (scripts : List (ActorId × Handle)) :
    ∀ {w : World σ}, (startScripts restarts scripts w).1.Busy id →
      w.Busy id ∨ ∃ top, (id, top) ∈ scripts := by
  induction scripts with
  | nil => exact .inl
  | cons script rest ih =>
    intro w hb
    rcases ih hb with hb | ⟨top, hm⟩
    · rcases busy_startScript hb with hb | rfl
      · exact .inl hb
      · exact .inr ⟨script.2, List.mem_cons_self⟩
    · exact .inr ⟨top, List.mem_cons_of_mem _ hm⟩

/-- The scripts under a hat belong to actors. -/
theorem lives_of_matchingScripts (hw : w.book.Sound) {hat : Opcode}
    {fields : List (String × String)} {only : Option ActorId} {top : Handle}
    (h : (id, top) ∈ w.matchingScripts hat fields only) : w.Lives id := by
  obtain ⟨a, ha, htop⟩ := List.mem_flatMap.1 h
  have hid : id = a.id := by
    split at htop
    · cases htop
    · obtain ⟨top', _, he⟩ := List.mem_filterMap.1 htop
      split at he
      · split at he
        · cases he
          rfl
        · cases he
      · cases he
  obtain ⟨e, he, rfl⟩ := List.mem_map.1 (List.mem_of_mem_filter ha)
  have hkey : e.2.id = e.1 := hw.identified (e.1, e.2.role) (List.mem_map.2 ⟨e, he, rfl⟩)
  refine Option.isSome_iff_exists.2 ⟨e.2, (Table.get?_eq_some_iff _ _ _).2 ?_⟩
  rwa [hid, hkey]

/-- **A hat makes actors busy that exist.** -/
theorem busy_startHats (hw : w.book.Sound) {hat : Opcode} {fields : List (String × String)}
    {only : Option ActorId} (hb : (w.startHats hat fields only).1.Busy id) :
    w.Busy id ∨ w.Lives id := by
  unfold startHats at hb
  split at hb
  · exact .inl hb
  · rcases busy_startScripts _ hb with hb | ⟨top, hm⟩
    · exact .inl hb
    · exact .inr (lives_of_matchingScripts hw hm)

/-- Nothing of an actor whose threads are stopped goes on. -/
theorem not_busy_stopActor : ¬(w.stopActor id none).Busy id := by
  intro hb
  rcases (calms_dropFinished _).busy hb with ⟨t, ht, hd, hid⟩ | ⟨c, hc, hr, hid⟩
  · have ht' : t ∈ (w.threads ++ w.spawned).map fun t =>
        if t.actor = id && some t.id ≠ none then t.retire else t := by
      rw [List.map_append]
      exact ht
    obtain ⟨u, _, rfl⟩ := List.mem_map.1 ht'
    split at hd
    · cases hd
    · rename_i hother
      rw [if_neg hother] at hid
      simp [hid] at hother
  · obtain ⟨c₀, _, rfl⟩ := Option.map_eq_some_iff.1 hc
    split at hr
    · cases hr
    · rename_i hother
      rw [if_neg hother] at hid
      simp [hid] at hother

/-! ### Nobody is busy who does not exist -/

/-- The book is right, and whoever is busy exists. -/
structure Sheltered (w : World σ) : Prop where
  sound : w.book.Sound
  lives : ∀ id, w.Busy id → w.Lives id

namespace Sheltered

/-- Nothing is started, and nobody is taken out of the book. -/
theorem joined (hw : w.Sheltered) (h : Calms w w') (hsound : w'.book.Sound)
    (hl : ∀ id, w.Lives id → w'.Lives id) : w'.Sheltered :=
  ⟨hsound, fun id hbusy => hl id (hw.lives id (h.busy hbusy))⟩

/-- Nothing is started, and the book is left alone. -/
theorem calms (hw : w.Sheltered) (hb : w'.book = w.book) (h : Calms w w') : w'.Sheltered :=
  hw.joined h (hb ▸ hw.sound) fun _ hl => hl.of_book hb

theorem startHats (hw : w.Sheltered) (hat : Opcode) (fields : List (String × String))
    (only : Option ActorId) : (w.startHats hat fields only).1.Sheltered := by
  have hbook := book_of_cast (sameCast_startHats w hat fields only)
  refine ⟨hbook ▸ hw.sound, fun id hb => ?_⟩
  rcases busy_startHats hw.sound hb with hb | hl
  · exact (hw.lives id hb).of_book hbook
  · exact hl.of_book hbook

theorem stopActor (hw : w.Sheltered) (actor : ActorId) (keep : Option ThreadId) :
    (w.stopActor actor keep).Sheltered :=
  hw.calms (book_of_cast (sameCast_stopActor w actor keep)) (calms_stopActor w actor keep)

theorem createClone (hw : w.Sheltered) (source : ActorId) : (w.createClone source).1.Sheltered := by
  unfold World.createClone
  split
  · exact hw.calms rfl (.tend rfl rfl rfl)
  · rename_i hlimit
    split
    · exact hw
    · rename_i a ha
      split
      · exact hw
      · rename_i hstage
        have hsound : (w.book.clone a.role).Sound := hw.sound.clone (get?_roles_of_actor ha)
          (Bool.eq_false_iff.2 hstage) (Nat.lt_of_not_le hlimit)
        refine startHats ?_ _ _ _
        refine hw.joined (.tend rfl rfl rfl) ?_ fun id hl => ?_
        · rw [book_enterClone]
          exact hsound
        · exact hl.of_insert (congrArg Book.roles (book_enterClone w a))

theorem deleteClone (hw : w.Sheltered) (id : ActorId) : (w.deleteClone id).1.Sheltered := by
  unfold World.deleteClone
  split
  · exact hw
  · rename_i a ha
    split
    · exact hw
    · rename_i hclone
      have hstopped := hw.stopActor id none
      have hrole : (w.stopActor id none).book.roles.get? id = some a.role := by
        rw [book_of_cast (sameCast_stopActor w id none)]
        exact get?_roles_of_actor ha
      have hisClone : a.role.isClone = true := by simpa [Actor.role] using hclone
      have hsound := hstopped.sound.delete hrole hisClone
      refine ⟨(book_closeUp _ id a).symm ▸ hsound, fun other hb => ?_⟩
      -- whoever is deleted is not busy any more
      have hne : other ≠ id := fun he => not_busy_stopActor (he ▸ hb)
      rw [lives_iff, book_closeUp]
      exact (congrArg Option.isSome (Table.get?_erase_of_ne _ hne)).trans
        (lives_iff.1 (hstopped.lives other hb))

theorem stopAll (hw : w.Sheltered) : w.stopAll.Sheltered := by
  have hdelete : ∀ (ids : List ActorId) {w : World σ}, w.Sheltered →
      (ids.foldl (fun w id => (w.deleteClone id).1) w).Sheltered := by
    intro ids
    induction ids with
    | nil => exact id
    | cons id rest ih => exact fun hw => ih (hw.deleteClone id)
  have hretire := ((calms_mapThreads Thread.subdued_retire w).trans
    (calms_retireCurrent _ fun _ => true)).trans (calms_dropFinished _)
  have hcast : SameCast w ((w.mapThreads Thread.retire).retireCurrent fun _ => true) :=
    ⟨rfl, rfl, rfl, rfl, rfl, rfl, rfl⟩
  have hretired := hw.calms (book_of_cast (hcast.trans (sameCast_dropFinished _))) hretire
  unfold World.stopAll
  simp only
  refine calms ?_ (book_of_cast (sameCast_clearPrompts _)) (calms_clearPrompts _)
  refine calms ?_ rfl (.tend rfl rfl rfl)
  exact (hdelete _ hretired).calms (book_clearBubbles _) (.tend rfl rfl rfl)

/-- **Every effect of a built-in primitive leaves those who are busy where they are.** -/
theorem effect (hw : w.Sheltered) (h : Effect w w') : w'.Sheltered := by
  cases h with
  | tend _ _ ht hs hc hr => exact hw.calms (book_of_register hr) (.tend ht hs hc)
  | startHats hat fields only => exact hw.startHats hat fields only
  | stopActor actor keep => exact hw.stopActor actor keep
  | stopAll => exact hw.stopAll
  | createClone source => exact hw.createClone source
  | deleteClone id => exact hw.deleteClone id

/-! ### Calls -/

theorem addActor (hw : w.Sheltered) (name : String) (g : Graph) (isStage : Bool) :
    (w.addActor name g isStage).1.Sheltered := by
  have hbook := book_addActor w name g isStage
  refine hw.joined (calms_addActor w name g isStage) (hbook.symm ▸ hw.sound.add isStage) ?_
  exact fun id hl => hl.of_insert (congrArg Book.roles hbook)

theorem addStage (hw : w.Sheltered) (name : String) (g : Graph) :
    (w.addStage name g).1.Sheltered := by
  have hadd := hw.addActor name g true
  unfold World.addStage
  simp only
  split <;> exact hadd.calms rfl (.tend rfl rfl rfl)

theorem loadActors (saved : List SavedActor) :
    ∀ {w : World σ}, w.Sheltered → (w.loadActors saved).1.Sheltered := by
  induction saved with
  | nil => exact id
  | cons a rest ih =>
    intro w hw
    have hadd : (if a.isStage then w.addStage a.name (Graph.ofSaved a.blocks)
        else w.addSprite a.name (Graph.ofSaved a.blocks)).1.Sheltered := by
      split
      · exact hw.addStage _ _
      · exact hw.addActor _ _ false
    exact ih (hadd.calms (book_modifyActor _ _ (role_dress a)) (.tend rfl rfl rfl))

theorem load (hw : w.Sheltered) (p : SavedProject) : (w.load p).1.Sheltered := by
  unfold World.load
  split
  · exact loadActors p.targets hw
  · exact loadActors p.targets (hw.calms rfl (calms_notify w _))

theorem greenFlag (hw : w.Sheltered) : w.greenFlag.1.Sheltered := by
  unfold World.greenFlag
  simp only
  refine startHats ?_ _ _ _
  exact hw.stopAll.calms rfl (.tend rfl rfl rfl)

theorem pushThread (hw : w.Sheltered) {actor : ActorId} (hl : w.Lives actor) (top : Handle) :
    (w.pushThread actor top).1.Sheltered := by
  have hbook := book_of_cast (w.sameCast_pushThread actor top)
  refine ⟨hbook ▸ hw.sound, fun id hb => ?_⟩
  rcases busy_pushThread hb with hb | rfl
  · exact (hw.lives id hb).of_book hbook
  · exact hl.of_book hbook

theorem toggleScript (hw : w.Sheltered) {actor : ActorId} (hl : w.Lives actor) (top : Handle) :
    (w.toggleScript actor top).1.Sheltered := by
  have hbook := book_toggleScript w actor top
  revert hbook
  unfold World.toggleScript
  split
  · exact fun hbook => hw.calms hbook
      ((calms_modifyRunning Thread.script_retire w actor top).trans (calms_dropFinished _))
  · refine fun hbook => (hw.pushThread hl top).calms rfl (calms_mapThreads (fun t => ?_) _)
    split
    · exact ⟨rfl, fun h => h⟩
    · exact .refl t

/-- **A call leaves those who are busy where they are**, as long as it does not let them take turns
and starts scripts of actors that exist. -/
theorem apply (hw : w.Sheltered) {c : Call} (hstep : ∀ fuel, c ≠ .step fuel)
    (hlives : ∀ actor top, c = .toggleScript actor top → w.Lives actor) (h : c.apply w = some w') :
    w'.Sheltered := by
  cases c with
  | addSprite name g =>
    cases h
    exact hw.addActor name g false
  | addStage name g =>
    cases h
    exact hw.addStage name g
  | load p =>
    cases h
    exact hw.load p
  | loadStrict p =>
    cases h
    unfold loadStrict
    cases p.problems with
    | nil => exact loadActors p.targets hw
    | cons problem rest => exact hw
  | greenFlag =>
    obtain rfl := Option.some.inj h
    exact hw.greenFlag
  | broadcast message | clickActor actor =>
    cases h
    exact hw.startHats _ _ _
  | queueEvent | postKey | postMouse | postPause | postUser | clock =>
    cases h
    exact hw.calms rfl (.tend rfl rfl rfl)
  | postCloud name v =>
    cases h
    exact hw.calms (book_postCloud w name v) (calms_postCloud w name v)
  | answer text =>
    cases h
    exact hw.calms (book_answerQuestion w text) (calms_answerQuestion w text)
  | toggleScript actor top =>
    cases h
    exact hw.toggleScript (hlives actor top rfl) top
  | createClone source =>
    cases h
    exact hw.createClone source
  | deleteClone id =>
    cases h
    exact hw.deleteClone id
  | stopAll =>
    cases h
    exact hw.stopAll
  | step fuel => exact absurd rfl (hstep fuel)

end Sheltered

/-! ### Steps -/

/-- The book is right, and threads in the lists that have not ended belong to actors. -/
structure Housed (w : World σ) : Prop where
  sound : w.book.Sound
  lives : ∀ t ∈ w.threads ++ w.spawned, t.isDone = false → w.Lives t.actor

/-- There is room for a script whose actor exists. -/
def Welcomes (w : World σ) (script : ActorId × Option Handle) : Prop := w.Lives script.1

theorem sheltered_iff : w.Sheltered ↔ Staged Housed Welcomes w := by
  constructor
  · exact fun h => ⟨⟨h.sound, fun t ht hd => h.lives t.actor (.inl ⟨t, ht, hd, rfl⟩)⟩,
      fun c hc hr => h.lives c.actor (.inr ⟨c, hc, hr, rfl⟩)⟩
  · refine fun h => ⟨h.lists.sound, ?_⟩
    rintro id (⟨t, ht, hd, rfl⟩ | ⟨c, hc, hr, rfl⟩)
    · exact h.lists.lives t ht hd
    · exact h.fits c hc hr

/-- **Threads of actors that exist take turns.** -/
theorem seating_housed : Seating (Housed (σ := σ)) Welcomes where
  thin hw hc hsub := ⟨book_of_cast hc ▸ hw.sound, fun t ht hd =>
    (hw.lives t (hsub.subset ht) hd).of_book (book_of_cast hc)⟩
  subdued hw hc hl := by
    refine ⟨book_of_cast hc ▸ hw.sound, fun t ht hd => ?_⟩
    obtain ⟨u, hu, hs⟩ := exists_of_forall₂ hl ht
    have hactor : t.actor = u.actor := congrArg Prod.fst hs.script
    rw [hactor]
    exact (hw.lives u hu (hs.alive hd)).of_book (book_of_cast hc)
  roomy hroom hc _ _ := Lives.of_book hroom (book_of_cast hc)
  effect h hw := sheltered_iff.1 ((sheltered_iff.2 hw).effect h)
  leave {w i t} hw ht := by
    refine ⟨⟨hw.sound, fun u hu hd => ?_⟩, fun hd =>
      hw.lives t (List.mem_append_left _ (List.mem_of_getElem? ht)) hd⟩
    rcases Thread.mem_set hu with hu | rfl
    · exact hw.lives u hu hd
    · cases hd
  join {w t} i hw hroom := by
    refine ⟨hw.sound, fun u hu hd => ?_⟩
    rcases Thread.mem_set hu with hu | rfl
    · exact hw.lives u hu hd
    · exact hroom hd

/-! ### Sessions -/

/-- What a host does between steps, and a step. Scripts are started of actors that exist. -/
inductive Operates : World σ → World σ → Prop
  | call {w w' : World σ} (c : Call) :
      (∀ actor top, c = .toggleScript actor top → w.Lives actor) → c.apply w = some w' →
      Operates w w'
  | pushThread (w : World σ) {actor : ActorId} (top : Handle) : w.Lives actor →
      Operates w (w.pushThread actor top).1
  | startHats (w : World σ) (hat : Opcode) (fields : List (String × String))
      (only : Option ActorId) : Operates w (w.startHats hat fields only).1
  | stopActor (w : World σ) (actor : ActorId) (keep : Option ThreadId) :
      Operates w (w.stopActor actor keep)
  | editGraph (w : World σ) (id : ActorId) (f : Graph → Graph) : Operates w (w.editGraph id f)
  /-- An actor is changed and stays who it is. -/
  | modifyActor (w : World σ) (id : ActorId) {f : Actor → Actor} :
      (∀ a, (f a).role = a.role) → Operates w (w.modifyActor id f)
  /-- Whatever leaves threads and book alone: results, prompts, reports, faults, devices. -/
  | tend {w w' : World σ} : w'.threads = w.threads → w'.spawned = w.spawned →
      w'.current = w.current → w'.book = w.book → Operates w w'

/-- One operation after the other. -/
def Session : World σ → World σ → Prop := Relation.ReflTransGen Operates

/-- Calls one after the other are a session. -/
theorem session_of_play {calls : List Call} :
    ∀ {w : World σ}, (∀ c ∈ calls, ∀ actor top, c ≠ .toggleScript actor top) →
      w.play calls = some w' → Session w w' := by
  induction calls with
  | nil =>
    intro w _ h
    cases h
    exact .refl
  | cons c rest ih =>
    intro w hcalls h
    obtain ⟨w₁, hc, hrest⟩ := Option.bind_eq_some_iff.1 h
    have hfirst : Operates w w₁ := .call c (fun actor top he =>
      absurd he (hcalls c List.mem_cons_self actor top)) hc
    exact .head hfirst (ih (fun c hm => hcalls c (List.mem_cons_of_mem _ hm)) hrest)

/-- What a host does, the book has entries for. -/
theorem Operates.entries (h : Operates w w') : Book.Entries w.book w'.book := by
  have hsame : ∀ {w₁ : World σ}, w₁.book = w.book → Book.Entries w.book w₁.book :=
    fun he => he ▸ .refl
  cases h with
  | call c _ h => exact entries_apply h
  | pushThread top _ => exact hsame (book_of_cast (w.sameCast_pushThread _ top))
  | startHats hat fields only => exact hsame (book_of_cast (sameCast_startHats w hat fields only))
  | stopActor actor keep => exact hsame (book_of_cast (sameCast_stopActor w actor keep))
  | editGraph id f => exact hsame (book_editGraph w id f)
  | modifyActor id hf => exact hsame (book_modifyActor w id hf)
  | tend _ _ _ hb => exact hsame hb

theorem Session.entries (h : Session w w') : Book.Entries w.book w'.book := by
  induction h with
  | refl => exact .refl
  | tail _ ho ih => exact ih.trans ho.entries

/-- **Whatever a host does, whoever runs exists.** -/
theorem Seated.operate (hw : Seated Housed w) (h : Operates w w') : Seated Housed w' := by
  have hsheltered : w.Sheltered := sheltered_iff.2 hw.staged
  have hkeep : ∀ {w₁ : World σ}, w₁.current = w.current → w₁.Sheltered → Seated Housed w₁ :=
    fun hc hs => ⟨(sheltered_iff.1 hs).lists, hc.trans hw.stage⟩
  cases h with
  | call c hlives h =>
    by_cases hstep : ∃ fuel, c = .step fuel
    · obtain ⟨fuel, rfl⟩ := hstep
      obtain ⟨⟨w₁, ended⟩, he, rfl⟩ := Option.map_eq_some_iff.1 h
      exact seating_housed.step hw he
    · have hcall : ∀ fuel, c ≠ .step fuel := fun fuel he => hstep ⟨fuel, he⟩
      have hstage := (keeps_apply hw.stage hcall h).stage
      rw [hw.stage, Option.map_none, Option.map_eq_none_iff] at hstage
      exact hkeep (hstage.trans hw.stage.symm) (hsheltered.apply hcall hlives h)
  | pushThread top hl => exact hkeep (current_pushThread w _ top) (hsheltered.pushThread hl top)
  | startHats hat fields only => exact hw.effect seating_housed (.startHats w hat fields only)
  | stopActor actor keep => exact hw.effect seating_housed (.stopActor w actor keep)
  | editGraph id f =>
    have htend : Calms w (w.editGraph id f) := by
      unfold World.editGraph
      split <;> exact .tend rfl rfl rfl
    have hc : (w.editGraph id f).current = w.current := by
      unfold World.editGraph
      split <;> rfl
    exact hkeep hc (hsheltered.calms (book_editGraph w id f) htend)
  | modifyActor id hf =>
    exact hkeep rfl (hsheltered.calms (book_modifyActor w id hf) (.tend rfl rfl rfl))
  | tend ht hs hc hb => exact hkeep hc (hsheltered.calms hb (.tend ht hs hc))

theorem seated_of_session {settings : Settings} {host : σ} {dice : Nat → Nat}
    (h : Session (blank settings host dice) w) :
    Seated Housed w := by
  have hblank : Seated Housed (blank settings host dice) := by
    refine ⟨⟨⟨?_, ?_, ?_, ?_, ?_, rfl, Nat.zero_le _, ?_⟩, ?_⟩, rfl⟩
    all_goals
      intro e he
      cases he
  induction h with
  | refl => exact hblank
  | tail _ ho ih => exact ih.operate ho

/-! ### Clones are in order -/

/-- The table of actors, the rosters, the number of clones and the threads tell the same. -/
structure Census (w : World σ) : Prop where
  /-- The clones are counted. -/
  count : w.cloneCount = w.clones.length
  /-- The rosters have as many rows in all. -/
  total : (w.sprites.values.map (·.clones.length)).sum = w.cloneCount
  /-- There are not too many. -/
  limit : w.cloneCount ≤ w.settings.maxClones
  /-- A clone is no stage, and it is listed once: with its own sprite. -/
  clone : ∀ id a, w.actor? id = some a → a.isClone = true →
    a.isStage = false ∧ a.sprite ∈ w.sprites.keys ∧
      ∀ e ∈ w.sprites.entries, e.2.clones.count id = if e.1 = a.sprite then 1 else 0
  /-- Nothing else is listed. -/
  listed : ∀ e ∈ w.sprites.entries, ∀ id ∈ e.2.clones,
    ∃ a, w.actor? id = some a ∧ a.isClone = true ∧ a.sprite = e.1
  /-- Whoever runs exists. -/
  runs : ∀ t ∈ w.threads ++ w.spawned, t.isDone = false → ∃ a, w.actor? t.actor = some a
  /-- The ids of all actors have been given out. -/
  below : ∀ id a, w.actor? id = some a → id < w.nextActor

theorem keys_rosters (w : World σ) : w.rosters.keys = w.sprites.keys := by
  simp only [rosters, Table.keys, Table.mapValues, List.map_map]
  rfl

theorem length_clones (w : World σ) : w.book.clones.length = w.clones.length := by
  simp only [Book.clones, book, roles, Table.mapValues, clones, Table.values, List.filter_map,
    List.length_map]
  rfl

theorem mem_roles {a : Actor} (ha : w.actor? id = some a) : (id, a.role) ∈ w.book.roles.entries :=
  (Table.get?_eq_some_iff _ _ _).1 (get?_roles_of_actor ha)

/-- An actor of the book. -/
theorem actor_of_role {r : Role} (hr : w.book.roles.get? id = some r) :
    ∃ a, w.actor? id = some a ∧ a.role = r := by
  rw [get?_roles] at hr
  exact Option.map_eq_some_iff.1 hr

theorem Housed.census (hw : w.Housed) : w.Census where
  count := hw.sound.count.trans w.length_clones
  total := by
    have hsum := hw.sound.sum_rosters
    simp only [book, rosters, Table.mapValues, List.map_map] at hsum
    rw [Table.values, List.map_map]
    exact hsum
  limit := hw.sound.limit
  clone id a ha hclone := by
    have hsprite := hw.sound.sprite _ (mem_roles ha)
    refine ⟨hw.sound.stage _ (mem_roles ha) hclone, w.keys_rosters ▸ hsprite, fun e he => ?_⟩
    have hroster := hw.sound.roster (e.1, e.2.clones) (List.mem_map.2 ⟨e, he, rfl⟩)
    rw [show e.2.clones = w.book.clonesOf e.1 from hroster]
    exact Book.count_clonesOf (get?_roles_of_actor ha) hclone e.1
  listed e he id hid := by
    have hroster := hw.sound.roster (e.1, e.2.clones) (List.mem_map.2 ⟨e, he, rfl⟩)
    rw [show e.2.clones = w.book.clonesOf e.1 from hroster] at hid
    obtain ⟨r, hr, hclone, hsprite⟩ := Book.mem_clonesOf.1 hid
    obtain ⟨a, ha, rfl⟩ := actor_of_role hr
    exact ⟨a, ha, hclone, hsprite⟩
  runs t ht hd := Option.isSome_iff_exists.1 (hw.lives t ht hd)
  below id a ha := hw.sound.below _ (mem_roles ha)

/-- **Clones are in order whatever a host does.** They are counted, listed and within the limit, and
no thread outlives its actor. From then on originals stay, nobody gets an id that was given out
before, and all that the book of actors sees is that actors are added, cloned and deleted. -/
theorem tenancy_of_session {settings : Settings} {host : σ} {dice : Nat → Nat}
    (h : Session (blank settings host dice) w) :
    w.Census ∧ w.settings.maxClones = settings.maxClones ∧
      ∀ w', Session w w' →
        Book.Entries w.book w'.book ∧ w.nextActor ≤ w'.nextActor ∧
        (∀ id a, w.actor? id = some a → a.isClone = false →
          ∃ a', w'.actor? id = some a' ∧ a'.role = a.role) ∧
        ∀ id a', w'.actor? id = some a' → id < w.nextActor →
          ∃ a, w.actor? id = some a ∧ a.role = a'.role := by
  have hhoused : w.Housed := (seated_of_session h).lists
  have hblank : (blank settings host dice).Housed := (seated_of_session .refl).lists
  refine ⟨hhoused.census, (hblank.sound.follows_of_entries h.entries).maxClones, fun w' h' => ?_⟩
  have hfollows := hhoused.sound.follows_of_entries h'.entries
  refine ⟨h'.entries, hfollows.next_le, fun id a ha hc => ?_, fun id a' ha' hlt => ?_⟩
  · exact actor_of_role (hfollows.original id a.role (get?_roles_of_actor ha) hc)
  · exact actor_of_role (hfollows.old id a'.role (get?_roles_of_actor ha') hlt)

/-- A sprite that clones itself twice, and whose clones wait. -/
def brood : Graph :=
  Graph.empty.run
    [.create { Block.detached "flag" (.event .whenFlagClicked) with
        next := some ⟨1, 0⟩
        topLevel := true },
      .create { Block.detached "first" (.control .createCloneOf) with
        inputs := Table.empty.insert "CLONE_OPTION" (.literal (.text "_myself_"))
        parent := some ⟨0, 0⟩
        next := some ⟨2, 0⟩ },
      .create { Block.detached "second" (.control .createCloneOf) with
        inputs := Table.empty.insert "CLONE_OPTION" (.literal (.text "_myself_"))
        parent := some ⟨1, 0⟩ },
      .create { Block.detached "hatched" (.control .startAsClone) with
        next := some ⟨4, 0⟩
        topLevel := true },
      .create { Block.detached "wait" (.control .waitUntil) with parent := some ⟨3, 0⟩ }]

/-- Two clones are born in a step, the host deletes the first of them, and it clones the second: the
new clone gets a new id. -/
theorem tenancy_of_session_brood : ∃ w w' : World Unit,
    Session (blank Settings.standard ()) w ∧ Session w w' ∧
    (w.actors.keys = [0, 1, 2] ∧ (w.threads ++ w.spawned).map (·.actor) = [1, 2]) ∧
    (w'.actors.keys = [0, 2, 3] ∧ (w'.threads ++ w'.spawned).map (·.actor) = [2, 3]) ∧
    w.Census ∧ ∀ id a', w'.actor? id = some a' → id < w.nextActor →
      ∃ a, w.actor? id = some a ∧ a.role = a'.role := by
  have hrun : (((blank Settings.standard ()).play
      [.addSprite "Cat" brood, .greenFlag, .step 9, .step 9]).bind fun w =>
        (w.play [.deleteClone 1, .createClone 2]).map fun w' =>
          ((w.actors.keys, (w.threads ++ w.spawned).map (·.actor)),
            (w'.actors.keys, (w'.threads ++ w'.spawned).map (·.actor)))) =
      some (([0, 1, 2], [1, 2]), ([0, 2, 3], [2, 3])) := by
    decide +kernel
  obtain ⟨w, hw, hrest⟩ := Option.bind_eq_some_iff.1 hrun
  obtain ⟨w', hw', he⟩ := Option.map_eq_some_iff.1 hrest
  obtain ⟨hbefore, hafter⟩ := Prod.mk.inj he
  have hsession : Session (blank Settings.standard ()) w := session_of_play (by simp) hw
  have hlater : Session w w' := session_of_play (by simp) hw'
  obtain ⟨hcensus, -, hstay⟩ := tenancy_of_session hsession
  exact ⟨w, w', hsession, hlater, Prod.mk.inj hbefore, Prod.mk.inj hafter, hcensus,
    (hstay w' hlater).2.2.2⟩

end World

end Stagecraft
