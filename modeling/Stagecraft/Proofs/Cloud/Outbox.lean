import Stagecraft.Proofs.Cast.Lookup
import Stagecraft.Proofs.Cast.Show
import Stagecraft.Proofs.Schedule.Route

/-!
# Requests to the cloud

Requests wait in the outbox until the limiter lets them through. Scripts make them when they write
shared variables, and the host makes them itself; updates that come from elsewhere make none. So
what the provider has received, and then the outbox, is all that was requested so far, in order,
whatever the limiter says.

* `Cloud.Queues` : all requests so far are received or wait, in order;
* `Cloud.Queues.flush` : sending keeps this, wherever the limiter stops it;
* `Invocation.request?` : the request that a primitive makes;
* `Invocation.cloud_result` : **a primitive makes it and no other**;
* `World.Traffic` : runs with the requests that are made on the way;
* `World.queues_of_traffic` : **requests are neither lost nor made twice nor reordered**.
-/

namespace Stagecraft

/-! ### The connection -/

namespace Cloud

variable {c c' : Cloud} {requests : List CloudRequest}

/-- A provider is attached, and it has received the requests, or they wait, in order. -/
structure Queues (requests : List CloudRequest) (c : Cloud) : Prop where
  attached : c.attached = true
  requests : c.received ++ c.outbox = requests

/-- The same provider with the same requests, whatever the limiter says. -/
structure SameLine (c c' : Cloud) : Prop where
  attached : c'.attached = c.attached
  outbox : c'.outbox = c.outbox
  received : c'.received = c.received

/-- What is sent and what stays is what was in the outbox, wherever the limiter stops. -/
theorem sent_append_left (now : Span) (outbox : List CloudRequest) : ∀ l : Limiter Float,
    (drain now outbox l).2.1 ++ (drain now outbox l).1 = outbox := by
  induction outbox with
  | nil => exact fun _ => rfl
  | cons r rest ih =>
    intro l
    rw [drain]
    rcases l.send now with ⟨l', _ | _⟩
    · rfl
    · exact congrArg (r :: ·) (ih l')

namespace Queues

theorem same (h : Queues requests c) (hs : SameLine c c') : Queues requests c' :=
  ⟨hs.attached.trans h.attached, by rw [hs.received, hs.outbox, h.requests]⟩

theorem request (h : Queues requests c) (r : CloudRequest) :
    Queues (requests ++ [r]) (c.request r) := by
  rw [Cloud.request, if_pos h.attached]
  exact ⟨h.attached, by rw [← List.append_assoc, h.requests]⟩

/-- **Sending takes requests from the front of the outbox.** -/
theorem flush (h : Queues requests c) (now : Span) : Queues requests (c.flush now).1 := by
  have hsent := sent_append_left now c.outbox c.limiter
  rw [Cloud.flush, if_pos h.attached]
  refine ⟨h.attached, ?_⟩
  simp only [List.append_assoc, hsent]
  exact h.requests

end Queues

end Cloud

namespace World

variable {σ : Type} {w w' : World σ}

/-! ### What leaves the connection alone -/

theorem cloud_lookupVariable (w : World σ) (actor : ActorId) (id : Option String) (name : String)
    (kind : VariableKind) : (w.lookupVariable actor id name kind).1.cloud = w.cloud := by
  unfold lookupVariable
  split
  · rfl
  · split <;> rfl

theorem cloud_startScript (w : World σ) (restarts : Bool) (actor : ActorId) (top : Handle) :
    (w.startScript restarts actor top).1.cloud = w.cloud := by
  unfold startScript modifyRunning pushThread
  split
  · rfl
  · split
    · split
      · split <;> rfl
      · rfl
    · simp only
      split <;> rfl

theorem cloud_startScripts (restarts : Bool) (scripts : List (ActorId × Handle)) :
    ∀ w : World σ, (startScripts restarts scripts w).1.cloud = w.cloud := by
  induction scripts with
  | nil => exact fun _ => rfl
  | cons script rest ih =>
    exact fun w => (ih _).trans (cloud_startScript w restarts script.1 script.2)

theorem cloud_startHats (w : World σ) (hat : Opcode) (fields : List (String × String))
    (only : Option ActorId) : (w.startHats hat fields only).1.cloud = w.cloud := by
  unfold startHats
  split
  · rfl
  · exact cloud_startScripts _ _ w

/-- What leaves the connection alone does so as often as it is done. -/
theorem cloud_foldl {α : Type} {f : World σ → α → World σ} (hf : ∀ w a, (f w a).cloud = w.cloud)
    (l : List α) : ∀ w, (l.foldl f w).cloud = w.cloud := by
  induction l with
  | nil => exact fun _ => rfl
  | cons a rest ih => exact fun w => (ih _).trans (hf w a)

theorem cloud_dispatchEvents (w : World σ) : w.dispatchEvents.cloud = w.cloud :=
  cloud_foldl (f := fun w e => (w.raise e).1)
    (fun w e => cloud_startHats w e.hat e.fields e.actor) _ _

theorem cloud_dropFinished (w : World σ) : w.dropFinished.cloud = w.cloud := by
  unfold dropFinished
  split <;> rfl

theorem cloud_stopActor (w : World σ) (actor : ActorId) (keep : Option ThreadId) :
    (w.stopActor actor keep).cloud = w.cloud :=
  cloud_dropFinished _

theorem cloud_createClone (w : World σ) (source : ActorId) :
    (w.createClone source).1.cloud = w.cloud := by
  unfold createClone
  split
  · rfl
  · split
    · rfl
    · split
      · rfl
      · exact cloud_startHats _ _ _ _

theorem cloud_deleteClone (w : World σ) (id : ActorId) :
    (w.deleteClone id).1.cloud = w.cloud := by
  unfold deleteClone
  split
  · rfl
  · split
    · rfl
    · exact cloud_stopActor w id none

theorem cloud_stopAll (w : World σ) : w.stopAll.cloud = w.cloud := by
  have hdrop : ∀ (w : World σ) (p : Prompt), (w.dropResolver p.channel).cloud = w.cloud :=
    fun _ _ => rfl
  have hclear : ∀ w : World σ, w.clearPrompts.cloud = w.cloud := fun w =>
    cloud_foldl hdrop w.prompts _
  unfold stopAll
  simp only
  refine (hclear _).trans ((cloud_foldl (fun w id => cloud_deleteClone w id) _ _).trans ?_)
  exact cloud_dropFinished _

theorem cloud_greenFlag (w : World σ) : w.greenFlag.1.cloud = w.cloud := by
  unfold greenFlag raise
  simp only [cloud_startHats, cloud_stopAll]

theorem cloud_addStage (w : World σ) (name : String) (g : Graph) :
    (w.addStage name g).1.cloud = w.cloud := by
  unfold addStage
  simp only
  split <;> rfl

theorem cloud_loadActors (saved : List SavedActor) :
    ∀ w : World σ, (w.loadActors saved).1.cloud = w.cloud := by
  induction saved with
  | nil => exact fun _ => rfl
  | cons a rest ih =>
    intro w
    have hadd : (if a.isStage then w.addStage a.name (Graph.ofSaved a.blocks)
        else w.addSprite a.name (Graph.ofSaved a.blocks)).1.cloud = w.cloud := by
      split
      · exact cloud_addStage w _ _
      · rfl
    exact (ih _).trans hadd

theorem cloud_toggleScript (w : World σ) (actor : ActorId) (top : Handle) :
    (w.toggleScript actor top).1.cloud = w.cloud := by
  unfold toggleScript modifyRunning pushThread
  split
  · refine (cloud_dropFinished _).trans ?_
    split <;> rfl
  · simp only
    split <;> rfl

/-- **Calls make no requests**, remote updates included: all but steps leave the connection
alone. -/
theorem cloud_apply {c : Call} (hstep : ∀ fuel, c ≠ .step fuel) (h : c.apply w = some w') :
    w'.cloud = w.cloud := by
  cases c with
  | addStage name g =>
    cases h
    exact cloud_addStage w name g
  | load p =>
    cases h
    unfold load
    split
    · exact cloud_loadActors _ w
    · exact cloud_loadActors _ _
  | loadStrict p =>
    cases h
    unfold loadStrict
    cases p.problems with
    | nil => exact cloud_loadActors p.targets w
    | cons problem rest => rfl
  | greenFlag =>
    obtain rfl := Option.some.inj h
    exact cloud_greenFlag w
  | broadcast message | clickActor actor =>
    cases h
    exact cloud_startHats w _ _ _
  | addSprite | queueEvent | postKey | postMouse | postPause | postUser | clock =>
    cases h
    rfl
  | postCloud name v =>
    cases h
    unfold postCloud
    split
    · rfl
    · split
      · split <;> rfl
      · rfl
  | answer text =>
    cases h
    unfold answerQuestion deliver
    split
    · rfl
    · simp only
      split <;> rfl
  | toggleScript actor top =>
    cases h
    exact cloud_toggleScript w actor top
  | createClone source =>
    cases h
    exact cloud_createClone w source
  | deleteClone id =>
    cases h
    exact cloud_deleteClone w id
  | stopAll =>
    cases h
    exact cloud_stopAll w
  | step fuel => exact absurd rfl (hstep fuel)

end World

/-! ### What a block requests -/

theorem Variable.get_set {v : Variable} (h : v.kind = .scalar) (x : Value) :
    (v.set x).get = x := by
  unfold kind at h
  unfold set get
  split at h
  · rfl
  · cases h

instance : DecidablePred Opcode.Assigns := fun _ => inferInstanceAs (Decidable (_ ∨ _))

namespace Invocation

variable {σ : Type} (i : Invocation σ)

/-- The variable that the primitive wrote, as it is afterwards. -/
def assigned? : Option Variable :=
  if i.opcode.Assigns then
    (Primitive.lookup i.site i.before "VARIABLE" .scalar).2.bind
      (i.result .empty).1.world.variableAt?
  else none

/-- The request that the primitive makes: to update the variable that it wrote, if that is shared,
to the value that it has now. -/
def request? : Option CloudRequest :=
  (i.assigned?.filter (·.cloud)).map fun v => .update v.name v.get

end Invocation

namespace Primitive

open World

variable {σ : Type} {site : Site} {op : Opcode} {s s' : Scene σ}

/-- Writing a variable: nothing is found and nothing is done, or the variable that is found is
written, and requested if it is shared. -/
theorem writeVariable_cases (hs : s.world.Identified) (site : Site) (update : Value → Value) :
    ((lookup site s "VARIABLE" .scalar).2 = none ∧
      (writeVariable site s update).world.cloud = s.world.cloud) ∨
    ∃ place v, (lookup site s "VARIABLE" .scalar).2 = some place ∧
      (writeVariable site s update).world.variableAt? place = some v ∧
      (writeVariable site s update).world.cloud =
        if v.cloud then s.world.cloud.request (.update v.name v.get) else s.world.cloud := by
  have hcloud : (lookup site s "VARIABLE" .scalar).1.world.cloud = s.world.cloud :=
    cloud_lookupVariable _ _ _ _ _
  unfold writeVariable
  simp only
  split
  · rename_i hnone
    exact .inl ⟨hnone, hcloud⟩
  · rename_i place hplace
    obtain ⟨v, hv, hkind⟩ := variableAt?_of_lookup hs hplace
    have hv : (lookup site s "VARIABLE" .scalar).1.world.variableAt? place = some v := hv
    have hafter := variableAt?_modifyVariable
      (lookup site s "VARIABLE" .scalar).1.world place (·.set (update v.get)) place
    rw [if_pos rfl, hv, Option.map_some] at hafter
    have hset := v.rewritten_set (update v.get)
    rw [hv]
    refine .inr ⟨place, v.set (update v.get), hplace, ?_, ?_⟩
    · simp only
      split <;> exact hafter
    · rw [hset.cloud, hset.name, Variable.get_set hkind]
      simp only
      split
      · exact congrArg (Cloud.request · _) hcloud
      · exact hcloud

/-- Whatever a primitive does that assigns nothing leaves the connection alone. -/
theorem cloud_performs (h : Scene.Performs site op s s') (hop : ¬op.Assigns) :
    s'.world.cloud = s.world.cloud := by
  induction h with
  | refl => rfl
  | tail _ hd ih =>
    refine Eq.trans ?_ ih
    cases hd with
    | shift | restyle | ask => rfl
    | aside h => exact h.cloud
    | lookup => exact cloud_lookupVariable _ _ _ _ _
    | write => exact cloud_lookupVariable _ _ _ _ _
    | request _ h => exact absurd h hop
    | startHats => exact cloud_startHats _ _ _ _
    | stopActor => exact cloud_stopActor _ _ _
    | createClone => exact cloud_createClone _ _
    | deleteClone => exact cloud_deleteClone _ _
    | stopAll => exact cloud_stopAll _

end Primitive

/-- **A primitive makes its request and no other.** -/
theorem Invocation.cloud_result {σ : Type} (i : Invocation σ) (hi : i.before.world.Identified) :
    (i.result .empty).1.world.cloud =
      i.request?.elim i.before.world.cloud i.before.world.cloud.request := by
  have hwrite : ∀ update, i.opcode.Assigns →
      (i.result .empty).1 = Primitive.writeVariable i.site i.before update →
        (i.result .empty).1.world.cloud =
          i.request?.elim i.before.world.cloud i.before.world.cloud.request := by
    intro update hop hresult
    rw [request?, assigned?, if_pos hop, hresult]
    rcases Primitive.writeVariable_cases hi i.site update with
      ⟨hnone, hcloud⟩ | ⟨place, v, hplace, hv, hcloud⟩
    · rw [hnone, hcloud]
      rfl
    · rw [hplace, Option.bind_some, hv, hcloud]
      by_cases hshared : v.cloud = true <;> simp [Option.filter, hshared]
  by_cases hop : i.opcode.Assigns
  · rcases hop with hset | hchange
    · exact hwrite (fun _ => i.args.value "VALUE") (.inl hset) (by rw [result, hset]; rfl)
    · exact hwrite (fun v => .number (v.toNumber + i.args.number "VALUE")) (.inr hchange)
        (by rw [result, hchange]; rfl)
  · -- whatever else a primitive is made of, only assignments make requests
    obtain ⟨s, hs, hq⟩ := Primitive.works_run i.site i.opcode i.args i.before
    have hquits : Scene.Quits i.site s (i.result .empty).1 := hq
    rw [request?, assigned?, if_neg hop]
    refine Eq.trans ?_ (Primitive.cloud_performs hs hop)
    generalize (i.result .empty).1 = s' at hquits ⊢
    cases hquits <;> rfl

/-! ### Steps -/

/-- All requests so far are received or wait, and actors carry their ids. -/
structure World.Posted {σ : Type} (requests : List CloudRequest) (w : World σ) : Prop where
  queues : w.cloud.Queues requests
  identified : w.Identified

namespace Scene

open World

variable {σ : Type} {k : Scheduler} {g? : Option Graph} {s s' : Scene σ} {l : List (Invocation σ)}
  {requests : List CloudRequest}

theorem posted_result {i : Invocation σ} (h : Posted requests i.before.world) :
    Posted (requests ++ i.request?.toList) (i.result .empty).1.world := by
  refine ⟨?_, (Primitive.changes_run i.site i.args i.before i.opcode).changed.keeps
    Identified.change h.identified⟩
  rw [i.cloud_result h.identified]
  cases i.request? with
  | none =>
    rw [Option.toList_none, List.append_nil]
    exact h.queues
  | some r => exact h.queues.request r

theorem Tidies.cloud (h : Tidies k g? s s') : s'.world.cloud = s.world.cloud := by
  cases h with
  | tend h => exact h.cloud
  | _ => rfl

/-- **All the way along a turn.** -/
theorem Along.posted (ha : Along k g? s l s') (h : Posted requests s.world) :
    Posted (requests ++ l.filterMap Invocation.request?) s'.world := by
  induction ha with
  | nil => rwa [List.filterMap_nil, List.append_nil]
  | tidy _ ht ih => exact ⟨ht.cloud ▸ ih.queues, .of_same ht.sameCast ih.identified⟩
  | @call l i _ _ ih =>
    have hlast : [i].filterMap Invocation.request? = i.request?.toList := by
      cases hr : i.request? <;> simp [hr]
    rw [List.filterMap_append, ← List.append_assoc, hlast]
    exact posted_result ih

end Scene

namespace World

variable {σ : Type} {k : Scheduler} {w w' : World σ} {requests : List CloudRequest} {fuel : Nat}

/-- Between turns nothing is requested, and what waits may be sent. -/
theorem Posted.interlude (h : Posted requests w) (hi : Interlude w w') : Posted requests w' := by
  cases hi with
  | elapse | begin | collect | finish => exact ⟨h.queues, h.identified⟩
  | dispatch =>
    exact ⟨w.cloud_dispatchEvents ▸ h.queues, .of_same w.sameCast_dispatchEvents h.identified⟩
  | flush => exact ⟨h.queues.flush w.now, h.identified⟩

theorem Posted.visitAt {i : Nat} {p p' : Pass σ} (h : Posted requests p.world)
    (hv : Pass.visitAt .empty fuel p i = some p') :
    Posted (requests ++ (Pass.visitAtInvocations fuel p i).filterMap Invocation.request?)
      p'.world := by
  rcases Pass.along_visitAt hv with ⟨hnone, rfl⟩ | ⟨t, s, -, halong, hworld, -⟩
  · rwa [hnone, List.filterMap_nil, List.append_nil]
  · have hout : Posted requests (p.without i) := ⟨h.queues, h.identified⟩
    have hback := halong.posted hout
    rw [hworld]
    exact ⟨hback.queues, hback.identified⟩

/-- **All the way through a step.** -/
theorem Route.posted {l : List (Invocation σ)}
    (h : Route k (Pass.visitAtInvocations fuel) fuel w l w') (hw : Posted requests w) :
    Posted (requests ++ l.filterMap Invocation.request?) w' := by
  induction h with
  | nil => rwa [List.filterMap_nil, List.append_nil]
  | aside _ hi ih => exact ih.interlude hi
  | turn _ _ hv ih =>
    rw [List.filterMap_append, ← List.append_assoc]
    exact ih.visitAt hv

/-! ### Runs -/

/-- A world in a run to which a provider is attached from the start, with all requests so far. -/
inductive Traffic : List CloudRequest → World σ → Prop
  | attach (settings : Settings) (host : σ) (dice : Nat → Nat := fun _ => 0) :
      Traffic [] { blank settings host dice with cloud := (blank settings host dice).cloud.attach }
  /-- Whatever a host does but request and send, and whatever becomes of the limiter meanwhile. -/
  | gesture {requests : List CloudRequest} {w w' : World σ} : Traffic requests w → Gesture w w' →
      w.cloud.SameLine w'.cloud → Traffic requests w'
  /-- Its calls, remote updates and movements of the clock among them. -/
  | call {requests : List CloudRequest} {w w' : World σ} (c : Call) : Traffic requests w →
      (∀ fuel, c ≠ .step fuel) → c.apply w = some w' → Traffic requests w'
  | request {requests : List CloudRequest} {w : World σ} (r : CloudRequest) :
      Traffic requests w → Traffic (requests ++ [r]) (w.requestCloud r)
  | flush {requests : List CloudRequest} {w : World σ} :
      Traffic requests w → Traffic requests w.flushCloud.1
  | step {requests : List CloudRequest} {fuel : Nat} {w w' : World σ} {ended : List ThreadId} :
      Traffic requests w → w.step .empty fuel = some (w', ended) →
      Traffic (requests ++ (w.invocations fuel).filterMap Invocation.request?) w'

/-- Such a run is a show. -/
theorem show_of_traffic (h : Traffic requests w) : Show (fun _ => True) w := by
  induction h with
  | attach settings host dice =>
    exact (Show.blank settings host dice).gesture (.tend (.still rfl rfl rfl rfl rfl rfl rfl) .refl)
  | gesture _ hg _ ih => exact ih.gesture hg
  | call c _ hstep hc ih => exact ih.gesture (gesture_of_apply hstep hc)
  | request _ _ ih => exact ih.gesture (.tend (.still rfl rfl rfl rfl rfl rfl rfl) .refl)
  | flush _ ih => exact ih.gesture (.tend (.still rfl rfl rfl rfl rfl rfl rfl) .refl)
  | step _ hs ih => exact ih.step trivial hs

theorem Traffic.posted (h : Traffic requests w) : Posted requests w := by
  refine ⟨?_, (show_of_traffic h).identified⟩
  induction h with
  | attach settings host => exact ⟨rfl, rfl⟩
  | gesture _ _ hs ih => exact ih.same hs
  | call c _ hstep hc ih => exact cloud_apply hstep hc ▸ ih
  | request r _ ih => exact ih.request r
  | flush _ ih => exact ih.flush _
  | step hw hs ih =>
    have hshow := show_of_traffic hw
    obtain ⟨k, hk⟩ := hshow.exists_scheduler
    exact ((route_of_step hk _ hs).posted ⟨ih, hshow.identified⟩).queues

/-- **Requests to the cloud are delayed, and neither lost nor made twice nor reordered.** At any
time, also in the middle of a step, the provider has received the first of the requests made so far
and the others wait in the outbox, in order; and each block that writes a shared variable has made
one of them, for the variable and the value that it now has. -/
theorem queues_of_traffic (h : Traffic requests w) :
    w.cloud.received ++ w.cloud.outbox = requests ∧
      ∀ fuel front i rest, w.invocations fuel = front ++ i :: rest →
        i.before.world.cloud.received ++ i.before.world.cloud.outbox =
            requests ++ front.filterMap Invocation.request? ∧
          (i.result .empty).1.world.cloud.received ++ (i.result .empty).1.world.cloud.outbox =
            requests ++ front.filterMap Invocation.request? ++ i.request?.toList := by
  refine ⟨h.posted.queues.requests, fun fuel front i rest hsplit => ?_⟩
  obtain ⟨k, hk⟩ := (show_of_traffic h).exists_scheduler
  obtain ⟨p, place, t, front₁, front₂, hmid⟩ := amidst_of_invocations hk hsplit
  have hturn := hmid.route.posted h.posted
  have hout : Posted (requests ++ front₁.filterMap Invocation.request?) (p.without place) :=
    ⟨hturn.queues, hturn.identified⟩
  have hbefore := hmid.along.posted hout
  rw [List.append_assoc, ← List.filterMap_append, ← hmid.front] at hbefore
  exact ⟨hbefore.queues.requests, (Scene.posted_result hbefore).queues.requests⟩

/-- A stage that writes a variable twice. -/
def scorer : Graph :=
  Graph.empty.run
    [.create { Block.detached "flag" (.event .whenFlagClicked) with
        next := some ⟨1, 0⟩
        topLevel := true },
      .create { Block.detached "first" (.data .setVariable) with
        fields := Table.empty.insert "VARIABLE" ⟨"score", some "a"⟩
        inputs := Table.empty.insert "VALUE" (.literal (.text "one"))
        parent := some ⟨0, 0⟩
        next := some ⟨2, 0⟩ },
      .create { Block.detached "second" (.data .setVariable) with
        fields := Table.empty.insert "VARIABLE" ⟨"score", some "a"⟩
        inputs := Table.empty.insert "VALUE" (.literal (.text "two"))
        parent := some ⟨1, 0⟩ }]

/-- The host makes a request, the script writes the shared variable twice in a step, the variable
changes elsewhere, and what the limiter allows is sent. -/
theorem queues_of_traffic_scorer : ∃ w : World Unit,
    Traffic [.create "score" (.text ""), .update "score" (.text "one"),
      .update "score" (.text "two")] w ∧
    w.cloud.received ++ w.cloud.outbox =
      [.create "score" (.text ""), .update "score" (.text "one"),
        .update "score" (.text "two")] := by
  let start : World Unit :=
    { blank Settings.standard () with cloud := (blank Settings.standard ()).cloud.attach }
  let staged := (start.addStage "Stage" scorer).1
  let shared := staged.modifyActor 0 (·.insertVariable ⟨"a", "score", .scalar .blank, true⟩)
  let ready := shared.greenFlag.1.requestCloud (.create "score" (.text ""))
  have hready : Traffic [.create "score" (.text "")] ready := by
    have hstaged : Traffic [] staged := (Traffic.attach Settings.standard ()).call
      (.addStage "Stage" scorer) nofun rfl
    have hshared : Traffic [] shared := by
      have hbook : shared.book = staged.book := book_modifyActor staged 0 fun _ => rfl
      have htend : Tended staged shared := .still rfl rfl rfl rfl rfl rfl rfl
      exact hstaged.gesture (.tend htend (hbook ▸ .refl)) ⟨rfl, rfl, rfl⟩
    exact (hshared.call .greenFlag nofun rfl).request _
  have hends : (ready.step .empty 9).isSome = true := by decide +kernel
  have hwrites : (ready.invocations 9).filterMap Invocation.request? =
      [.update "score" (.text "one"), .update "score" (.text "two")] := by
    decide +kernel
  obtain ⟨⟨w, ended⟩, hstep⟩ := Option.isSome_iff_exists.1 hends
  have hlater := ((hready.step hstep).call (.postCloud "score" (.text "three")) nofun rfl).flush
  rw [hwrites] at hlater
  exact ⟨_, hlater, (queues_of_traffic hlater).1⟩

end World

end Stagecraft
