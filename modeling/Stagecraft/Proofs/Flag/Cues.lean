import Stagecraft.Proofs.Flag.Order
import Stagecraft.Proofs.Flag.Turns

/-!
# Cues behind a past

What a host does to a world, one cue after the other, and what it is answered. A host names results
by how many there were since it began; what it does to the earlier ones is a cue of its own. Behind
a past the same cues get the same answers, and what becomes of the world is what becomes of it
without a past, put behind one. So two worlds that only differ in their past stay alike.

* `Cue`, `Answer`, `World.performAll` : what a host does, and what it is answered;
* `Cue.Heeds` : the host's primitives are orderly and do not look at the numbers of results;
* `World.upon_perform`, `World.upon_performAll` : **the same cues get the same answers behind a
  past**;
* `World.Alike` : two worlds that nobody can tell apart;
* `World.alike_upon`, `World.alike_performAll` : **worlds that only differ in their past stay
  alike**.
-/

namespace Stagecraft

/-! ### What a host does -/

/-- What a host does to a world. -/
inductive Cue (σ : Type) where
  /-- One of the calls that start threads at hats only. -/
  | call (c : World.Call)
  /-- Start the scripts under a hat. -/
  | startHats (hat : Opcode) (fields : List (String × String)) (only : Option ActorId)
  /-- Start a thread at a block. -/
  | pushThread (actor : ActorId) (top : Handle)
  /-- Stop the threads of an actor, except one. -/
  | stopActor (actor : ActorId) (keep : Option ThreadId)
  /-- Edit the program of an actor. -/
  | editGraph (actor : ActorId) (f : Graph → Graph)
  /-- Change an actor. -/
  | modifyActor (actor : ActorId) (f : Actor → Actor)
  /-- Look a variable up, which creates it if it is nowhere. -/
  | lookupVariable (actor : ActorId) (id : Option String) (name : String) (kind : VariableKind)
  /-- Tune the settings. -/
  | configure (settings : Settings)
  /-- Ask for a redraw. -/
  | requestRedraw
  /-- Attach a provider of shared variables, or detach it. -/
  | connect (on : Bool)
  /-- Make a request to that provider. -/
  | requestCloud (r : CloudRequest)
  /-- Take the faults out. -/
  | takeFaults
  /-- Take the reports out. -/
  | takeReports
  /-- Put a question in line. -/
  | ask (text : String)
  /-- Open a channel. -/
  | openChannel (c : Channel)
  /-- Deliver a result. -/
  | deliver (c : Nat) (d : Delivery)
  /-- Drop a resolver. -/
  | dropResolver (c : Nat)
  /-- Take a result, if it has come. -/
  | poll (c : Nat)
  /-- Await a result. -/
  | hold (c : Nat)
  /-- Await a result no longer. -/
  | release (c : Nat)
  /-- Something comes of an earlier result, or nothing does: its resolver is dropped. -/
  | late (c : Nat) (d : Option Delivery)
  /-- Run one pass, with the host's primitives. -/
  | step (ext : Extensions σ) (fuel : Nat)

/-- What a host is answered. -/
inductive Answer where
  | nothing
  | flag (b : Bool)
  | thread (id : Option ThreadId)
  | threads (ids : List ThreadId)
  | actor (id : Option ActorId)
  | actors (ids : List ActorId)
  | problems (l : List Problem)
  | variable (place : Option (ActorId × String))
  | faults (l : List FaultRecord)
  | reports (l : List (ThreadId × Value))
  | channel (c : Nat)
  | delivery (d : Option Delivery)
deriving DecidableEq

namespace World

variable {σ : Type}

/-- What a call is answered. -/
def Call.reply (w : World σ) : Call → Answer
  | .addSprite name g => .actor (w.addSprite name g).2
  | .addStage name g => .actor (w.addStage name g).2
  | .load p => .actors (w.load p).2
  | .loadStrict p => match w.loadStrict p with
    | .ok r => .actors r.2
    | .error l => .problems l
  | .greenFlag => .threads w.greenFlag.2
  | .broadcast message => .threads (w.broadcast message).2
  | .clickActor actor => .threads (w.clickActor actor).2
  | .answer text => .flag (w.answerQuestion text).2
  | .toggleScript actor top => .thread (w.toggleScript actor top).2
  | .createClone source => .actor (w.createClone source).2
  | .deleteClone id => .flag (w.deleteClone id).2
  | .step fuel => .threads (((w.step .empty fuel).map (·.2)).getD [])
  | _ => .nothing

/-- What comes late, comes of a result below a number. -/
def catchUp (base : Nat) (w : World σ) (c : Nat) (d : Option Delivery) : World σ :=
  if c < base then
    match d with
    | some d => (w.deliver c d).1
    | none => w.dropResolver c
  else w

/-- Perform a cue, with the numbers of results counted from a first one on; nothing when a step does
not end within its fuel. -/
def perform (base : Nat) (w : World σ) : Cue σ → Option (World σ × Answer)
  | .call c => (c.apply w).map fun w' => (w', c.reply w)
  | .startHats hat fields only =>
    some ((w.startHats hat fields only).1, .threads (w.startHats hat fields only).2)
  | .pushThread actor top =>
    some ((w.pushThread actor top).1, .thread (w.pushThread actor top).2)
  | .stopActor actor keep => some (w.stopActor actor keep, .nothing)
  | .editGraph actor f => some (w.editGraph actor f, .nothing)
  | .modifyActor actor f => some (w.modifyActor actor f, .nothing)
  | .lookupVariable actor id name kind =>
    some ((w.lookupVariable actor id name kind).1,
      .variable (w.lookupVariable actor id name kind).2)
  | .configure settings => some ({ w with settings := settings }, .nothing)
  | .requestRedraw => some (w.requestRedraw, .nothing)
  | .connect on =>
    some ({ w with cloud := if on then w.cloud.attach else w.cloud.detach }, .nothing)
  | .requestCloud r => some (w.requestCloud r, .nothing)
  | .takeFaults => some (w.takeFaults.1, .faults w.takeFaults.2)
  | .takeReports => some (w.takeReports.1, .reports w.takeReports.2)
  | .ask text => some ((w.ask text).1, .channel ((w.ask text).2 - base))
  | .openChannel c => some ((w.openChannel c).1, .channel ((w.openChannel c).2 - base))
  | .deliver c d => some ((w.deliver (base + c) d).1, .flag (w.deliver (base + c) d).2)
  | .dropResolver c => some (w.dropResolver (base + c), .nothing)
  | .poll c => some ((w.poll (base + c)).1, .delivery (w.poll (base + c)).2)
  | .hold c => some (w.hold (base + c), .nothing)
  | .release c => some (w.release (base + c), .nothing)
  | .late c d => some (w.catchUp base c d, .nothing)
  | .step ext fuel => (w.step ext fuel).map fun r => (r.1, .threads r.2)

/-- Perform cues one after the other. -/
def performAll (base : Nat) : List (Cue σ) → World σ → Option (World σ × List Answer)
  | [], w => some (w, [])
  | c :: rest, w => (w.perform base c).bind fun r =>
    (performAll base rest r.1).map fun r' => (r'.1, r.2 :: r'.2)

end World

/-- The host's primitives are orderly and do not look at the numbers of results, given how the
host's value names them. -/
def Cue.Heeds {σ : Type} (names : Nat → σ → σ) : Cue σ → Prop
  | .step ext _ => ext.Orderly ∧
      ∀ p : Past σ, p.stale = none → p.host = names p.next → ext.Portable p
  | _ => True

/-! ### Earlier results -/

namespace Past

variable {σ : Type} {p : Past σ} {t : Table Nat Channel}

theorem get?_table_old {c : Nat} (hc : c < p.next) : (p.table t).get? c = p.channels.get? c := by
  have hnew : (t.entries.map fun e => (p.next + e.1, e.2)).find? (fun e => e.1 = c) = none := by
    refine List.find?_eq_none.2 fun e he heq => ?_
    obtain ⟨e', -, rfl⟩ := List.mem_map.1 he
    exact (Nat.lt_of_lt_of_le hc (Nat.le_add_right _ _)).ne' (of_decide_eq_true heq)
  rw [Table.get?, table, List.find?_append, hnew, Option.or_none, Table.get?]

theorem insertRow_append_left {k : Nat} (v : Channel) {l : List (Nat × Channel)}
    (hk : k ∈ l.map (·.1)) (l' : List (Nat × Channel)) :
    Table.insertRow k v (l ++ l') = Table.insertRow k v l ++ l' := by
  induction l with
  | nil => cases hk
  | cons e rest ih =>
    obtain ⟨k', v'⟩ := e
    rw [List.cons_append, Table.insertRow, Table.insertRow]
    split
    · rfl
    · rename_i hne
      rw [ih ((List.mem_cons.1 hk).resolve_left (Ne.symm hne)), List.cons_append]

theorem modify_table_old {c : Nat} (hc : c < p.next) (f : Channel → Channel) :
    ((p.table t).modify c f).entries =
      (p.channels.modify c f).entries ++ t.entries.map fun e => (p.next + e.1, e.2) := by
  refine List.map_append.trans (congrArg _ ((List.map_congr_left fun e he => if_neg ?_).trans
    (List.map_id _)))
  obtain ⟨e', -, rfl⟩ := List.mem_map.1 he
  exact (Nat.lt_of_lt_of_le hc (Nat.le_add_right _ _)).ne'

/-- The same past, but for what came of its results. -/
def revise (p : Past σ) (channels : Table Nat Channel) (hk : channels.keys = p.channels.keys) :
    Past σ :=
  { p with channels := channels, channels_lt := hk ▸ p.channels_lt }

/-- What comes late of a result is a matter of the past. -/
theorem exists_catchUp (p : Past σ) (w : World σ) (c : Nat) (d : Option Delivery) :
    ∃ q : Past σ, q.next = p.next ∧ q.host = p.host ∧ q.stale = p.stale ∧
      (w.upon p).catchUp p.next c d = w.upon q := by
  by_cases hc : c < p.next
  · unfold World.catchUp
    rw [if_pos hc]
    cases d with
    | none =>
      have hkeys : (p.channels.modify c Channel.dropResolver).keys = p.channels.keys :=
        Book.keys_modify ..
      exact ⟨p.revise _ hkeys, rfl, rfl, rfl, congrArg (fun t => { w.upon p with channels := t })
        (Table.eq_of_entries (modify_table_old hc Channel.dropResolver))⟩
    | some d =>
      have hget : (w.upon p).channels.get? c = p.channels.get? c := get?_table_old hc
      simp only
      unfold World.deliver
      rw [hget]
      cases hold : p.channels.get? c with
      | none => exact ⟨p, rfl, rfl, rfl, rfl⟩
      | some old =>
        have hmem : c ∈ p.channels.keys := (Table.mem_keys_iff _ _).2 (by rw [hold]; rfl)
        have hkeys : ∀ new, (p.channels.insert c new).keys = p.channels.keys := fun new => by
          rw [Table.keys_insert, if_pos hmem]
        exact ⟨p.revise _ (hkeys _), rfl, rfl, rfl,
          congrArg (fun t => { w.upon p with channels := t })
            (Table.eq_of_entries (insertRow_append_left _ hmem _))⟩
  · refine ⟨p, rfl, rfl, rfl, ?_⟩
    unfold World.catchUp
    rw [if_neg hc]

end Past

/-! ### Cues -/

namespace World

variable {σ : Type} (p : Past σ) (w : World σ)

theorem upon_hold (c : Nat) : (w.upon p).hold (p.next + c) = (w.hold c).upon p := by
  have hheld : (p.held ++ w.held.map (p.next + ·)) ++ [p.next + c] =
      p.held ++ (w.held ++ [c]).map (p.next + ·) := by
    rw [List.map_append, List.append_assoc]
    rfl
  exact congrArg (fun l => { w.upon p with held := l }) hheld

theorem upon_release (c : Nat) : (w.upon p).release (p.next + c) = (w.release c).upon p := by
  have hold : p.held.filter (· ≠ p.next + c) = p.held := List.filter_eq_self.2 fun k hk =>
    decide_eq_true (Nat.lt_of_lt_of_le (p.held_lt k hk) (Nat.le_add_right _ _)).ne
  have hnew : (w.held.map (p.next + ·)).filter (· ≠ p.next + c) =
      (w.held.filter (· ≠ c)).map (p.next + ·) := by
    rw [List.filter_map]
    refine congrArg _ (List.filter_congr fun k _ => ?_)
    simp only [Function.comp_apply, ne_eq, Nat.add_left_cancel_iff]
  have hheld : (p.held ++ w.held.map (p.next + ·)).filter (· ≠ p.next + c) =
      p.held ++ (w.held.filter (· ≠ c)).map (p.next + ·) := by
    rw [List.filter_append, hold, hnew]
  exact congrArg (fun l => { w.upon p with held := l }) hheld

theorem upon_editGraph (actor : ActorId) (f : Graph → Graph) :
    (w.upon p).editGraph actor f = (w.editGraph actor f).upon p := by
  have hactor : (w.upon p).actor? actor = w.actor? actor := rfl
  unfold editGraph
  rw [hactor]
  cases w.actor? actor <;> rfl

theorem upon_addStage (name : String) (g : Graph) : (w.upon p).addStage name g =
    ((w.addStage name g).1.upon p, (w.addStage name g).2) := by
  have hadd : (w.upon p).addActor name g true =
      ((w.addActor name g true).1.upon p, (w.addActor name g true).2) := rfl
  unfold addStage
  rw [hadd]
  have hstage : ((w.addActor name g true).1.upon p).stage = (w.addActor name g true).1.stage := rfl
  simp only [hstage]
  cases (w.addActor name g true).1.stage <;> rfl

theorem upon_loadActors (saved : List SavedActor) : ∀ w : World σ,
    (w.upon p).loadActors saved =
      ((w.loadActors saved).1.upon p, (w.loadActors saved).2) := by
  induction saved with
  | nil => exact fun _ => rfl
  | cons a rest ih =>
    intro w
    have hload : (w.upon p).loadActor a = ((w.loadActor a).1.upon p, (w.loadActor a).2) := by
      unfold loadActor
      simp only
      split
      · rw [upon_addStage]
        rfl
      · rfl
    simp only [loadActors, hload, ih]

theorem upon_load (saved : SavedProject) : (w.upon p).load saved =
    ((w.load saved).1.upon p, (w.load saved).2) := by
  unfold load
  cases saved.problems with
  | nil => exact upon_loadActors p _ w
  | cons problem rest => exact upon_loadActors p _ (w.notify _)

theorem upon_postCloud (name : String) (v : Value) :
    (w.upon p).postCloud name v = (w.postCloud name v).upon p := by
  have hstage : (w.upon p).stage? = w.stage? := rfl
  unfold postCloud
  rw [hstage]
  cases w.stage? with
  | none => rfl
  | some stage =>
    simp only
    cases stage.variableByName? name .scalar with
    | none => rfl
    | some shared =>
      simp only
      split <;> rfl

/-- **A call does the same behind a past**, and is answered the same. -/
theorem upon_call {c : Call} (hstep : ∀ fuel, c ≠ .step fuel) :
    c.apply (w.upon p) = (c.apply w).map (·.upon p) ∧ c.reply (w.upon p) = c.reply w := by
  have hboth : ∀ {α : Type} {r r' : World σ × α} (answer : α → Answer),
      r' = (r.1.upon p, r.2) →
        some r'.1 = (some r.1).map (·.upon p) ∧ answer r'.2 = answer r.2 := by
    rintro _ _ _ _ rfl
    exact ⟨rfl, rfl⟩
  cases c with
  | addSprite name g => exact ⟨rfl, rfl⟩
  | addStage name g => exact hboth (Answer.actor ∘ some) (upon_addStage p w name g)
  | load saved => exact hboth .actors (upon_load p w saved)
  | loadStrict saved =>
    simp only [Call.apply, Call.reply, loadStrict]
    cases saved.problems with
    | nil => exact hboth .actors (upon_loadActors p saved.targets w)
    | cons problem rest => exact ⟨rfl, rfl⟩
  | greenFlag => exact hboth .threads (upon_greenFlag p w)
  | broadcast message => exact hboth .threads (upon_raise p w (.broadcast message))
  | clickActor actor => exact hboth .threads (upon_raise p w (.clicked actor))
  | queueEvent | postKey | postMouse | postPause | postUser | clock => exact ⟨rfl, rfl⟩
  | postCloud name v => exact ⟨congrArg some (upon_postCloud p w name v), rfl⟩
  | answer text => exact hboth .flag (upon_answerQuestion p w text)
  | toggleScript actor top => exact hboth .thread (upon_toggleScript p w actor top)
  | createClone source => exact hboth .actor (upon_createClone p w source)
  | deleteClone id => exact hboth .flag (upon_deleteClone p w id)
  | stopAll => exact ⟨congrArg some (upon_stopAll p w), rfl⟩
  | step fuel => exact absurd rfl (hstep fuel)

/-- **A cue does the same behind a past**, which then is the past of what becomes of the world, and
is answered the same. -/
theorem upon_perform {names : Nat → σ → σ} {c : Cue σ} (hc : c.Heeds names)
    (hhost : p.host = names p.next)
    (hstale : ∀ id, p.stale = some id → ∀ t ∈ w.threads, t.id ≠ id) :
    ∃ q : Past σ, q.next = p.next ∧ q.host = p.host ∧ (q.stale = p.stale ∨ q.stale = none) ∧
      (w.upon p).perform p.next c = (w.perform 0 c).map fun r => (r.1.upon q, r.2) := by
  have hsame : ∀ {r : World σ} {answer : Answer},
      (w.upon p).perform p.next c = some (r.upon p, answer) → w.perform 0 c = some (r, answer) →
        ∃ q : Past σ, q.next = p.next ∧ q.host = p.host ∧ (q.stale = p.stale ∨ q.stale = none) ∧
          (w.upon p).perform p.next c = (w.perform 0 c).map fun r => (r.1.upon q, r.2) :=
    fun h h' => ⟨p, rfl, rfl, .inl rfl, by rw [h, h', Option.map_some]⟩
  have hnumber : ∀ n, p.next + n - p.next = n := Nat.add_sub_cancel_left p.next
  cases c with
  | call c =>
    by_cases hs : ∃ fuel, c = .step fuel
    · obtain ⟨fuel, rfl⟩ := hs
      have h := upon_step p (portable_empty p.settled) fuel w hstale
      refine ⟨p.settled, rfl, rfl, .inr rfl, ?_⟩
      simp only [perform, Call.apply, Call.reply, h, Option.map_map]
      cases w.step .empty fuel <;> rfl
    · obtain ⟨happly, hreply⟩ := upon_call p w (c := c) fun fuel heq => hs ⟨fuel, heq⟩
      refine ⟨p, rfl, rfl, .inl rfl, ?_⟩
      simp only [perform, happly, hreply, Option.map_map]
      rfl
  | modifyActor | configure | requestRedraw | connect | requestCloud | takeFaults | takeReports =>
    exact hsame rfl rfl
  | startHats | pushThread | stopActor | editGraph | lookupVariable =>
    refine hsame ?_ rfl
    simp only [perform, upon_startHats, upon_pushThread, upon_stopActor, upon_editGraph,
      upon_lookupVariable]
  | ask | openChannel =>
    refine hsame ?_ rfl
    simp only [perform, upon_ask, upon_openChannel, hnumber]
    rfl
  | deliver | dropResolver | poll | hold | release =>
    refine hsame ?_ rfl
    simp only [perform, upon_deliver, upon_dropResolver, upon_poll, upon_hold, upon_release,
      Nat.zero_add]
  | late c d =>
    obtain ⟨q, hn, hh, hs, he⟩ := p.exists_catchUp w c d
    refine ⟨q, hn, hh, .inl hs, ?_⟩
    have hnone : w.catchUp 0 c d = w := if_neg (Nat.not_lt_zero c)
    rw [perform, perform, he, hnone, Option.map_some]
  | step ext fuel =>
    have h := upon_step p (hc.2 p.settled rfl hhost) fuel w hstale
    refine ⟨p.settled, rfl, rfl, .inr rfl, ?_⟩
    simp only [perform, h, Option.map_map]
    rfl

/-- Cues start threads with new ids only. -/
theorem follows_of_perform {names : Nat → σ → σ} {c : Cue σ} (hc : c.Heeds names) (hw : w.Settled)
    {base : Nat} {r : World σ × Answer} (h : w.perform base c = some r) : Follows w r.1 := by
  have htend : ∀ {w' : World σ}, w'.scheduler = w.scheduler → w'.nextThread = w.nextThread →
      w'.threads = w.threads → w'.spawned = w.spawned → Follows w w' :=
    fun hk hn ht hs => (Deed.tend hk hn ht hs).conserves.follows hw
  have hdeliver : ∀ c d, Follows w (w.deliver c d).1 := by
    intro c d
    unfold deliver
    split <;> exact htend rfl rfl rfl rfl
  cases c with
  | call c =>
    obtain ⟨w', hc, rfl⟩ := Option.map_eq_some_iff.1 h
    by_cases hs : ∃ fuel, c = .step fuel
    · obtain ⟨fuel, rfl⟩ := hs
      obtain ⟨⟨w₁, ended⟩, hstep, rfl⟩ := Option.map_eq_some_iff.1 hc
      exact follows_of_step orderly_empty hw hstep
    · exact (gesture_of_apply (fun fuel heq => hs ⟨fuel, heq⟩) hc).deed.conserves.follows hw
  | step ext fuel =>
    obtain ⟨⟨w', ended⟩, hstep, rfl⟩ := Option.map_eq_some_iff.1 h
    exact follows_of_step hc.1 hw hstep
  | startHats hat fields only =>
    obtain rfl := Option.some.inj h
    exact (Deed.startHats w hat fields only).conserves.follows hw
  | pushThread actor top =>
    obtain rfl := Option.some.inj h
    exact (Deed.pushThread w actor top).conserves.follows hw
  | stopActor actor keep =>
    obtain rfl := Option.some.inj h
    exact (Deed.stopActor w actor keep).conserves.follows hw
  | modifyActor | configure | requestRedraw | connect | requestCloud | takeFaults | takeReports
  | ask | openChannel | dropResolver | hold | release =>
    obtain rfl := Option.some.inj h
    exact htend rfl rfl rfl rfl
  | editGraph actor f =>
    obtain rfl := Option.some.inj h
    unfold editGraph
    split <;> exact htend rfl rfl rfl rfl
  | lookupVariable actor id name kind =>
    obtain rfl := Option.some.inj h
    unfold lookupVariable
    split
    · exact htend rfl rfl rfl rfl
    · split <;> exact htend rfl rfl rfl rfl
  | deliver c d =>
    obtain rfl := Option.some.inj h
    exact hdeliver _ d
  | poll c =>
    obtain rfl := Option.some.inj h
    unfold poll
    split <;> exact htend rfl rfl rfl rfl
  | late c d =>
    obtain rfl := Option.some.inj h
    unfold catchUp
    split
    · cases d with
      | none => exact htend rfl rfl rfl rfl
      | some d => exact hdeliver c d
    · exact htend rfl rfl rfl rfl

end World

/-! ### One cue after the other -/

/-- The thread at which a pass was cut short is gone. -/
def Past.Over {σ : Type} (p : Past σ) (w : World σ) : Prop :=
  ∀ id, p.stale = some id → id < w.nextThread ∧ id ∉ w.ids

theorem Past.Over.follows {σ : Type} {p q : Past σ} {w w' : World σ} (h : p.Over w)
    (hf : World.Follows w w') (hq : q.stale = p.stale ∨ q.stale = none) : q.Over w' := by
  intro id hid
  rcases hq with hq | hq
  · obtain ⟨hlt, hgone⟩ := h id (hq.symm.trans hid)
    refine ⟨Nat.lt_of_lt_of_le hlt hf.next_le, fun hmem => ?_⟩
    obtain ⟨kept, new, hids, hkept, -, hnew⟩ := hf.threads
    rw [World.ids, hids] at hmem
    rcases List.mem_append.1 hmem with hmem | hmem
    · exact hgone (hkept.subset hmem)
    · exact absurd hlt (Nat.not_lt.2 (hnew id hmem))
  · rw [hq] at hid
    cases hid

namespace World

variable {σ : Type} {names : Nat → σ → σ}

/-- **The same cues get the same answers behind a past**, by induction on the cues. -/
theorem upon_performAll {cues : List (Cue σ)} (hcues : ∀ c ∈ cues, c.Heeds names) :
    ∀ {p : Past σ} {w : World σ}, w.Settled → p.Over w → p.host = names p.next →
      ∃ q : Past σ, q.next = p.next ∧ q.host = p.host ∧
        (performAll p.next cues (w.upon p) =
          (performAll 0 cues w).map fun r => (r.1.upon q, r.2)) ∧
        ∀ r, performAll 0 cues w = some r → q.Over r.1 := by
  induction cues with
  | nil =>
    intro p w _ hover _
    refine ⟨p, rfl, rfl, rfl, fun r hr => ?_⟩
    obtain rfl := Option.some.inj hr
    exact hover
  | cons c rest ih =>
    intro p w hw hover hhost
    have hc := hcues c List.mem_cons_self
    have hgone : ∀ id, p.stale = some id → ∀ t ∈ w.threads, t.id ≠ id := by
      rintro id hid t ht rfl
      exact (hover t.id hid).2 (List.mem_map_of_mem ht)
    obtain ⟨q, hnext, hqhost, hstale, he⟩ := upon_perform p w hc hhost hgone
    rw [performAll, performAll, he]
    cases hr : w.perform 0 c with
    | none => exact ⟨q, hnext, hqhost, rfl, fun r h => by cases h⟩
    | some r =>
      have hfollows := follows_of_perform w hc hw hr
      obtain ⟨q', hnext', hqhost', he', hover'⟩ := ih
        (fun c hc => hcues c (List.mem_cons_of_mem _ hc)) hfollows.settled
        (hover.follows hfollows hstale) (hqhost.trans (hhost.trans (congrArg names hnext.symm)))
      refine ⟨q', hnext'.trans hnext, hqhost'.trans hqhost, ?_, fun r' hr' => ?_⟩
      · rw [Option.map_some, Option.bind_some, Option.bind_some, ← hnext, he', Option.map_map,
          Option.map_map]
        rfl
      · obtain ⟨r₁, hr₁, rfl⟩ := Option.map_eq_some_iff.1 hr'
        exact hover' r₁ hr₁

/-! ### Worlds that nobody can tell apart -/

end World

/-- The rows from a number on, counted from there. -/
def Table.since (base : Nat) (t : Table Nat Channel) : Table Nat Channel where
  entries := (t.entries.filter fun e => base ≤ e.1).map fun e => (e.1 - base, e.2)
  nodup := by
    rw [List.map_map]
    refine List.pairwise_map.2 (((List.pairwise_map.1 t.nodup).filter _).imp_of_mem ?_)
    intro e e' he he' hne heq
    have hle := of_decide_eq_true (List.mem_filter.1 he).2
    have hle' := of_decide_eq_true (List.mem_filter.1 he').2
    exact hne (by simp only [Function.comp_apply] at heq; omega)

/-- What a thread is parked on, counted from a number on. -/
def Thread.since (base : Nat) (t : Thread) : Thread :=
  { t with pending := t.pending.map fun q => { q with channel := q.channel - base } }

namespace World

variable {σ : Type} {names : Nat → σ → σ}

/-- What is to be seen of a world: results go by how many there were since a first one, the earlier
ones are left out, and a thread that is gone is none to go on with. -/
def sight (base : Nat) (w : World σ) : World Unit :=
  { w with
    threads := w.threads.map (·.since base)
    spawned := w.spawned.map (·.since base)
    scheduler := w.scheduler.map fun k => { k with resumeAt := k.resumeAt.filter (· ∈ w.ids) }
    prompts := w.prompts.map fun q => { q with channel := q.channel - base }
    channels := w.channels.since base
    held := (w.held.filter (base ≤ ·)).map (· - base)
    nextChannel := w.nextChannel - base
    host := () }

/-- Two worlds that look the same, each with its own number for the first result. -/
structure Alike (names : Nat → σ → σ) (base base' : Nat) (w w' : World σ) : Prop where
  sight : w.sight base = w'.sight base'
  host : ∃ h, w.host = names base h ∧ w'.host = names base' h

theorem since_table (p : Past σ) (t : Table Nat Channel) :
    (p.table t).since p.next = t.since 0 := by
  have hold : p.channels.entries.filter (fun e => p.next ≤ e.1) = [] :=
    List.filter_eq_nil_iff.2 fun e he hle =>
      Nat.not_lt.2 (of_decide_eq_true hle) (p.channels_lt e.1 (List.mem_map_of_mem he))
  refine Table.eq_of_entries ?_
  simp only [Table.since, Past.table, List.filter_append, hold, List.nil_append, List.filter_map,
    List.map_map, Nat.zero_le, decide_true, List.filter_true]
  refine (congrArg (List.map _) (List.filter_eq_self.2 fun e _ => ?_)).trans
    (List.map_congr_left fun e _ => ?_)
  · exact decide_eq_true (Nat.le_add_right p.next e.1)
  · simp only [Function.comp_apply, Nat.add_sub_cancel_left, Nat.sub_zero]

theorem sight_upon {p : Past σ} {w : World σ} (h : p.Over w) :
    (w.upon p).sight p.next = w.sight 0 := by
  have hnumber : ∀ n, p.next + n - p.next = n := Nat.add_sub_cancel_left p.next
  have hthreads : ∀ l : List Thread,
      (l.map (·.upon p.next)).map (·.since p.next) = l.map (·.since 0) := by
    intro l
    rw [List.map_map]
    refine List.map_congr_left fun t _ => ?_
    simp only [Function.comp_apply, Thread.since, Thread.upon, Option.map_map]
    refine congrArg (fun q => { t with pending := q }) (congrArg (Option.map · t.pending) ?_)
    funext q
    simp only [Function.comp_apply, Pending.upon, hnumber, Nat.sub_zero]
  have hids : (w.upon p).ids = w.ids := by
    simp only [ids, upon, List.map_map]
    rfl
  have hresume : ∀ k : Scheduler,
      (k.upon p.stale).resumeAt.filter (· ∈ w.ids) = k.resumeAt.filter (· ∈ w.ids) := by
    intro k
    cases hk : k.resumeAt with
    | some id => rw [Scheduler.upon, hk, Option.some_or]
    | none =>
      rw [Scheduler.upon, hk, Option.none_or]
      cases hs : p.stale with
      | none => rfl
      | some id => exact Option.filter_some_neg (by simpa using (h id hs).2)
  have hscheduler : (w.scheduler.map (·.upon p.stale)).map (fun k =>
      { k with resumeAt := k.resumeAt.filter (· ∈ w.ids) }) =
        w.scheduler.map fun k => { k with resumeAt := k.resumeAt.filter (· ∈ w.ids) } := by
    rw [Option.map_map]
    exact congrArg (Option.map · _) (funext fun k =>
      congrArg (fun r => { k with resumeAt := r }) (hresume k))
  have hprompts : (w.prompts.map (·.upon p.next)).map (fun q =>
      { q with channel := q.channel - p.next }) =
        w.prompts.map fun q => { q with channel := q.channel - 0 } := by
    rw [List.map_map]
    refine List.map_congr_left fun q _ => ?_
    simp only [Function.comp_apply, Prompt.upon, hnumber, Nat.sub_zero]
  have hheld : ((p.held ++ w.held.map (p.next + ·)).filter (p.next ≤ ·)).map (· - p.next) =
      (w.held.filter (0 ≤ ·)).map (· - 0) := by
    have hold : p.held.filter (p.next ≤ ·) = [] := List.filter_eq_nil_iff.2 fun c hc hle =>
      Nat.not_lt.2 (of_decide_eq_true hle) (p.held_lt c hc)
    have hnew : (w.held.map (p.next + ·)).filter (p.next ≤ ·) = w.held.map (p.next + ·) :=
      List.filter_eq_self.2 fun c hc => by
        obtain ⟨k, -, rfl⟩ := List.mem_map.1 hc
        exact decide_eq_true (Nat.le_add_right p.next k)
    rw [List.filter_append, hold, List.nil_append, hnew, List.map_map]
    simp [Function.comp_def]
  unfold sight
  rw [hids]
  simp only [upon, hthreads, hscheduler, hprompts, hheld, since_table, hnumber, Nat.sub_zero]

theorem alike_upon {p p' : Past σ} {w : World σ} (h : p.Over w) (h' : p'.Over w)
    (hhost : p.host = names p.next) (hhost' : p'.host = names p'.next) :
    Alike names p.next p'.next (w.upon p) (w.upon p') where
  sight := (sight_upon h).trans (sight_upon h').symm
  host := ⟨w.host, congrFun hhost w.host, congrFun hhost' w.host⟩

/-- **Worlds that only differ in their past stay alike**, and the host is answered the same. -/
theorem alike_performAll {cues : List (Cue σ)} (hcues : ∀ c ∈ cues, c.Heeds names)
    {p p' : Past σ} {w : World σ} (hw : w.Settled) (h : p.Over w) (h' : p'.Over w)
    (hhost : p.host = names p.next) (hhost' : p'.host = names p'.next) :
    Option.Rel (fun r r' => r.2 = r'.2 ∧ Alike names p.next p'.next r.1 r'.1)
      (performAll p.next cues (w.upon p)) (performAll p'.next cues (w.upon p')) := by
  obtain ⟨q, hnext, hqhost, he, hover⟩ := upon_performAll hcues hw h hhost
  obtain ⟨q', hnext', hqhost', he', hover'⟩ := upon_performAll hcues hw h' hhost'
  rw [he, he', ← hnext, ← hnext']
  cases hr : performAll 0 cues w with
  | none => exact .none
  | some r =>
    exact .some ⟨rfl, alike_upon (hover r hr) (hover' r hr)
      (hqhost.trans (hhost.trans (congrArg names hnext.symm)))
      (hqhost'.trans (hhost'.trans (congrArg names hnext'.symm)))⟩

end World

end Stagecraft
