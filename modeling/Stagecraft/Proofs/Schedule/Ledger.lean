import Stagecraft.Proofs.Schedule.Makeup
import Stagecraft.Proofs.Schedule.Waiting

/-!
# Who awaits a result

A result that comes later is awaited by the thread that is parked on its channel, or by the host,
which may hand it on to a thread. Whoever gives a result away does not await it any more, so what a
thread no longer awaits is not awaited again, and delivering it is refused.

* `Ledger` : the channels that were given out, and who awaits them;
* `Ledger.Passes` : **a thread begins to await only what is new or what the host hands on**;
* `Ledger.Passes.forsakes` : what a thread does not await any more, it does not await again;
* `World.refuses_of_forsakes` : **a result that nobody awaits is refused**;
* `World.FairDeed.passes` : what a host does keeps to the ledger.
-/

namespace Stagecraft

/-- The channel of the result that a thread is parked on. -/
def Thread.channel? (t : Thread) : Option Nat := t.pending.map (·.channel)

/-! ### The ledger -/

/-- The channels that were given out, and who awaits them. -/
structure Ledger where
  /-- The channel that is given out next. -/
  next : Nat
  /-- What the host awaits. -/
  held : List Nat
  /-- The threads, of which those that are parked await something. -/
  threads : List Thread

namespace Ledger

variable {L L' L'' : Ledger} {c : Nat} {id : ThreadId}

/-- Only what was given out is awaited, and by one only. -/
structure Sound (L : Ledger) : Prop where
  held : ∀ c ∈ L.held, c < L.next
  threads : ∀ t ∈ L.threads, ∀ c, t.channel? = some c → c < L.next ∧ c ∉ L.held
  once : ∀ t ∈ L.threads, ∀ u ∈ L.threads, ∀ c,
    t.channel? = some c → u.channel? = some c → t.id = u.id

/-- A channel was given out, and nobody awaits its result. -/
structure Unclaimed (L : Ledger) (c : Nat) : Prop where
  lt : c < L.next
  held : c ∉ L.held
  threads : ∀ t ∈ L.threads, t.channel? ≠ some c

/-- Nobody but one thread awaits a result. -/
structure Sole (L : Ledger) (c : Nat) (id : ThreadId) : Prop where
  lt : c < L.next
  held : c ∉ L.held
  threads : ∀ t ∈ L.threads, t.channel? = some c → t.id = id

/-- A thread does not await a result. -/
def Forsakes (L : Ledger) (c : Nat) (id : ThreadId) : Prop :=
  ∀ t ∈ L.threads, t.id = id → t.channel? ≠ some c

/-- The host can hand on a result: it awaits the result itself, or the channel is new. -/
def Offers (L L' : Ledger) (c : Nat) : Prop := c ∈ L.held ∨ L.next ≤ c ∧ c < L'.next

/-- A thread begins to await only what the host hands on, and so does the host. -/
structure Passes (L L' : Ledger) : Prop where
  next_le : L.next ≤ L'.next
  held : ∀ c ∈ L'.held, L.Offers L' c
  threads : ∀ t' ∈ L'.threads, ∀ c, t'.channel? = some c →
    (∃ t ∈ L.threads, t.id = t'.id ∧ t.channel? = some c) ∨ L.Offers L' c
  sound : L.Sound → L'.Sound

/-- A thread that awaits a result is the only one. -/
theorem Sound.sole (h : L.Sound) {t : Thread} (ht : t ∈ L.threads) (hc : t.channel? = some c) :
    L.Sole c t.id :=
  ⟨(h.threads t ht c hc).1, (h.threads t ht c hc).2, fun u hu huc => h.once u hu t ht c huc hc⟩

theorem Offers.mono (h : L.Offers L' c) (hn : L'.next ≤ L''.next) : L.Offers L'' c :=
  h.imp_right fun hc => ⟨hc.1, Nat.lt_of_lt_of_le hc.2 hn⟩

theorem Sole.not_offers (h : L.Sole c id) : ¬ L.Offers L' c := fun ho =>
  ho.elim h.held fun hc => absurd h.lt (Nat.not_lt.2 hc.1)

namespace Passes

/-- What is handed on later could be handed on before, or it is new. -/
theorem offers (h : L.Passes L') (hn : L'.next ≤ L''.next) (ho : L'.Offers L'' c) :
    L.Offers L'' c := by
  rcases ho with hc | hc
  · exact (h.held c hc).mono hn
  · exact .inr ⟨Nat.le_trans h.next_le hc.1, hc.2⟩

theorem trans (h : L.Passes L') (h' : L'.Passes L'') : L.Passes L'' := by
  refine ⟨Nat.le_trans h.next_le h'.next_le, fun c hc => h.offers h'.next_le (h'.held c hc),
    fun t ht c hc => ?_, fun hs => h'.sound (h.sound hs)⟩
  rcases h'.threads t ht c hc with ⟨t', ht', hid, hc'⟩ | ho
  · rw [← hid]
    exact (h.threads t' ht' c hc').imp_right fun ho => ho.mono h'.next_le
  · exact .inr (h.offers h'.next_le ho)

/-- No thread begins to await anything. -/
theorem of_kept (hn : L.next ≤ L'.next) (hh : ∀ c ∈ L'.held, L.Offers L' c)
    (ht : ∀ t' ∈ L'.threads, ∀ c, t'.channel? = some c →
      ∃ t ∈ L.threads, t.id = t'.id ∧ t.channel? = some c) : L.Passes L' := by
  refine ⟨hn, hh, fun t' ht' c hc => .inl (ht t' ht' c hc), fun hs => ⟨fun c hc => ?_,
    fun t' ht' c hc => ?_, fun t' ht' u' hu' c htc huc => ?_⟩⟩
  · rcases hh c hc with hc | hc
    · exact Nat.lt_of_lt_of_le (hs.held c hc) hn
    · exact hc.2
  · obtain ⟨t, hmem, -, hc'⟩ := ht t' ht' c hc
    have hsole := hs.sole hmem hc'
    exact ⟨Nat.lt_of_lt_of_le hsole.lt hn, fun hheld => hsole.not_offers (hh c hheld)⟩
  · obtain ⟨t, hmem, hid, hc⟩ := ht t' ht' c htc
    obtain ⟨u, hmem', hid', hc'⟩ := ht u' hu' c huc
    exact hid.symm.trans ((hs.once t hmem u hmem' c hc hc').trans hid')

/-- Some threads are left out, or have stopped waiting. -/
theorem of_threads (hn : L'.next = L.next) (hh : L'.held = L.held)
    (h : ∀ t' ∈ L'.threads, t'.channel? = none ∨
      ∃ t ∈ L.threads, t.id = t'.id ∧ t.channel? = t'.channel?) : L.Passes L' := by
  refine .of_kept (Nat.le_of_eq hn.symm) (fun c hc => .inl (hh ▸ hc)) fun t' ht' c hc => ?_
  rcases h t' ht' with hnone | ⟨t, ht, hid, he⟩
  · cases hnone.symm.trans hc
  · exact ⟨t, ht, hid, he.trans hc⟩

theorem refl (L : Ledger) : L.Passes L :=
  .of_threads rfl rfl fun t ht => .inr ⟨t, ht, rfl, rfl⟩

/-- A result stays with the one that awaits it. -/
theorem sole (h : L.Passes L') (hL : L.Sole c id) : L'.Sole c id := by
  refine ⟨Nat.lt_of_lt_of_le hL.lt h.next_le, fun hc => hL.not_offers (h.held c hc),
    fun t ht hc => ?_⟩
  rcases h.threads t ht c hc with ⟨t', ht', hid, hc'⟩ | ho
  · exact hid ▸ hL.threads t' ht' hc'
  · exact absurd ho hL.not_offers

/-- **What a thread does not await any more, it does not await again.** -/
theorem forsakes (h : L.Passes L') {id' : ThreadId} (hsole : L.Sole c id')
    (hL : L.Forsakes c id) : L'.Forsakes c id := by
  intro t ht hid hc
  rcases h.threads t ht c hc with ⟨t', ht', hid', hc'⟩ | ho
  · exact hL t' ht' (hid'.trans hid) hc'
  · exact hsole.not_offers ho

end Passes

end Ledger

namespace World

variable {σ : Type} {w w' w'' : World σ} {c : Nat} {id : ThreadId}

/-- The ledger of a world. -/
def ledger (w : World σ) : Ledger := ⟨w.nextChannel, w.held, w.threads ++ w.spawned⟩

/-- In a blank world nothing is awaited. -/
theorem sound_blank (settings : Settings) (host : σ) (dice : Nat → Nat) :
    (blank settings host dice).ledger.Sound :=
  ⟨fun _ hc => (by cases hc), fun _ ht => (by cases ht), fun _ ht => by cases ht⟩

/-- Delivering the result of a channel is refused, and changes no thread. -/
def Refuses (w : World σ) (c : Nat) : Prop :=
  ∀ d, (w.deliver c d).2 = false ∧ (w.deliver c d).1.threads = w.threads ∧
    (w.deliver c d).1.spawned = w.spawned

/-- **A result that nobody awaits is refused.** -/
theorem refuses_of_forsakes {L : Ledger} (hh : L.held = w.held)
    (ht : w.threads ++ w.spawned ⊆ L.threads) (hsole : L.Sole c id) (h : L.Forsakes c id) :
    w.Refuses c := by
  have hawaited : w.isAwaited c = false := by
    rw [isAwaited, Bool.or_eq_false_iff]
    refine ⟨List.any_eq_false.2 fun t hmem hp => ?_, by simpa [← hh] using hsole.held⟩
    have hc : t.channel? = some c := by simpa [parkedOn, Thread.channel?] using hp
    exact h t (ht hmem) (hsole.threads t (ht hmem) hc) hc
  intro d
  unfold deliver
  split
  · rw [hawaited]
    exact ⟨rfl, rfl, rfl⟩
  · exact ⟨rfl, rfl, rfl⟩

/-! ### What is done to worlds -/

/-- The host begins to await only what is new. -/
structure Gives (w w' : World σ) : Prop where
  next_le : w.nextChannel ≤ w'.nextChannel
  held : ∀ c ∈ w'.held, c ∈ w.held ∨ w.nextChannel ≤ c ∧ c < w'.nextChannel

theorem SameHost.gives (h : SameHost w w') : Gives w w' :=
  ⟨h.next_le, fun _ hc => .inl (h.held ▸ hc)⟩

namespace SameHost

theorem of_eq (hn : w'.nextChannel = w.nextChannel) (hh : w'.held = w.held) : SameHost w w' :=
  ⟨Nat.le_of_eq hn.symm, hh⟩

theorem refl (w : World σ) : SameHost w w := .of_eq rfl rfl

theorem trans (h : SameHost w w') (h' : SameHost w' w'') : SameHost w w'' :=
  ⟨Nat.le_trans h.next_le h'.next_le, h'.held.trans h.held⟩

end SameHost

namespace SameMail

theorem refl (w : World σ) : SameMail w w := ⟨rfl, rfl, rfl, rfl⟩

theorem trans (h : SameMail w w') (h' : SameMail w' w'') : SameMail w w'' :=
  ⟨h'.nextChannel.trans h.nextChannel, h'.held.trans h.held, h'.channels.trans h.channels,
    h'.prompts.trans h.prompts⟩

end SameMail

theorem sameMail_pushThread (w : World σ) (actor : ActorId) (top : Handle) :
    SameMail w (w.pushThread actor top).1 := by
  unfold pushThread
  simp only
  split <;> exact ⟨rfl, rfl, rfl, rfl⟩

theorem sameMail_modifyRunning (w : World σ) (actor : ActorId) (top : Handle)
    (f : Thread → Thread) : SameMail w (w.modifyRunning actor top f) := by
  unfold modifyRunning
  split <;> exact ⟨rfl, rfl, rfl, rfl⟩

theorem sameMail_startScript (w : World σ) (restarts : Bool) (actor : ActorId) (top : Handle) :
    SameMail w (w.startScript restarts actor top).1 := by
  unfold startScript
  split
  · exact ⟨rfl, rfl, rfl, rfl⟩
  · split
    · split
      · exact sameMail_modifyRunning w _ _ _
      · exact .refl w
    · exact sameMail_pushThread w actor top

theorem sameMail_startScripts (restarts : Bool) (scripts : List (ActorId × Handle)) :
    ∀ w : World σ, SameMail w (startScripts restarts scripts w).1 := by
  induction scripts with
  | nil => exact .refl
  | cons script rest ih =>
    intro w
    rw [startScripts]
    exact (sameMail_startScript w restarts script.1 script.2).trans (ih _)

theorem sameMail_startHats (w : World σ) (hat : Opcode) (fields : List (String × String))
    (only : Option ActorId) : SameMail w (w.startHats hat fields only).1 := by
  unfold startHats
  split
  · exact ⟨rfl, rfl, rfl, rfl⟩
  · exact sameMail_startScripts _ _ w

theorem sameMail_dropFinished (w : World σ) : SameMail w w.dropFinished := by
  unfold dropFinished
  split <;> exact ⟨rfl, rfl, rfl, rfl⟩

theorem sameMail_toggleScript (w : World σ) (actor : ActorId) (top : Handle) :
    SameMail w (w.toggleScript actor top).1 := by
  unfold toggleScript
  split
  · exact (sameMail_modifyRunning w _ _ _).trans (sameMail_dropFinished _)
  · exact (sameMail_pushThread w actor top).trans ⟨rfl, rfl, rfl, rfl⟩

theorem sameMail_stopActor (w : World σ) (actor : ActorId) (keep : Option ThreadId) :
    SameMail w (w.stopActor actor keep) := by
  have hstop : SameMail w ((w.mapThreads fun t =>
      if t.actor = actor && some t.id ≠ keep then t.retire else t).retireCurrent
        fun c => c.actor == actor && some c.id != keep) := ⟨rfl, rfl, rfl, rfl⟩
  exact hstop.trans (sameMail_dropFinished _)

theorem sameMail_createClone (w : World σ) (source : ActorId) :
    SameMail w (w.createClone source).1 := by
  unfold createClone
  split
  · exact ⟨rfl, rfl, rfl, rfl⟩
  · split
    · exact .refl w
    · split
      · exact .refl w
      · refine SameMail.trans ?_ (sameMail_startHats _ _ _ _)
        exact ⟨rfl, rfl, rfl, rfl⟩

theorem sameMail_deleteClone (w : World σ) (id : ActorId) : SameMail w (w.deleteClone id).1 := by
  unfold deleteClone
  split
  · exact .refl w
  · split
    · exact .refl w
    · exact (sameMail_stopActor w id none).trans ⟨rfl, rfl, rfl, rfl⟩

theorem sameHost_clearPrompts (w : World σ) : SameHost w w.clearPrompts :=
  List.foldlRecOn (motive := SameHost w) _ _ (.of_eq rfl rfl) fun _ h _ _ =>
    h.trans (.of_eq rfl rfl)

/-- Everything is stopped: first the threads are, and the prompts are dropped in the end. -/
theorem stopAll_eq_clearPrompts (w : World σ) :
    ∃ w₁, SameMail w w₁ ∧ Tends (w.mapThreads Thread.retire) w₁ ∧ w.stopAll = w₁.clearPrompts := by
  let halted := (w.mapThreads Thread.retire).retireCurrent fun _ => true
  have hmail : SameMail w halted := ⟨rfl, rfl, rfl, rfl⟩
  have htends : Tends (w.mapThreads Thread.retire) halted := .of_eq rfl rfl rfl rfl
  have hclones := List.foldlRecOn
    (motive := fun w' => SameMail w w' ∧ Tends (w.mapThreads Thread.retire) w')
    halted.dropFinished.clones (fun w id => (w.deleteClone id).1)
    ⟨hmail.trans (sameMail_dropFinished _), htends.trans (tends_dropFinished _)⟩ fun w' h id _ =>
      ⟨h.1.trans (sameMail_deleteClone w' id), h.2.trans (tends_deleteClone w' id)⟩
  refine ⟨_, hclones.1.trans ?_, hclones.2.trans ?_, rfl⟩
  · exact ⟨rfl, rfl, rfl, rfl⟩
  · exact .of_eq rfl rfl rfl rfl

theorem sameHost_stopAll (w : World σ) : SameHost w w.stopAll := by
  obtain ⟨w₁, hmail, -, he⟩ := w.stopAll_eq_clearPrompts
  rw [he]
  exact hmail.host.trans (sameHost_clearPrompts w₁)

theorem sameMail_lookupVariable (w : World σ) (actor : ActorId) (id : Option String)
    (name : String) (kind : VariableKind) :
    SameMail w (w.lookupVariable actor id name kind).1 := by
  unfold lookupVariable
  split
  · exact .refl w
  · split
    · exact .refl w
    · exact ⟨rfl, rfl, rfl, rfl⟩

theorem sameMail_dispatchEvents (w : World σ) : SameMail w w.dispatchEvents :=
  List.foldlRecOn (motive := SameMail w) _ _ ⟨rfl, rfl, rfl, rfl⟩ fun w' h e _ =>
    h.trans (sameMail_startHats w' e.hat e.fields e.actor)

/-! ### Threads that are started and stopped -/

/-- No thread begins to await anything. -/
def Quiets (w w' : World σ) : Prop :=
  ∀ t' ∈ w'.threads ++ w'.spawned, ∀ c, t'.channel? = some c →
    ∃ t ∈ w.threads ++ w.spawned, t.id = t'.id ∧ t.channel? = some c

theorem Gives.passes (h : Gives w w') (ht : Quiets w w') : w.ledger.Passes w'.ledger :=
  .of_kept h.next_le h.held ht

/-- A thread that others handle awaits what it awaited before, or nothing. -/
theorem channel?_handled {t t' : Thread} (h : Thread.Handled t t') :
    t'.channel? = none ∨ t'.channel? = t.channel? := by
  cases h with
  | kept => exact .inr rfl
  | stopped => exact .inl rfl
  | startedOver => exact .inl rfl

/-- Starting and stopping threads does not let any of them await something. -/
theorem Descends.quiets (h : Descends w w') : Quiets w w' := by
  intro t' ht' c hc
  rcases h.origin t' ht' with ⟨-, actor, top, hstart⟩ | ⟨t, ht, hh⟩
  · rcases channel?_handled hstart with he | he
    · cases he.symm.trans hc
    · cases he.symm.trans hc
  · rcases channel?_handled hh with he | he
    · cases he.symm.trans hc
    · exact ⟨t, ht, hh.id.symm, he.symm.trans hc⟩

theorem Aside.quiets (h : Aside w w') : Quiets w w' := by
  intro t' ht' c hc
  obtain ⟨t, ht, rfl | rfl⟩ := h.origin t' ht'
  · exact ⟨_, ht, rfl, hc⟩
  · refine ⟨t, ht, t.id_due.symm, ?_⟩
    rw [← hc, Thread.channel?, Thread.channel?, Thread.due]
    split <;> rfl

theorem Deed.quiets (h : Deed w w') : Quiets w w' := by
  have hdescends : ∀ {w w' : World σ}, Tends w w' → Quiets w w' := fun h => h.descends.quiets
  cases h with
  | tend hs hn ht hsp => exact hdescends (Tends.of_eq hs hn ht hsp)
  | pushThread actor top => exact hdescends (tends_pushThread w actor top)
  | toggleScript actor top =>
    unfold World.toggleScript
    split
    · exact hdescends ((tends_modifyRunning (fun t _ => t.handled_retire) w).trans
        (tends_dropFinished _))
    · -- a thread that is marked as clicked awaits what it awaited before
      intro t' ht' c hc
      simp only [mapThreads, ← List.map_append] at ht'
      obtain ⟨t, ht, rfl⟩ := List.mem_map.1 ht'
      have hsame : ∀ u : Thread, u.id = t.id → u.channel? = t.channel? → u.channel? = some c →
          ∃ t₀ ∈ w.threads ++ w.spawned, t₀.id = u.id ∧ t₀.channel? = some c := fun u hid he hc =>
        hid ▸ hdescends (tends_pushThread w actor top) t ht c (he ▸ hc)
      refine hsame _ ?_ ?_ hc <;> split <;> rfl
  | stopActor actor keep => exact hdescends (tends_stopActor w actor keep)
  | startHats hat fields only => exact hdescends (tends_startHats w hat fields only)
  | createClone source => exact hdescends (tends_createClone w source)
  | deleteClone id => exact hdescends (tends_deleteClone w id)
  | stopAll => exact hdescends (tends_stopAll w)
  | greenFlag => exact hdescends (tends_greenFlag w)

/-- What a host does that begins to await only what is new. -/
def FairDeed (w w' : World σ) : Prop := Deed w w' ∧ Gives w w'

theorem FairDeed.passes (h : FairDeed w w') : w.ledger.Passes w'.ledger := h.2.passes h.1.quiets

end World

end Stagecraft
