import Stagecraft.Proofs.Schedule.Arrival
import Stagecraft.Proofs.Schedule.Laps

/-!
# Waiting for a while

A wait reads its duration when its primitive is run for the first time, and keeps it on the frame
with the reading of the clock. From then on the block is executed once in every turn, and it only
looks how much time has passed: what its input gives later has no effect. Its inputs are evaluated
first all the same, and a turn in which a value has to be waited for is over before the block can
look.

A thread that comes to the block again finds nothing from the last time. So all that it ever
executes falls into activations of the wait and what lies between them.

* `Execution.ends_of_busy` : a block that leaves its thread yielding or parked ends the turn;
* `Execution.starts_of_fresh` : **the first execution reads the duration**, and ends the turn;
* `Execution.passes_of_timing` : **later ones look how much time has passed**;
* `Execution.Delay` : what a thread executes while it waits;
* `Execution.Delays` : its activations of a wait, one after the other;
* `Execution.waits_of_plays` : **waits end on time**.
-/

namespace Stagecraft

/-- The frame of a wait that started at a reading. -/
def Frame.timed (f : Frame) (started duration : Span) : Frame :=
  { f with progress := .timing started duration }

namespace Execution

open Scene Thread

variable {σ : Type} {e x : Execution σ} {f F : Frame} {below : List Frame} {i : Invocation σ}
  {s : Scene σ} {started duration : Span} {op : Opcode}

/-! ### The end of a turn -/

/-- A block that leaves its thread other than running ends the turn, unless it runs on in warp. -/
theorem ends_of_busy (hs : x.thread.stack = f :: below) (hx : x.executed = (s, none))
    (hst : s.thread.status ≠ .running) (hwarp : f.warp = false) : x.after.2.2 = .ends := by
  rcases ho : s.obey with ⟨s', asked⟩
  cases asked with
  | true => rw [after_of_obeyed hs hx ho]
  | false =>
    cases obey_fst_of_false ho
    rw [after_of_moved hs hx ho, hwarp, proceed]
    cases h : s.thread.status with
    | running => exact absurd h hst
    | yielded | yieldedTick | parked | done => rfl

/-- A turn is over in which the inputs of a block have to be waited for, or fail. -/
theorem ends_of_unrun (hs : x.thread.stack = f :: below) (hop : x.graph.opcode? f.block = some op)
    (hcall : x.call? = none) (hwarp : f.warp = false) : x.after.2.2 = .ends := by
  obtain ⟨l, -, hgoes⟩ := goes hs
  rw [hcall] at hgoes
  generalize hx : x.executed = r at hgoes
  cases hgoes with
  | gone hgone =>
    rw [Graph.opcode?, hgone] at hop
    cases hop
  | failed fault _ =>
    obtain ⟨opcode, ha⟩ := after_of_fault hs hx
    rw [ha]
  | parked channel c _ => exact ends_of_busy hs hx (by simp [park]) hwarp

/-! ### The primitive -/

/-- The frame yields, and it keeps what it has. -/
theorem yields_of_executed {memo : Table Handle Value} (hs : x.thread.stack = f :: below)
    (hx : x.executed = (s.yield.forget below.length, none))
    (ht : s.thread = { x.entered.thread with stack := { F with reported := memo } :: below })
    (hwarp : f.warp = false) : x.after.2.2 = .ends ∧ x.Keeps F below [] := by
  have hforget : (s.yield.forget below.length).thread =
      { x.entered.thread with
        stack := { F with reported := .empty } :: below, status := .yielded } := by
    rw [forget, yield, ht, modifyFrame_top rfl]
  have hst : (s.yield.forget below.length).thread.status ≠ .running := by
    rw [hforget]
    simp
  refine ⟨ends_of_busy hs hx hst hwarp,
    keeps_of_executed hs hx ⟨⟨.empty, ?_⟩, fun hi => absurd rfl hi,
    fun _ hp => ?_⟩ (.inr hst)⟩
  · rw [hforget]
    rfl
  · rw [hforget] at hp
    cases hp

/-- What the primitive of a wait finds on its frame, and how the block comes out. -/
theorem executed_wait (hs : x.thread.stack = f :: below)
    (hop : x.graph.opcode? f.block = some (.control .wait)) (hg : x.graph.PlugsValues x.ext)
    (hcall : x.call? = some i) :
    i.before.progress? i.site = some f.progress ∧ i.site.frame = below.length ∧
      x.executed = ((Primitive.wait i.site i.args i.before).forget below.length, none) ∧
      ∃ memo, i.before.thread =
        { x.entered.thread with stack := { f with reported := memo } :: below } := by
  have hran := ran_of_call hs hcall
  obtain ⟨memo, hthread⟩ := hran.before hs hg
  have hframe : i.site.frame = below.length := by rw [hran.site, frame_site hs]
  have hresult : i.result x.ext = (Primitive.wait i.site i.args i.before, .done) := by
    rw [Invocation.result, Option.some.inj (hran.opcode.symm.trans hop)]
    rfl
  refine ⟨?_, hframe, ?_, memo, hthread⟩
  · rw [progress?, hframe, hthread, frameAt?_top rfl, Option.map_some]
  · rw [hran.executed, hresult, finish, frame_site hs]

/-- **The first execution reads the duration**, and it ends the turn. -/
theorem starts_of_fresh (hs : e.thread.stack = f :: below)
    (hfresh : ∀ started duration, f.progress ≠ .timing started duration)
    (hop : e.graph.opcode? f.block = some (.control .wait)) (hg : e.graph.PlugsValues e.ext)
    (hwarp : f.warp = false) (hcall : e.call? = some i) :
    e.after.2.2 = .ends ∧ e.Keeps (f.timed i.before.world.now
      (Primitive.waitSpan (i.args.number "DURATION"))) below [] := by
  obtain ⟨hprogress, hframe, hx, memo, hthread⟩ := executed_wait hs hop hg hcall
  let p : Progress :=
    .timing i.before.world.now (Primitive.waitSpan (i.args.number "DURATION"))
  have hwait : Primitive.wait i.site i.args i.before =
      ((i.before.keep i.site p).requestRedraw).yield := by
    rw [Primitive.wait, hprogress]
    split
    · rename_i hnone
      cases hnone
    · rename_i started duration hp
      exact absurd (Option.some.inj hp) (hfresh started duration)
    · rfl
  have hkept : (i.before.keep i.site p).requestRedraw.thread = { e.entered.thread with
      stack := { f.timed i.before.world.now (Primitive.waitSpan (i.args.number "DURATION")) with
        reported := memo } :: below } := by
    change i.before.thread.modifyFrame i.site.frame _ = _
    rw [hframe, hthread, modifyFrame_top rfl]
    rfl
  rw [hwait] at hx
  exact yields_of_executed hs hx hkept hwarp

/-- **Later ones look how much time has passed**, whatever their inputs give. -/
theorem passes_of_timing {memo : Table Handle Value}
    (hs : x.thread.stack = { F with reported := memo } :: below)
    (hF : F.progress = .timing started duration)
    (hop : x.graph.opcode? F.block = some (.control .wait)) (hg : x.graph.PlugsValues x.ext)
    (hrunning : x.thread.status = .running) (hwarp : F.warp = false) (hcall : x.call? = some i) :
    i.before.world.now - started < duration ∧ x.after.2.2 = .ends ∧ x.Keeps F below [] ∨
      duration ≤ i.before.world.now - started ∧ x.MovesPast ∧ ∃ s, x.executed = (s, none) ∧
        s.thread.stack = { F with reported := .empty } :: below := by
  obtain ⟨hprogress, -, hx, m, hthread⟩ := executed_wait hs hop hg hcall
  simp only [Primitive.wait, hprogress, hF] at hx
  split at hx
  · rename_i hearly
    exact .inl ⟨hearly, yields_of_executed hs hx hthread hwarp⟩
  · rename_i hover
    have hforget : (i.before.forget below.length).thread =
        { x.entered.thread with stack := { F with reported := .empty } :: below } := by
      rw [forget, hthread, modifyFrame_top rfl]
    refine .inr ⟨Nat.not_lt.1 hover, movesPast_of_executed hs hx ?_ ?_, _, hx, by rw [hforget]⟩
    · rw [hforget]
      exact x.status_entered.trans hrunning
    · rw [hforget]
      rfl

/-! ### The thread -/

/-- How a thread executes a block whose waits at some block are told: primitives of the host do to
it what built-in ones can, values are given in inputs, and the block is a wait where it is
executed. -/
structure Proper (b : Handle) (x : Execution σ) : Prop where
  regular : x.ext.Regular
  plugs : x.graph.PlugsValues x.ext
  running : x.thread.status = .running
  wait : x.thread.topBlock? = some b → x.graph.opcode? b = some (.control .wait)

theorem Proper.opcode {b : Handle} (hx : x.Proper b) (hs : x.thread.stack = f :: below)
    (hb : f.block = b) : x.graph.opcode? b = some (.control .wait) :=
  hx.wait (hb ▸ topBlock?_eq hs)

/-- Where nothing is kept for the block, nothing is at the next one unless the wait begins. -/
theorem Proper.unbegun {b : Handle} {y : Execution σ} (hx : x.Proper b)
    (hclean : x.thread.Unbegun b)
    (hother : ∀ f ∈ x.thread.topFrame?, f.block = b → f.warp = false → x.call? = none)
    (hn : Next x y) : y.thread.Unbegun b := by
  by_cases haway : ∀ f ∈ x.thread.stack.head?, f.Away b
  · exact hn.unbegun (unbegun_after hx.regular hx.plugs haway hclean)
  · -- the inputs of the wait are evaluated, and the frame stays as it is
    simp only [not_forall] at haway
    obtain ⟨f, hf, hat⟩ := haway
    obtain ⟨hb, hwarp⟩ : f.block = b ∧ f.warp = false := by simpa [Frame.Away] using hat
    obtain ⟨below, hs⟩ := List.head?_eq_some_iff.1 hf
    have hop : x.graph.opcode? f.block = some (.control .wait) := hb ▸ hx.opcode hs hb
    have hkeeps := keeps_unrun hs hop hx.plugs (hother f hf hb hwarp)
    rcases hn.holds hkeeps with hanew | ⟨inner, hholds, hi⟩
    · exact .anew hanew
    · obtain ⟨memo, hstack⟩ := hholds.stack
      rw [hi rfl, List.nil_append] at hstack
      exact .of_cons hstack (hclean f (hs ▸ List.mem_cons_self)) (hclean.tail hs)

/-! ### The wait -/

/-- What a thread executes while it waits: the same block, once in every turn. -/
structure Delay (started duration : Span) (F : Frame) (below : List Frame)
    (delay rest : List (Execution σ)) : Prop where
  /-- The thread stands at the block, and what is below stays as it is. -/
  holds : ∀ x ∈ delay, x.thread.Holds F below []
  /-- Every execution begins a turn. -/
  begun : ∀ x ∈ delay, x.Begun
  /-- A turn in which an input has to be waited for ends there. -/
  unrun : ∀ x ∈ delay, x.call? = none → x.after.2.2 = .ends
  /-- Too early the block ends the turn, and else the thread moves past it. -/
  each : ∀ before x after j, delay = before ++ x :: after → x.call? = some j →
    j.before.world.now - started < duration ∧ x.after.2.2 = .ends ∨
      duration ≤ j.before.world.now - started ∧ x.MovesPast ∧ after = []
  /-- Only when the thread starts over it does not come to that. -/
  next : (∀ x ∈ delay, ∀ j, x.call? = some j → j.before.world.now - started < duration) →
    ∀ x ∈ rest.head?, x.thread.Anew

theorem Delay.nil {rest : List (Execution σ)} (h : ∀ x ∈ rest.head?, x.thread.Anew) :
    Delay started duration F below [] rest :=
  ⟨fun _ hx => (by cases hx), fun _ hx => (by cases hx), fun _ hx => (by cases hx),
    fun _ _ _ _ h => (by simp at h), fun _ => h⟩

/-- The last execution. -/
theorem Delay.over {rest : List (Execution σ)} (hholds : x.thread.Holds F below [])
    (hbegun : x.Begun) (hcall : x.call? = some i) (hover : duration ≤ i.before.world.now - started)
    (hpast : x.MovesPast) : Delay started duration F below [x] rest where
  holds y hy := List.mem_singleton.1 hy ▸ hholds
  begun y hy := List.mem_singleton.1 hy ▸ hbegun
  unrun y hy hnone := by
    rw [List.mem_singleton.1 hy, hcall] at hnone
    cases hnone
  each before y after j happend hj := by
    rcases List.singleton_eq_append_iff.1 happend with ⟨rfl, h⟩ | ⟨-, h⟩ <;> cases h
    cases hcall.symm.trans hj
    exact .inr ⟨hover, hpast, rfl⟩
  next hnone := absurd hover (Nat.not_le.2 (hnone x List.mem_cons_self i hcall))

/-- One more execution that ends its turn. -/
theorem Delay.cons {delay rest : List (Execution σ)} (hholds : x.thread.Holds F below [])
    (hbegun : x.Begun) (hends : x.after.2.2 = .ends)
    (hearly : ∀ j, x.call? = some j → j.before.world.now - started < duration)
    (h : Delay started duration F below delay rest) :
    Delay started duration F below (x :: delay) rest where
  holds := List.forall_mem_cons.2 ⟨hholds, h.holds⟩
  begun := List.forall_mem_cons.2 ⟨hbegun, h.begun⟩
  unrun := List.forall_mem_cons.2 ⟨fun _ => hends, h.unrun⟩
  each before y after j happend hj := by
    cases before with
    | nil =>
      obtain ⟨rfl, -⟩ := List.cons.inj happend
      exact .inl ⟨hearly j hj, hends⟩
    | cons z before => exact h.each before y after j (List.cons.inj happend).2 hj
  next hnone := h.next fun y hy => hnone y (List.mem_cons_of_mem _ hy)

/-- The next block of a thread whose turn is over begins another turn. -/
theorem Next.begun {e' : Execution σ} (h : Next e e') (hends : e.after.2.2 = .ends) : e'.Begun := by
  cases h with
  | goesOn ha _ _ _ =>
    rw [ha] at hends
    cases hends
  | later _ hbegun => exact hbegun

/-- A wait that has begun, by induction on the blocks of the thread. When it is over the thread
keeps nothing for the block. -/
theorem exists_delay (hF : F.progress = .timing started duration) (hwarp : F.warp = false)
    (hbelow : ∀ f ∈ below, f.Unbegun F.block) :
    ∀ (later : List (Execution σ)) {e : Execution σ}, e.after.2.2 = .ends → e.Keeps F below [] →
      (e :: later).IsChain Next →
      (∀ x ∈ later, x.Proper F.block) →
      ∃ delay rest, later = delay ++ rest ∧ Delay started duration F below delay rest ∧
        ∀ x ∈ rest.head?, x.thread.Unbegun F.block := by
  intro later
  induction later with
  | nil =>
    exact fun _ _ _ _ => ⟨[], [], rfl, .nil fun _ hx => (by cases hx), fun _ hx => by cases hx⟩
  | cons e' later ih =>
    intro e hends hkeeps hchain hall
    obtain ⟨hnext, hchain'⟩ := List.isChain_cons_cons.1 hchain
    have he' := hall e' List.mem_cons_self
    have hbegun := hnext.begun hends
    rcases hnext.holds hkeeps with hanew | ⟨inner', hholds, hinner⟩
    · exact ⟨[], e' :: later, rfl, .nil fun x hx => (by cases hx; exact hanew), fun x hx => by
        cases hx
        exact .anew hanew⟩
    cases hinner rfl
    obtain ⟨memo, hs⟩ := hholds.stack
    rw [List.nil_append] at hs
    have hop := he'.opcode hs rfl
    -- the wait goes on unless the primitive finds that the time is over
    have hgo : e'.after.2.2 = .ends → e'.Keeps F below [] →
        (∀ j, e'.call? = some j → j.before.world.now - started < duration) →
        ∃ delay rest, e' :: later = delay ++ rest ∧ Delay started duration F below delay rest ∧
          ∀ x ∈ rest.head?, x.thread.Unbegun F.block := by
      intro hends' hkeeps' hearly
      obtain ⟨delay, rest, rfl, hdelay, hrest⟩ :=
        ih hends' hkeeps' hchain' fun x hx => hall x (List.mem_cons_of_mem _ hx)
      exact ⟨e' :: delay, rest, rfl, hdelay.cons hholds hbegun hends' hearly, hrest⟩
    cases hcall : e'.call? with
    | none =>
      refine hgo (ends_of_unrun hs hop hcall hwarp) (keeps_unrun hs hop he'.plugs hcall)
        fun j hj => ?_
      cases hcall.symm.trans hj
    | some i =>
      have hpasses := passes_of_timing hs hF hop he'.plugs he'.running hwarp hcall
      rcases hpasses with ⟨hearly, hends', hkeeps'⟩ | ⟨hover, hpast, s, hx, hstack⟩
      · refine hgo hends' hkeeps' fun j hj => ?_
        cases hcall.symm.trans hj
        exact hearly
      · refine ⟨[e'], later, rfl, .over hholds hbegun hcall hover hpast, fun y hy => ?_⟩
        have hleft := (List.isChain_cons.1 hchain').1 y hy
        exact hleft.unbegun_of_movesPast hs hx hstack hpast hbelow

/-- **An activation of a wait**, from where nothing is kept to where nothing is. -/
theorem exists_activation {later : List (Execution σ)} (he : e.Proper f.block)
    (hclean : e.thread.Unbegun f.block) (hs : e.thread.stack = f :: below) (hwarp : f.warp = false)
    (hcall : e.call? = some i) (hchain : (e :: later).IsChain Next)
    (hall : ∀ x ∈ later, x.Proper f.block) :
    let started := i.before.world.now
    let duration := Primitive.waitSpan (i.args.number "DURATION")
    f.progress = .fresh ∧ e.after.2.2 = .ends ∧ ∃ delay rest, later = delay ++ rest ∧
      Delay started duration (f.timed started duration) below delay rest ∧
        ∀ x ∈ rest.head?, x.thread.Unbegun f.block := by
  intro started duration
  have hfresh : f.progress = .fresh := hclean f (hs ▸ List.mem_cons_self) rfl hwarp
  have hnone : ∀ started duration, f.progress ≠ .timing started duration :=
    fun _ _ hp => by cases hfresh.symm.trans hp
  obtain ⟨hends, hkeeps⟩ := starts_of_fresh hs hnone (he.opcode hs rfl) he.plugs hwarp hcall
  have hF : (f.timed started duration).progress = .timing started duration := rfl
  exact ⟨hfresh, hends, exists_delay hF hwarp (hclean.tail hs) later hends hkeeps hchain hall⟩

/-! ### All that a thread executes -/

/-- What a thread executes, taken apart into its activations of a wait outside warp and all the
rest. -/
inductive Delays (b : Handle) : List (Execution σ) → Prop
  | nil : Delays b []
  /-- Another block is executed, or the wait in warp, or only the inputs of the wait. -/
  | other {x : Execution σ} {rest : List (Execution σ)} :
      (∀ f ∈ x.thread.topFrame?, f.block = b → f.warp = false → x.call? = none) →
      Delays b rest → Delays b (x :: rest)
  /-- An activation: the primitive of the wait is run where nothing is kept yet, it reads the clock
  and the duration, and the turn ends. What comes next is executed while the thread waits for that
  long. -/
  | activation {e : Execution σ} {i : Invocation σ} {f : Frame} {below : List Frame}
      {delay rest : List (Execution σ)} :
      e.thread.stack = f :: below → f.block = b → f.warp = false → f.progress = .fresh →
      e.call? = some i → e.after.2.2 = .ends →
      Delay i.before.world.now (Primitive.waitSpan (i.args.number "DURATION"))
        (f.timed i.before.world.now (Primitive.waitSpan (i.args.number "DURATION"))) below delay
        rest →
      Delays b rest → Delays b (e :: (delay ++ rest))

/-- By induction on how much the thread executes. Wherever no activation is on, the thread keeps
nothing for the block. -/
theorem waits_of_chain {b : Handle} (n : Nat) : ∀ {l : List (Execution σ)}, l.length ≤ n →
    l.IsChain Next → (∀ x ∈ l.head?, x.thread.Unbegun b) → (∀ x ∈ l, x.Proper b) → Delays b l := by
  induction n with
  | zero =>
    intro l hlen _ _ _
    cases List.length_eq_zero_iff.1 (Nat.le_zero.1 hlen)
    exact .nil
  | succ n ih =>
    intro l hlen hchain hfirst hall
    cases l with
    | nil => exact .nil
    | cons x later =>
      have hx := hall x List.mem_cons_self
      have hclean : x.thread.Unbegun b := hfirst x rfl
      have hlater : ∀ y ∈ later, y.Proper b := fun y hy => hall y (List.mem_cons_of_mem x hy)
      have hlen' : later.length ≤ n := Nat.le_of_succ_le_succ hlen
      obtain ⟨hnext, hchain'⟩ := List.isChain_cons.1 hchain
      by_cases hother : ∀ f ∈ x.thread.topFrame?, f.block = b → f.warp = false → x.call? = none
      · exact .other hother
          (ih hlen' hchain' (fun y hy => hx.unbegun hclean hother (hnext y hy)) hlater)
      · simp only [not_forall] at hother
        obtain ⟨f, hf, rfl, hwarp, hcall⟩ := hother
        obtain ⟨below, hs⟩ := List.head?_eq_some_iff.1 hf
        obtain ⟨i, hi⟩ := Option.ne_none_iff_exists'.1 hcall
        obtain ⟨hfresh, hends, delay, rest, rfl, hdelay, hclean'⟩ :=
          exists_activation hx hclean hs hwarp hi hchain hlater
        have hlen'' : rest.length ≤ n := by
          rw [List.length_append] at hlen'
          omega
        exact .activation hs rfl hwarp hfresh hi hends hdelay
          (ih hlen'' (List.isChain_append.1 hchain').2.1 hclean' fun y hy =>
            hlater y (List.mem_append_right delay hy))

/-- **Waits end on time.** Whatever other threads do and whenever its turns come, all that a
thread executes falls into its activations of the wait and other blocks. Nothing is left of one
activation when the next one begins: there the duration is read, and the turn ends. From then on
the thread executes the block once in every turn and nothing else. A turn in which an input has to
be waited for ends there. In any other the block ends the turn while the time is not over, and in
the first one in which it is the thread moves past the block. Only starting over keeps the thread
from that, or never having another turn. -/
theorem waits_of_plays {ext : Extensions σ} {w w' : World σ} {l : List (Execution σ)}
    {P : Extensions σ → Prop} {b : Handle} (hw : w.Reachable) (h : Plays P w l w')
    (hP : ∀ ext, P ext → ext.Orderly ∧ ext.Regular) (hext : P ext) (fuel : Nat) (id : ThreadId)
    (hidle : w.Unbegun b id)
    (hblock : ∀ x ∈ own id (l ++ ofStep ext fuel w'), x.graph.PlugsValues x.ext ∧
      (x.thread.topBlock? = some b → x.graph.opcode? b = some (.control .wait))) :
    Delays b (own id (l ++ ofStep ext fuel w')) := by
  have hP' : ∀ ext, P ext → ext.Orderly := fun ext hp => (hP ext hp).1
  obtain ⟨hchain, hstaged⟩ := tail_of_plays hw h hP' hext fuel id (List.nil_append _).symm
  refine waits_of_chain _ (Nat.le_refl _) hchain (unbegun_first hw h hP' hext fuel hidle)
    fun x hx => ?_
  obtain ⟨hp, hst⟩ := hstaged x hx
  exact ⟨(hP _ hp).2, (hblock x hx).1, hst.running, (hblock x hx).2⟩

end Execution

namespace World

open Execution

/-- A wait of half a second, and a block behind it. -/
def pause : Graph :=
  Graph.empty.run
    [.create { Block.detached "wait" (.control .wait) with
        inputs := Table.empty.insert "DURATION" (.literal (.text "0.5"))
        next := some ⟨1, 0⟩
        topLevel := true },
      .create { Block.detached "show" (.looks .show) with parent := some ⟨0, 0⟩ }]

/-- The script has been started. -/
def pauseWorld : World Unit :=
  (((blank .standard ()).addSprite "Cat" pause).1.pushThread 0 ⟨0, 0⟩).1

theorem reachable_pauseWorld : pauseWorld.Reachable := by
  have hactor : ((blank .standard ()).addSprite "Cat" pause).1.Reachable :=
    (Reachable.blank Settings.standard ()).deed (.tend rfl rfl rfl rfl)
  exact hactor.deed (.pushThread _ 0 ⟨0, 0⟩)

/-- What a step executes: the blocks on the stack, what the top frame keeps, the primitives that are
run, and the reading of the clock. -/
def glance (ext : Extensions Unit) (w : World Unit) :
    List (List Nat × Option Progress × List Opcode × Span) :=
  (ofStep ext 9 w).map fun e => (e.thread.stackBlocks.map (·.index),
    e.thread.topFrame?.map (·.progress), e.calls.map (·.opcode), e.scene.world.now)

/-- The world after a step, some time later. -/
def linger (ext : Extensions Unit) (micros : Nat) (w : World Unit) : Option (World Unit) :=
  (w.step ext 9).map fun p => p.1.advanceClock micros

theorem Deed.advanceClock (w : World σ) (micros : Nat) : Deed w (w.advanceClock micros) :=
  .tend rfl rfl rfl rfl

/-- The duration is read in the first step, and the thread moves past the wait in the third. -/
theorem waits_of_plays_pause : pauseWorld.Reachable ∧ pauseWorld.Unbegun ⟨0, 0⟩ 1 ∧ ∃ l w,
    Execution.Plays (· = .empty) pauseWorld l w ∧
      (own 1 (l ++ ofStep .empty 9 w)).map (fun x =>
        (x.thread.stackBlocks.map (·.index), x.scene.world.now)) =
          [([0], 0), ([0], 200000000), ([0], 500000000), ([1], 500000000)] ∧
      Delays ⟨0, 0⟩ (own 1 (l ++ ofStep .empty 9 w)) := by
  have hidle : pauseWorld.Unbegun ⟨0, 0⟩ 1 := by
    have hactor : ((blank .standard ()).addSprite "Cat" pause).1.Unbegun ⟨0, 0⟩ 1 :=
      fun t ht => by cases ht
    exact (Deed.pushThread _ 0 ⟨0, 0⟩).unbegun hactor
  have hshape : (pauseWorld.step .empty 9).bind (fun p =>
      ((p.1.advanceClock 200000).step .empty 9).map fun q =>
        (own 1 (ofStep .empty 9 pauseWorld ++ (ofStep .empty 9 (p.1.advanceClock 200000) ++ []) ++
          ofStep .empty 9 (q.1.advanceClock 300000))).map fun x =>
            ((x.thread.stackBlocks.map (·.index), x.scene.world.now),
              x.graph.plugsReporters, x.graph.opcode? ⟨0, 0⟩)) =
      some ([([0], 0), ([0], 200000000), ([0], 500000000), ([1], 500000000)].map fun s =>
        (s, true, some (.control .wait))) := by
    decide +kernel
  obtain ⟨⟨w₁, _⟩, h₁, hshape⟩ := Option.bind_eq_some_iff.1 hshape
  obtain ⟨⟨w₂, _⟩, h₂, hshape⟩ := Option.map_eq_some_iff.1 hshape
  have hplays : Execution.Plays (· = .empty) pauseWorld
      (ofStep .empty 9 pauseWorld ++ (ofStep .empty 9 (w₁.advanceClock 200000) ++ []))
      (w₂.advanceClock 300000) :=
    .step rfl h₁ (.deed (.advanceClock w₁ 200000)
      (.step rfl h₂ (.deed (.advanceClock w₂ 300000) (.nil _))))
  have hP : ∀ ext : Extensions Unit, ext = .empty → ext.Orderly ∧ ext.Regular := fun ext hp => by
    subst hp
    exact ⟨orderly_empty, regular_empty⟩
  refine ⟨reachable_pauseWorld, hidle, _, _, hplays, ?_,
    waits_of_plays reachable_pauseWorld hplays hP rfl 9 1 hidle fun x hx => ?_⟩
  · have hmap := congrArg (List.map Prod.fst) hshape
    rw [List.map_map, List.map_map] at hmap
    exact hmap
  · obtain ⟨s, -, hsame⟩ := List.mem_map.1 (hshape ▸ List.mem_map_of_mem hx)
    simp only [Prod.mk.injEq] at hsame
    obtain ⟨-, hstaged⟩ := tail_of_plays reachable_pauseWorld hplays
      (fun ext hp => (hP ext hp).1) rfl 9 1 (List.nil_append _).symm
    refine ⟨?_, fun _ => hsame.2.2.symm⟩
    rw [(hstaged x hx).1]
    exact (Graph.plugsReporters_of_check hsame.2.1.symm).plugsValues Extensions.spares_empty

/-- A reporter of the host, whose value has to be waited for. -/
def dawdler : Extensions Unit := Table.empty.insert "host_seconds" fun _ _ s =>
  let (w, channel) := s.world.openChannel (.settled (.text "1"))
  ({ s with world := w }, .outcome (.deferred channel))

/-- Three scripts that wait for a second: for as long as such a reporter says, in a branch, and
with a broadcast in another input. -/
def dawdle : Graph :=
  Graph.empty.run
    [.create { Block.detached "wait" (.control .wait) with
        inputs := Table.empty.insert "DURATION" (.reporter ⟨1, 0⟩)
        next := some ⟨2, 0⟩
        topLevel := true },
      .create { Block.detached "seconds" (.custom "host_seconds") with parent := some ⟨0, 0⟩ },
      .create { Block.detached "show" (.looks .show) with parent := some ⟨0, 0⟩ },
      .create { Block.detached "when" (.control .ifThen) with
        inputs := (Table.empty.insert "CONDITION" (.literal (.flag true))).insert "SUBSTACK"
          (.branch ⟨4, 0⟩)
        next := some ⟨5, 0⟩
        topLevel := true },
      .create { Block.detached "branch" (.control .wait) with
        inputs := Table.empty.insert "DURATION" (.literal (.text "1"))
        parent := some ⟨3, 0⟩ },
      .create { Block.detached "hide" (.looks .hide) with parent := some ⟨3, 0⟩ },
      .create { Block.detached "mixed" (.control .wait) with
        inputs := (Table.empty.insert "DURATION" (.literal (.text "1"))).insert "X"
          (.reporter ⟨7, 0⟩)
        topLevel := true },
      .create { Block.detached "call" (.event .broadcastAndWait) with
        inputs := Table.empty.insert "BROADCAST_INPUT" (.literal (.text "go"))
        parent := some ⟨6, 0⟩ }]

/-- One of the scripts has been started. -/
def dawdleWorld (top : Nat) : World Unit :=
  (((blank .standard ()).addSprite "Cat" dawdle).1.pushThread 0 ⟨top, 0⟩).1

/-- **Three ways in which it is not so simple.** In the first turn after the wait has begun its
second is over, but the thread only asks for the duration again, and it moves past the wait in the
turn after that. When the block is deleted the thread moves past it at once. And a broadcast in an
input takes the frame for itself, so that the wait starts over in every turn. -/
theorem glance_dawdle :
    (((linger dawdler 0 (dawdleWorld 0)).bind (linger dawdler 2000000)).map (glance dawdler) = some
        [([0], some (.timing 0 1000000000), [.custom "host_seconds"], 2000000000)] ∧
      (((linger dawdler 0 (dawdleWorld 0)).bind (linger dawdler 2000000)).bind
          (linger dawdler 0)).map (glance dawdler) = some
        [([0], some (.timing 0 1000000000), [.control .wait], 2000000000),
          ([2], some .fresh, [.looks .show], 2000000000)]) ∧
    (glance dawdler (dawdleWorld 3) = [([3], some .fresh, [.control .ifThen], 0),
        ([3, 4], some .fresh, [.control .wait], 0)] ∧
      (linger dawdler 0 (dawdleWorld 3)).map (fun w =>
          glance dawdler (w.editGraph 0 fun g => (g.delete ⟨4, 0⟩).1)) = some
        [([3, 4], some (.timing 0 1000000000), [], 0), ([5], some .fresh, [.looks .hide], 0)]) ∧
    (linger dawdler 2000000 (dawdleWorld 6)).map (glance dawdler) = some
        [([6], some (.timing 0 1000000000), [.event .broadcastAndWait, .control .wait],
          2000000000)] ∧
      ((linger dawdler 2000000 (dawdleWorld 6)).bind (linger dawdler 2000000)).map
          (glance dawdler) = some
        [([6], some (.timing 2000000000 1000000000), [.event .broadcastAndWait, .control .wait],
          4000000000)] := by
  refine ⟨⟨?_, ?_⟩, ⟨?_, ?_⟩, ?_, ?_⟩ <;> decide +kernel

end World

end Stagecraft
