import Stagecraft.Proofs.Graph.Staleness
import Stagecraft.Proofs.Schedule.Lifecycle

/-!
# Threads whose blocks are gone

A program may be edited while its threads are between turns, and a thread may then stand on a
block that was deleted. Such a block is neither looked for elsewhere nor mistaken for what has its
slot now: the thread runs nothing, drops the frame and goes on below it, as it does after the last
block of a chain.

* `Scheduler.Resumes` : how a thread goes on below a frame that was dropped;
* `Scene.stepBlock_of_gone` : a block that is gone is dropped;
* `Scene.dropped_of_edits` : **threads tolerate edits**.
-/

namespace Stagecraft

/-! ### Below a frame -/

namespace Scheduler

variable {k : Scheduler} {now : Span} {g : Graph} {t : Thread} {f : Frame} {below : List Frame}

/-- Whether a frame is dropped on the way down: it is no loop, and nothing comes after its block. -/
def drops (g : Graph) (f : Frame) : Bool := !f.isLoop && (g.next? f.block).isNone

/-- How a thread goes on below a frame that was dropped: frames with nothing left to do are
dropped as well. It enters the loop below them again, or goes on behind the block below them. When
there is no frame left the thread ends. -/
structure Resumes (k : Scheduler) (now : Span) (g : Graph) (t : Thread) (below : List Frame)
    (r : Thread × Turn) : Prop where
  ended : below.dropWhile (drops g) = [] → r = ({ t with stack := [], status := .done }, .ends)
  again : ∀ f rest, below.dropWhile (drops g) = f :: rest → f.isLoop = true →
    r = ({ t with stack := f :: rest }, k.atLoop now t f)
  behind : ∀ f rest, below.dropWhile (drops g) = f :: rest → f.isLoop = false →
    ∃ n, g.next? f.block = some n ∧ r = ({ t with stack := f.reuse n :: rest }, .goesOn)

theorem unwind_of_drops (h : drops g f = true) :
    k.unwind now g t (f :: below) = k.unwind now g t below := by
  obtain ⟨hloop, hnext⟩ := Bool.and_eq_true_iff.1 h
  rw [unwind, if_neg (by simpa using hloop), Option.isNone_iff_eq_none.1 hnext]

/-- Frames with nothing left to do do not matter. -/
theorem unwind_dropWhile (below : List Frame) :
    k.unwind now g t (below.dropWhile (drops g)) = k.unwind now g t below := by
  induction below with
  | nil => rfl
  | cons f rest ih =>
    by_cases h : drops g f = true
    · rw [List.dropWhile_cons_of_pos h, ih, unwind_of_drops h]
    · rw [List.dropWhile_cons_of_neg h]

/-- **Going on below a frame.** -/
theorem resumes_unwind (below : List Frame) : Resumes k now g t below (k.unwind now g t below) := by
  rw [← unwind_dropWhile]
  refine ⟨fun h => by rw [h]; rfl, fun f rest h hloop => ?_, fun f rest h hloop => ?_⟩
  · rw [h, unwind, if_pos hloop]
    rfl
  · -- the first frame that is left is not dropped, so something comes after its block
    have hkept := List.head_dropWhile_not (p := drops g) (l := below) (by simp [h])
    simp only [h, List.head_cons, drops, hloop, Bool.not_false, Bool.true_and,
      Option.isNone_eq_false_iff] at hkept
    obtain ⟨n, hn⟩ := Option.isSome_iff_exists.1 hkept
    refine ⟨n, hn, ?_⟩
    rw [h, unwind, if_neg (by simp [hloop]), hn]

/-- The stack that a thread had does not matter. -/
theorem unwind_stack (stack below : List Frame) :
    k.unwind now g { t with stack := stack } below = k.unwind now g t below := by
  induction below with
  | nil => rfl
  | cons f rest ih =>
    rw [unwind, unwind]
    split
    · rfl
    · split
      · rfl
      · exact ih

/-- At the end of a chain the thread goes on below the frame. -/
theorem advance_of_last (hstack : t.stack = f :: below) (hnext : g.next? f.block = none) :
    k.advance now g t = k.unwind now g t below := by
  rw [advance, hstack]
  simp only [hnext]

end Scheduler

namespace Scene

variable {σ : Type} {ext : Extensions σ} {k : Scheduler} {g : Graph} {s : Scene σ} {f : Frame}
  {rest : List Frame}

/-! ### A block that is gone -/

/-- A thread in its turn: it runs, and nothing was asked of it meanwhile. -/
structure Underway (s : Scene σ) : Prop where
  running : s.thread.status = .running
  unasked : ∀ c, s.world.current = some c → c.retire = false ∧ c.restart = false

/-- So it is when the turn of a running thread begins. -/
theorem underway_onStage (w : World σ) (t : Thread) (h : t.status = .running) :
    Underway ⟨Pass.onStage w t, t⟩ := by
  refine ⟨h, fun c hc => ?_⟩
  cases hc
  exact ⟨rfl, rfl⟩

theorem Underway.obey (hs : s.Underway) : s.obey = (s, false) := by
  generalize he : s.obey = r
  cases obeyed_of_obey he with
  | unasked => rfl
  | stopped hc hretire => cases hretire.symm.trans (hs.unasked _ hc).1
  | startsOver hc _ hrestart => cases hrestart.symm.trans (hs.unasked _ hc).2

theorem Underway.entered (hs : s.Underway) : s.entered.Underway := by
  refine ⟨?_, hs.unasked⟩
  simp only [Scene.entered, startWarp]
  split <;> exact hs.running

/-- No primitive is run for a block that is gone. -/
theorem invocations_of_gone (htop : s.thread.stack = f :: rest) (hgone : g.get? f.block = none) :
    s.invocations ext k g = [] := by
  rw [invocations, Thread.topBlock?, htop]
  simp only [List.head?_cons, Option.map_some, hgone]

/-- Executing it does nothing. -/
theorem execute_of_gone (htop : s.thread.stack = f :: rest) (hgone : g.get? f.block = none) :
    s.execute ext k g = (s, none) := by
  rw [execute, Thread.topBlock?, htop]
  simp only [List.head?_cons, Option.map_some, hgone]

/-- **A block that is gone is dropped**: but for the time that passes and the counter of blocks, all
that happens is that the thread goes on below its frame. -/
theorem stepBlock_of_gone (hs : s.Underway) (htop : s.thread.stack = f :: rest)
    (hgone : g.get? f.block = none) :
    s.stepBlock ext g k =
      (k.countBlock,
        ⟨s.world.elapse, (k.countBlock.unwind s.world.elapse.now g s.entered.thread rest).1⟩,
        (k.countBlock.unwind s.world.elapse.now g s.entered.thread rest).2) := by
  have hblock : s.thread.topBlock? = some f.block := by rw [Thread.topBlock?, htop]; rfl
  have hentered : s.entered.thread.stack = f :: rest := s.stack_entered.trans htop
  have hnext : g.next? f.block = none := by rw [Graph.next?, hgone]; rfl
  have hexec : s.entered.execute ext k.countBlock g = (s.entered, none) :=
    execute_of_gone hentered hgone
  rw [entered] at hexec
  rw [stepBlock, hblock]
  simp only [hexec]
  rw [← entered, hs.entered.obey]
  simp only [proceed, hs.entered.running]
  -- the thread still stands on the block, so it is moved past it
  have hstill : s.entered.thread.topBlock? = some f.block := by
    rw [Thread.topBlock?, hentered]
    rfl
  rw [hentered, if_neg (by simp), if_pos hstill, Scheduler.advance_of_last hentered hnext]
  rfl

/-! ### Blocks that run -/

/-- **Only blocks of the program run**: those that are live under the handles by which they are
reached. -/
theorem live_of_mem_invocations {i : Invocation σ} (hi : i ∈ s.invocations ext k g) :
    ∃ b, g.get? i.block = some b ∧ b.opcode = i.opcode := by
  have hat : ∀ {site : Site} {l : List (Invocation σ)} {s₁ : Scene σ}, site.graph = g →
      Evaluates ext site s l s₁ → ∀ j ∈ l, ∃ b, g.get? j.block = some b ∧ b.opcode = j.opcode := by
    intro site l s₁ hsite h
    induction h with
    | nil => simp
    | remember _ _ _ ih => exact ih
    | report _ hj _ ih =>
      intro j hmem
      rcases List.mem_append.1 hmem with hmem | hmem
      · exact ih j hmem
      · rw [List.mem_singleton.1 hmem, ← hsite]
        exact hj.opcode
  have hexec := executed ext k g s
  generalize s.invocations ext k g = l at hi hexec
  generalize s.execute ext k g = r at hexec
  cases hexec with
  | skipped => cases hi
  | failed _ _ he => exact hat rfl he i hi
  | parked _ _ _ he => exact hat rfl he i hi
  | ran _ he hj _ =>
    rcases List.mem_append.1 hi with hi | hi
    · exact hat rfl he i hi
    · rw [List.mem_singleton.1 hi]
      exact hj.opcode

/-! ### Edits -/

/-- **Threads tolerate edits.** However a program is edited while a thread is not in its turn, as
long as no slot is freed `2 ^ 32` times, and whether or not its index of procedures is worked out
meanwhile: let the block of the top frame not be live when the thread is about to execute it. Then
no primitive is run, and but for the time that passes and the counter of blocks only the thread
changes. It drops the frame and goes on below it, just as it would if the frame stood on the last
block of a chain.

A handle whose block was deleted on the way is not live, whatever has its slot, and nothing that
is run with the program is reached by it. -/
theorem dropped_of_edits {g₀ : Graph} {ops : List Operation} (hc : g₀.Consistent)
    (hfew : ∀ i, Graph.frees i g₀ ops < UInt32.size) (hg : g.slots = (g₀.run ops).slots)
    (hs : s.Underway) (htop : s.thread.stack = f :: rest) (hgone : g.get? f.block = none) :
    s.entered.invocations ext k.countBlock g = [] ∧
      (∃ t turn, s.stepBlock ext g k = (k.countBlock, ⟨s.world.elapse, t⟩, turn) ∧
        k.countBlock.Resumes s.world.elapse.now g s.entered.thread rest (t, turn) ∧
        ∀ last, g.next? last = none →
          k.countBlock.advance s.world.elapse.now g
            { s.entered.thread with stack := { f with block := last } :: rest } = (t, turn)) ∧
      ∀ before after h, ops = before ++ after → g₀.contains h = true →
        (g₀.run before).contains h = false →
          g.contains h = false ∧
            ∀ (k' : Scheduler) (s' : Scene σ), ∀ i ∈ s'.invocations ext k' g, i.block ≠ h := by
  refine ⟨invocations_of_gone (s.stack_entered.trans htop) hgone,
    ⟨_, _, stepBlock_of_gone hs htop hgone, Scheduler.resumes_unwind rest, fun last hlast => ?_⟩,
    fun before after h hops hlive hdead => ?_⟩
  · exact (Scheduler.advance_of_last rfl hlast).trans (Scheduler.unwind_stack _ rest)
  · have hstale := (Graph.stale_of_gone hc hlive hdead (hops ▸ hfew h.index)).contains
    rw [← hops] at hstale
    have hnone : g.contains h = false := by
      rw [Graph.contains, Graph.get?_congr hg]
      exact hstale
    refine ⟨hnone, fun k' s' i hi he => ?_⟩
    obtain ⟨b, hb, -⟩ := live_of_mem_invocations hi
    rw [he] at hb
    exact absurd (Graph.contains_of_get? hb) (Bool.eq_false_iff.1 hnone)

/-- A loop around two blocks. -/
def furnished : Graph :=
  Graph.empty.run
    [.create (.detached "loop" (.control .forever)), .create (.detached "first" (.control .wait)),
      .create (.detached "second" (.control .wait)), .move ⟨1, 0⟩ (.input ⟨0, 0⟩ "SUBSTACK" true),
      .move ⟨2, 0⟩ (.after ⟨1, 0⟩)]

/-- The blocks in the loop are deleted, and another one takes their place and the slot of one of
them. -/
def refit : List Operation :=
  [.delete ⟨1, 0⟩, .create (.detached "third" (.control .wait)),
    .move ⟨2, 1⟩ (.input ⟨0, 0⟩ "SUBSTACK" true)]

/-- The frame of the loop. -/
def loopFrame : Frame := { Frame.start ⟨0, 0⟩ false with isLoop := true }

/-- A thread in the loop, with a frame on each of the two blocks. -/
def guest : Thread :=
  { Thread.start 1 0 ⟨0, 0⟩ with stack := [.start ⟨2, 0⟩ false, .start ⟨1, 0⟩ false, loopFrame] }

/-- The scene in which its turn begins. -/
def indoors : Scene Unit := ⟨Pass.onStage (.blank .standard ()) guest, guest⟩

/-- The slot is in use again, and the thread is back at the loop all the same. -/
theorem dropped_of_edits_refit :
    (furnished.run refit).contains ⟨2, 0⟩ = false ∧ (furnished.run refit).contains ⟨2, 1⟩ = true ∧
      ∃ t, indoors.stepBlock .empty (furnished.run refit).indexed (.create .standard) =
          ((Scheduler.create .standard).countBlock, ⟨indoors.world.elapse, t⟩, .ends) ∧
        t.stack = [loopFrame] := by
  have hfew : ∀ i, Graph.frees i furnished refit < UInt32.size := fun i =>
    Nat.lt_of_le_of_lt (Graph.frees_le_length i refit furnished) (by decide)
  have hs : indoors.Underway := underway_onStage (.blank .standard ()) guest rfl
  have hgone : (furnished.run refit).indexed.get? ⟨2, 0⟩ = none := rfl
  obtain ⟨-, ⟨t, turn, hstep, hresumes, -⟩, -⟩ :
      indoors.entered.invocations .empty (Scheduler.create .standard).countBlock
        (furnished.run refit).indexed = [] ∧ _ :=
    dropped_of_edits (Graph.consistent_run _) hfew rfl hs rfl hgone
  -- the frame below is dropped as well, since its block is gone too
  have hrest : [Frame.start ⟨1, 0⟩ false, loopFrame].dropWhile
      (Scheduler.drops (furnished.run refit).indexed) = [loopFrame] := rfl
  have hloop := hresumes.again _ _ hrest rfl
  cases hloop
  exact ⟨rfl, rfl, _, hstep, rfl⟩

end Scene

end Stagecraft
