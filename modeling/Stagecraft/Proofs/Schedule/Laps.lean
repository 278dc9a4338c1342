import Stagecraft.Proofs.Schedule.Standing
import Stagecraft.Proofs.Schedule.Staged

/-!
# Counted loops

A counted loop reads its count once and keeps what is left of it on its frame. It starts its body,
and whatever the body does and however many turns it takes, the thread comes back to the frame
with the count that it has. So every round takes one off the count, and the loop is left when
nothing is left.

* `Execution.startsRound` : the block on a frame starts the stack inside it, or yields as there is
  none;
* `Execution.Lap` : what becomes of a loop and its count when a block is executed on its frame or
  above it;
* `Execution.Laps` : what an activation of a loop comes to;
* `Execution.laps_of_plays` : **a counted loop runs the right number of times**.
-/

namespace Stagecraft

/-- What is left of a count before a round. It is read where nothing is kept yet. -/
def Progress.remaining (p : Progress) (n : Int64) : Int64 :=
  match p with
  | .counting k => k
  | _ => n

/-- What is left of a positive count after a round. -/
theorem toInt_sub_one {k : Int64} (h : 0 < k) : (k - 1).toInt = k.toInt - 1 := by
  have hone : Int64.toInt 1 = 1 := rfl
  have hpos : 0 < k.toInt := Int64.lt_iff_toInt_lt.1 h
  have hmax : k.toInt ≤ 9223372036854775807 := k.toInt_le
  rw [Int64.toInt_sub, hone]
  exact Int.bmod_eq_of_le (by omega) (by omega)

/-- The frame of a counted loop, with so many rounds left. -/
def Frame.lap (f : Frame) (k : Int64) : Frame := { f with isLoop := true, progress := .counting k }

namespace Primitive

variable {σ : Type} {site : Site} {args : Args} {s : Scene σ} {f : Frame} {below : List Frame}

/-- What is left of the count when a loop is executed on a frame. -/
def roundsLeft (f : Frame) (args : Args) : Int64 :=
  f.progress.remaining (roundedCount (args.number "TIMES"))

theorem repeatTimes_eq (hs : s.thread.stack = f :: below) (hframe : site.frame = below.length) :
    repeatTimes site args s = loopIf (0 ≤ roundsLeft f args - 1) site
      { s with thread := { s.thread with
        stack := { f with progress := .counting (roundsLeft f args - 1) } :: below } } := by
  have hkeep : ∀ p, s.keep site p =
      { s with thread := { s.thread with stack := { f with progress := p } :: below } } :=
    fun p => by
    rw [Scene.keep, hframe, Thread.modifyFrame_top hs]
  have hprogress : s.progress? site = some f.progress := by
    rw [Scene.progress?, hframe, Thread.frameAt?_top hs]
    rfl
  unfold repeatTimes
  simp only [hprogress, hkeep]
  unfold roundsLeft Progress.remaining
  cases f.progress <;> rfl

/-- While rounds are left, the body is entered, or the thread yields where there is none. -/
theorem thread_repeatTimes_of_pos (hs : s.thread.stack = f :: below)
    (hframe : site.frame = below.length) (hpos : 0 < roundsLeft f args) :
    (repeatTimes site args s).thread = match site.graph.branch? f.block 1 with
      | some first => { s.thread with
          stack := .start first f.warp :: f.lap (roundsLeft f args - 1) :: below }
      | none => { s.thread with
          stack := f.lap (roundsLeft f args - 1) :: below
          status := .yielded } := by
  have hle : 0 ≤ roundsLeft f args - 1 := by grind
  rw [repeatTimes_eq hs hframe, loopIf, if_pos (decide_eq_true hle)]
  simp only [Scene.startBranch, Thread.enterBranch, Thread.topBlock?, List.head?_cons,
    Option.map_some, Thread.modifyTop]
  cases site.graph.branch? f.block 1 with
  | some first => rfl
  | none => rfl

/-- When none is left, control stays where it is. -/
theorem thread_repeatTimes_of_nonpos (hs : s.thread.stack = f :: below)
    (hframe : site.frame = below.length) (hle : roundsLeft f args ≤ 0)
    (hmin : Int64.minValue < roundsLeft f args) :
    (repeatTimes site args s).thread = { s.thread with
      stack := { f with progress := .counting (roundsLeft f args - 1) } :: below } := by
  have hneg : ¬ 0 ≤ roundsLeft f args - 1 := by grind
  rw [repeatTimes_eq hs hframe, loopIf, if_neg (by simpa only [decide_eq_true_eq] using hneg)]

end Primitive

namespace Execution

open Scene Thread Primitive

variable {σ : Type} {e e' : Execution σ} {L f : Frame} {below inner : List Frame} {k : Int64}
  {rest : List (Execution σ)}

/-- The block on the frame above so many others starts the stack inside it, or it yields as there is
none. -/
def startsRound (below : Nat) (e : Execution σ) : Bool :=
  match e.thread.stack, e.call? with
  | f :: rest, some i =>
    rest.length == below && match e.graph.branch? f.block 1 with
      | some first =>
        (i.result e.ext).1.thread.stack.map (·.block) == first :: f.block :: rest.map (·.block)
      | none => (i.result e.ext).1.thread.status == .yielded
  | _, _ => false

/-- How often the stack inside the block on a frame was started. -/
def rounds (below : Nat) (l : List (Execution σ)) : Nat := l.countP (startsRound below)

/-- What becomes of a loop with so many rounds left, when a block is executed on its frame or above
it. -/
inductive Lap (e : Execution σ) (f : Frame) (below : List Frame) (k : Int64) : Prop
  /-- Another block is executed, or an input of the loop. -/
  | inside : (e.thread.depth = below.length + 1 → e.call? = none) →
      (∃ inner, e.Keeps (f.lap k) below inner) → Lap e f below k
  /-- A round starts. -/
  | starts : 0 < k → e.startsRound below.length = true →
      (∃ inner, e.Keeps (f.lap (k - 1)) below inner) → Lap e f below k
  /-- The loop is over. -/
  | finished : k.toInt ≤ 0 → e.thread.depth = below.length + 1 →
      e.startsRound below.length = false → e.MovesPast → Lap e f below k
  /-- The script is left. -/
  | drops : e.thread.depth ≠ below.length + 1 → e.Drops below → Lap e f below k

theorem startsRound_of_depth {n : Nat} (h : e.thread.depth ≠ n + 1) : e.startsRound n = false := by
  unfold startsRound
  split
  · rename_i f rest i hs _
    have hlen : rest.length ≠ n := fun he => h (by rw [depth, hs, List.length_cons, he])
    simp [hlen]
  · rfl

theorem startsRound_of_call {n : Nat} (h : e.call? = none) : e.startsRound n = false := by
  unfold startsRound
  rw [h]
  split <;> first | rfl | contradiction

/-- What the primitive of a loop finds and leaves behind. -/
theorem result_of_repeat {i : Invocation σ} {F : Frame} (hs : e.thread.stack = F :: below)
    (hop : e.graph.opcode? F.block = some (.control .repeatTimes))
    (hg : e.graph.PlugsValues e.ext) (hcall : e.call? = some i) :
    i.site.graph = e.graph ∧ i.site.frame = below.length ∧
      i.result e.ext = (repeatTimes i.site i.args i.before, .done) ∧
      e.executed = ((repeatTimes i.site i.args i.before).forget below.length, none) ∧
      ∃ memo, i.before.thread = { e.entered.thread with
        stack := { F with reported := memo } :: below } := by
  have hran := ran_of_call hs hcall
  have hresult : i.result e.ext = (repeatTimes i.site i.args i.before, .done) := by
    rw [Invocation.result, Option.some.inj (hran.opcode.symm.trans hop)]
    rfl
  refine ⟨by rw [hran.site]; rfl, by rw [hran.site, frame_site hs], hresult, ?_, hran.before hs hg⟩
  rw [hran.executed, hresult, finish, frame_site hs]

/-- **The primitive of a loop starts a round while rounds are left**, and the thread moves past the
loop when none is. The least count is left out, as it wraps around when one is taken off. -/
theorem lap_of_call {i : Invocation σ} {F : Frame} (hs : e.thread.stack = F :: below)
    (hF : ∃ loop memo p, F = { f with isLoop := loop, reported := memo, progress := p })
    (hop : e.graph.opcode? F.block = some (.control .repeatTimes))
    (hg : e.graph.PlugsValues e.ext) (hrunning : e.thread.status = .running)
    (hcall : e.call? = some i) (hmin : Int64.minValue < roundsLeft F i.args) :
    Lap e f below (roundsLeft F i.args) := by
  obtain ⟨hgraph, hframe, hresult, hx, memo, hbefore⟩ := result_of_repeat hs hop hg hcall
  have hstack : i.before.thread.stack = { F with reported := memo } :: below := by rw [hbefore]
  have hstatus : i.before.thread.status = .running := by
    rw [hbefore, ← hrunning]
    exact e.status_entered
  have hleft : roundsLeft { F with reported := memo } i.args = roundsLeft F i.args := rfl
  have hlap : ∀ k,
      ({ ({ F with reported := memo } : Frame).lap k with reported := .empty } : Frame) =
      { f.lap k with reported := .empty } := fun k => by
    obtain ⟨loop, m, p, rfl⟩ := hF
    rfl
  generalize hk : roundsLeft F i.args = k at hleft hmin ⊢
  by_cases hpos : 0 < k
  · -- a round is left
    have hthread := thread_repeatTimes_of_pos hstack hframe (hleft.symm ▸ hpos)
    rw [hleft, hgraph,
      show ({ F with reported := memo } : Frame).block = F.block from rfl] at hthread
    have hstart : e.startsRound below.length = true := by
      simp only [startsRound, hs, hcall, hresult, beq_self_eq_true, Bool.true_and, hthread]
      cases e.graph.branch? F.block 1 with
      | some first => simp [Frame.lap, Frame.start]
      | none => rfl
    refine .starts hpos hstart ?_
    cases hbranch : e.graph.branch? F.block 1 with
    | some first =>
      rw [hbranch] at hthread
      have hholds : ((repeatTimes i.site i.args i.before).forget below.length).thread.Holds
          (f.lap (k - 1)) below [.start first F.warp] := by
        refine ⟨⟨.empty, ?_⟩, fun _ => rfl, fun hi => by cases hi⟩
        rw [forget, hthread, modifyFrame_append [Frame.start first F.warp] rfl]
        simp only [hlap]
      exact ⟨_, keeps_of_executed hs hx hholds (.inl (by simp))⟩
    | none =>
      rw [hbranch] at hthread
      refine ⟨[], keeps_of_executed hs hx ⟨⟨.empty, ?_⟩, fun hi => absurd rfl hi, fun _ hp => ?_⟩
        (.inr ?_)⟩
      all_goals rw [forget, hthread, modifyFrame_top rfl] at *
      · simp only [hlap, List.nil_append]
      · cases hp
      · simp
  · -- nothing is left
    have hthread := thread_repeatTimes_of_nonpos hstack hframe
      (hleft.symm ▸ Int64.not_lt.1 hpos) (hleft.symm ▸ hmin)
    have hforget : ((repeatTimes i.site i.args i.before).forget below.length).thread =
        { i.before.thread with stack := { F with
          reported := .empty
          progress := .counting (k - 1) } :: below } := by
      rw [forget, hthread, modifyFrame_top rfl, hleft]
    refine .finished (Int64.le_iff_toInt_le.1 (Int64.not_lt.1 hpos)) (by rw [depth, hs]; rfl) ?_
      (movesPast_of_executed hs hx (by rw [hforget]; exact hstatus) (by rw [hforget]; rfl))
    simp only [startsRound, hs, hcall, hresult, beq_self_eq_true, Bool.true_and, hthread, hstatus]
    cases e.graph.branch? F.block 1 <;> simp

/-- **A block on the frame of a loop or above it** leaves the count as it is, or takes one off it.
-/
theorem lap_of_holds (hext : e.ext.Regular) (hg : e.graph.PlugsValues e.ext)
    (hop : e.graph.opcode? f.block = some (.control .repeatTimes))
    (hrunning : e.thread.status = .running) (hmin : Int64.minValue < k)
    (h : e.thread.Holds (f.lap k) below inner) : Lap e f below k := by
  by_cases hi : inner = []
  · subst hi
    obtain ⟨memo, hs⟩ := h.stack
    rw [List.nil_append] at hs
    cases hcall : e.call? with
    | none => exact .inside (fun _ => hcall) ⟨[], keeps_unrun hs hop hg hcall⟩
    | some i => exact lap_of_call hs ⟨_, _, _, rfl⟩ hop hg hrunning hcall hmin
  · have hblock : e.graph.opcode? (f.lap k).block ≠ some (.procedure .call) := by
      rw [show (f.lap k).block = f.block from rfl, hop]
      simp
    have hdepth : e.thread.depth ≠ below.length + 1 := by
      obtain ⟨memo, hs⟩ := h.stack
      have hpos := List.length_pos_iff.2 hi
      rw [depth, hs, List.length_append, List.length_cons]
      omega
    rcases keeps_above hext hg hblock h hi with ⟨x, xs, hkeeps⟩ | hdrops
    · exact .inside (fun hd => absurd hd hdepth) ⟨_, hkeeps⟩
    · exact .drops hdepth hdrops

/-! ### All rounds -/

/-- What an activation of a loop with so many rounds comes to: with the blocks of its thread that
are executed after the first one on its frame or above it, and those that are executed later. -/
structure Laps (f : Frame) (below : List Frame) (n : Int) (first : Execution σ)
    (loop rest : List (Execution σ)) : Prop where
  /-- All along the frame is on the stack, and what is below it stays as it is. -/
  holds : ∀ x ∈ loop, ∃ k inner, x.thread.Holds (f.lap k) below inner
  /-- Its primitive starts a round while not all are done, and then the thread moves past it. -/
  each : ∀ before x after i, first :: loop = before ++ x :: after →
    x.thread.depth = below.length + 1 → x.call? = some i →
      rounds below.length before < n.toNat ∧ x.startsRound below.length = true ∨
        rounds below.length before = n.toNat ∧ x.MovesPast ∧ after = []
  /-- There are no more rounds. -/
  le : rounds below.length (first :: loop) ≤ n.toNat
  /-- It is over when all rounds are done, or the thread starts over, or its script is left. -/
  next : ∀ last ∈ (first :: loop).getLast?, ∀ x ∈ rest.head?,
    rounds below.length (first :: loop) = n.toNat ∧ last.MovesPast ∨ x.thread.Anew ∨
      last.Drops below

theorem rounds_cons (n : Nat) (x : Execution σ) (l : List (Execution σ)) :
    rounds n (x :: l) = rounds n l + rounds n [x] := by
  simp [rounds, List.countP_cons]

/-- The loop goes on after a block, with the rounds that are left then. -/
theorem Lap.keeps (h : Lap e f below k) :
    (∃ k' inner, k.toInt.toNat = k'.toInt.toNat + rounds below.length [e] ∧
      (Int64.minValue < k → Int64.minValue < k') ∧ e.Keeps (f.lap k') below inner ∧
      ∀ i, e.thread.depth = below.length + 1 → e.call? = some i →
        0 < k.toInt.toNat ∧ e.startsRound below.length = true) ∨
    rounds below.length [e] = 0 ∧ (k.toInt ≤ 0 ∧ e.MovesPast ∨
      e.thread.depth ≠ below.length + 1 ∧ e.Drops below) := by
  cases h with
  | inside hunrun hkeeps =>
    obtain ⟨inner, hkeeps⟩ := hkeeps
    have hnone : e.startsRound below.length = false := by
      by_cases hd : e.thread.depth = below.length + 1
      · exact startsRound_of_call (hunrun hd)
      · exact startsRound_of_depth hd
    refine .inl ⟨k, inner, by simp [rounds, hnone], id, hkeeps, fun i hd hcall => ?_⟩
    cases (hunrun hd).symm.trans hcall
  | starts hpos hstart hkeeps =>
    obtain ⟨inner, hkeeps⟩ := hkeeps
    have hsub : (k - 1).toInt = k.toInt - 1 := toInt_sub_one hpos
    have hk : 0 < k.toInt := Int64.lt_iff_toInt_lt.1 hpos
    refine .inl ⟨k - 1, inner, ?_, fun _ => by grind, hkeeps, fun _ _ _ => ⟨by omega, hstart⟩⟩
    simp only [rounds, List.countP_cons, hstart, List.countP_nil, if_true]
    omega
  | finished hk _ hnone hpast => exact .inr ⟨by simp [rounds, hnone], .inl ⟨hk, hpast⟩⟩
  | drops hd hdrops => exact .inr ⟨by simp [rounds, startsRound_of_depth hd], .inr ⟨hd, hdrops⟩⟩

/-- A loop in which no other block is executed after the first one. -/
theorem laps_nil {n : Int} (hround : ∀ i, e.thread.depth = below.length + 1 → e.call? = some i →
      0 < n.toNat ∧ e.startsRound below.length = true ∨ n.toNat = 0 ∧ e.MovesPast)
    (hle : rounds below.length [e] ≤ n.toNat)
    (hnext : ∀ x ∈ rest.head?, rounds below.length [e] = n.toNat ∧ e.MovesPast ∨ x.thread.Anew ∨
      e.Drops below) : Laps f below n e [] rest where
  holds _ hx := by cases hx
  each before x after i happend hd hcall := by
    rcases List.singleton_eq_append_iff.1 happend with ⟨rfl, h⟩ | ⟨-, h⟩ <;> cases h
    exact (hround i hd hcall).imp_right fun h => ⟨h.1.symm, h.2, rfl⟩
  le := hle
  next last hlast x hx := by
    cases hlast
    exact hnext x hx

/-- A loop that goes on after its first block. -/
theorem Laps.cons {n n' : Int} {k' : Int64} {loop : List (Execution σ)}
    (h : Laps f below n' e' loop rest)
    (hk : n.toNat = n'.toNat + rounds below.length [e])
    (hround : ∀ i, e.thread.depth = below.length + 1 → e.call? = some i →
      0 < n.toNat ∧ e.startsRound below.length = true)
    (hholds : e'.thread.Holds (f.lap k') below inner) : Laps f below n e (e' :: loop) rest where
  holds x hx := by
    rcases List.mem_cons.1 hx with rfl | hx
    · exact ⟨k', inner, hholds⟩
    · exact h.holds x hx
  each before x after i happend hd hcall := by
    cases before with
    | nil =>
      obtain ⟨rfl, -⟩ := List.cons.inj happend
      exact .inl (hround i hd hcall)
    | cons y before =>
      obtain ⟨rfl, htail⟩ := List.cons.inj happend
      have heach := h.each before x after i htail hd hcall
      rw [rounds_cons, hk]
      exact heach.imp (.imp_left fun hlt => by omega) (.imp_left fun he => by omega)
  le := by
    have hle := h.le
    rw [rounds_cons]
    omega
  next last hlast x hx := by
    have hnext := h.next last (by simpa using hlast) x hx
    rw [rounds_cons, hk]
    exact hnext.imp_left (.imp_left fun he => by omega)

/-- **One round after the other**, by induction on the blocks of the thread. -/
theorem exists_laps {g : Graph} (hop : g.opcode? f.block = some (.control .repeatTimes)) :
    ∀ (later : List (Execution σ)) {e : Execution σ}
    {k : Int64}, Int64.minValue < k → Lap e f below k → (e :: later).IsChain Next →
      (∀ x ∈ later, x.graph = g ∧ x.ext.Regular ∧ g.PlugsValues x.ext ∧
        x.thread.status = .running) →
      ∃ loop rest, later = loop ++ rest ∧ Laps f below k.toInt e loop rest := by
  intro later
  induction later with
  | nil =>
    intro e k _ hlap _ _
    refine ⟨[], [], rfl, laps_nil (fun i hd hcall => ?_) ?_ fun x hx => (by cases hx)⟩
    all_goals rcases hlap.keeps with ⟨k', inner, hk, -, -, hround⟩ |
      ⟨hnone, ⟨hk, hpast⟩ | ⟨hne, -⟩⟩
    · exact .inl (hround i hd hcall)
    · exact .inr ⟨by omega, hpast⟩
    · exact absurd hd hne
    · omega
    · omega
    · omega
  | cons e' later ih =>
    intro e k hmin hlap hchain hall
    obtain ⟨hnext, hchain'⟩ := List.isChain_cons_cons.1 hchain
    rcases hlap.keeps with ⟨k', inner, hk, hmin', hkeeps, hround⟩ | ⟨hnone, hover⟩
    · rcases hnext.holds hkeeps with hanew | ⟨inner', hholds, -⟩
      · refine ⟨[], e' :: later, rfl, laps_nil (fun i hd hcall => .inl (hround i hd hcall))
          (by omega) fun x hx => ?_⟩
        cases hx
        exact .inr (.inl hanew)
      · obtain ⟨hgraph, hregular, hg, hrunning⟩ := hall e' (List.mem_cons_self ..)
        have hlap' :=
          lap_of_holds hregular (hgraph ▸ hg) (hgraph ▸ hop) hrunning (hmin' hmin) hholds
        obtain ⟨loop, rest, rfl, hlaps⟩ :=
          ih (hmin' hmin) hlap' hchain' fun x hx => hall x (List.mem_cons_of_mem _ hx)
        exact ⟨e' :: loop, rest, rfl, hlaps.cons hk hround hholds⟩
    · refine ⟨[], e' :: later, rfl, laps_nil (fun i hd hcall => ?_) (by omega) fun x hx => ?_⟩
      all_goals rcases hover with ⟨hk, hpast⟩ | ⟨hne, hdrops⟩
      · exact .inr ⟨by omega, hpast⟩
      · exact absurd hd hne
      · exact .inl ⟨by omega, hpast⟩
      · exact .inr (.inr hdrops)

/-- **A counted loop runs the right number of times.** An activation of the loop begins where its
primitive is run and nothing is kept yet: there the count is read. From then on its rounds start
one by one, whatever is executed in them and in however many turns, until as many have started.
Then the thread moves past the loop. Only the least count of 64 bits is left out. -/
theorem laps_of_plays {ext : Extensions σ} {w w' : World σ} {l : List (Execution σ)}
    {P : Extensions σ → Prop} {g : Graph} {front later : List (Execution σ)}
    {i : Invocation σ} (hw : w.Reachable) (h : Plays P w l w')
    (hP : ∀ ext, P ext → ext.Orderly ∧ ext.Regular ∧ g.PlugsValues ext) (hext : P ext) (fuel : Nat)
    (id : ThreadId) (hrun : own id (l ++ ofStep ext fuel w') = front ++ e :: later)
    (hgraph : ∀ x ∈ e :: later, x.graph = g) (hs : e.thread.stack = f :: below)
    (hop : g.opcode? f.block = some (.control .repeatTimes))
    (hfresh : ∀ k, f.progress ≠ .counting k) (hcall : e.call? = some i)
    (hmin : Int64.minValue < roundedCount (i.args.number "TIMES")) :
    ∃ loop rest, later = loop ++ rest ∧
      Laps f below (roundedCount (i.args.number "TIMES")).toInt e loop rest := by
  obtain ⟨hchain, hstaged⟩ := tail_of_plays hw h (fun ext hp => (hP ext hp).1) hext fuel id hrun
  have hall : ∀ x ∈ e :: later, x.graph = g ∧ x.ext.Regular ∧ g.PlugsValues x.ext ∧
      x.thread.status = .running := by
    intro x hx
    obtain ⟨hp, hst⟩ := hstaged x hx
    exact ⟨hgraph x hx, (hP _ hp).2.1, (hP _ hp).2.2, hst.running⟩
  obtain ⟨he, -, hg, hrunning⟩ := hall e (List.mem_cons_self ..)
  have hcount : roundsLeft f i.args = roundedCount (i.args.number "TIMES") := by
    unfold roundsLeft Progress.remaining
    cases hp : f.progress with
    | counting k => exact absurd hp (hfresh k)
    | _ => rfl
  rw [← hcount] at hmin ⊢
  have hlap : Lap e f below (roundsLeft f i.args) :=
    lap_of_call hs ⟨f.isLoop, f.reported, f.progress, rfl⟩ (he ▸ hop) (he ▸ hg) hrunning hcall hmin
  exact exists_laps hop later hmin hlap hchain fun x hx => hall x (List.mem_cons_of_mem _ hx)

end Execution

namespace World

open Execution

/-- A loop of two rounds around another block. -/
def twice : Graph :=
  Graph.empty.run
    [.create { Block.detached "repeat" (.control .repeatTimes) with
        inputs := (Table.empty.insert "TIMES" (.literal (.text "2"))).insert "SUBSTACK"
          (.branch ⟨1, 0⟩)
        topLevel := true },
      .create { Block.detached "hide" (.looks .hide) with parent := some ⟨0, 0⟩ }]

/-- The script has been started. -/
def twiceWorld : World Unit :=
  (((blank .standard ()).addSprite "Cat" twice).1.pushThread 0 ⟨0, 0⟩).1

theorem reachable_twiceWorld : twiceWorld.Reachable := by
  have hactor : ((blank .standard ()).addSprite "Cat" twice).1.Reachable :=
    (Reachable.blank Settings.standard ()).deed (.tend rfl rfl rfl rfl)
  exact hactor.deed (.pushThread _ 0 ⟨0, 0⟩)

theorem regular_empty : Extensions.Regular (.empty : Extensions Unit) :=
  fun _ _ hget => by cases hget

/-- The count of two is read in the first step, and two rounds follow it. -/
theorem laps_of_plays_twice : twiceWorld.Reachable ∧
    Execution.Plays (· = .empty) twiceWorld [] twiceWorld ∧ ∃ e later i f,
      own 1 ([] ++ ofStep .empty 9 twiceWorld) = [] ++ e :: later ∧
      e.thread.stack = [f] ∧ f.block = ⟨0, 0⟩ ∧ f.progress = .fresh ∧
      e.call? = some i ∧ i.args = ⟨[("TIMES", .text "2")]⟩ ∧ ∃ loop rest, later = loop ++ rest ∧
        Laps f [] 2 e loop rest := by
  have hfirst : (own 1 (ofStep .empty 9 twiceWorld)).head?.map (fun e =>
      (e.thread.stack.map fun f => (f.block, f.progress), e.call?.map (·.args))) =
        some ([(⟨0, 0⟩, .fresh)], some ⟨[("TIMES", .text "2")]⟩) := by
    decide +kernel
  have hop : twice.indexed.opcode? ⟨0, 0⟩ = some (.control .repeatTimes) := by decide +kernel
  obtain ⟨e, he, hstart⟩ := Option.map_eq_some_iff.1 hfirst
  obtain ⟨hstack, hargs⟩ := Prod.mk.inj hstart
  obtain ⟨f, hs, hf⟩ := List.map_eq_singleton_iff.1 hstack
  obtain ⟨hblock, hfresh⟩ := Prod.mk.inj hf
  obtain ⟨i, hcall, hi⟩ := Option.map_eq_some_iff.1 hargs
  obtain ⟨later, hown⟩ := List.head?_eq_some_iff.1 he
  have hplugs : twice.indexed.PlugsReporters := Graph.plugsReporters_of_check (by decide +kernel)
  have hprogram : twiceWorld.Programmed fun _ => twice.indexed := fun e he => by
    rw [List.mem_singleton.1 he]
  have hgraph : ∀ x ∈ e :: later, x.graph = twice.indexed := fun x hx => by
    have hmem := ((diary Unit).mem_own.1 (hown ▸ hx)).1
    obtain ⟨-, hg⟩ := graph_ofStep (settled_of_reachable reachable_twiceWorld) hprogram 9 x hmem
    exact hg
  have hP : ∀ ext : Extensions Unit, ext = .empty →
      ext.Orderly ∧ ext.Regular ∧ twice.indexed.PlugsValues ext := fun ext hp => by
    subst hp
    exact ⟨orderly_empty, regular_empty, hplugs.plugsValues Extensions.spares_empty⟩
  have hplays : Execution.Plays (· = .empty) twiceWorld [] twiceWorld := .nil _
  have hrun : own 1 ([] ++ ofStep .empty 9 twiceWorld) = [] ++ e :: later := hown
  have hcount : Primitive.roundedCount (i.args.number "TIMES") = 2 := by
    rw [hi]
    decide +kernel
  have hlaps := laps_of_plays reachable_twiceWorld hplays hP rfl 9 1 hrun hgraph hs (hblock ▸ hop)
    (fun k hk => by cases hfresh.symm.trans hk) hcall (hcount ▸ by decide)
  rw [hcount] at hlaps
  exact ⟨reachable_twiceWorld, hplays, e, later, i, f, hrun, hs, hblock, hfresh, hcall, hi, hlaps⟩

end World

end Stagecraft
