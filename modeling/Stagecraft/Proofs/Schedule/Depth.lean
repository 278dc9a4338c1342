import Stagecraft.Proofs.Cast.Programs
import Stagecraft.Proofs.Cast.Show
import Stagecraft.Proofs.Schedule.Binding
import Stagecraft.Proofs.Schedule.Route

/-!
# How deep stacks get

A procedure that calls itself puts one frame after the other on the stack. Calls are refused where
the stack is too deep, but stacks inside blocks are entered however deep it is. They are parts of
the program, though: above the last call each frame stands in a branch of the block below it, and a
frame that moves on stays in its branch. So the program says how much higher the stack can get.

* `Graph.Inside`, `Graph.Nests` : blocks in branches of a block, and how deep they are nested;
* `Layered` : each frame above the first was called in time or stands in a branch of the one below;
* `Layered.confined` : **so the stack is not too high**;
* `Scene.Works.layered`, `Scene.Tidies.layered` : a primitive and the scheduler keep to this;
* `World.confined_of_show` : **stacks are not too high at any time**.
-/

namespace Stagecraft

/-! ### Branches -/

namespace Graph

/-- A block stands in a branch of another: first in it, or later in the chain. -/
def Inside (g : Graph) (b c : Handle) : Prop :=
  ∃ n first, g.branch? b n = some first ∧
    Relation.ReflTransGen (fun x y => g.next? x = some y) first c

/-- Branches are nested `d` deep at most. -/
def Nests (g : Graph) (d : Nat) : Prop :=
  ∀ l : List Handle, l.IsChain (fun c b => g.Inside b c) → l.length ≤ d + 1

/-- Each block has a rank below those of the blocks in whose inputs it stands, and successors have
no higher one. -/
def ranked (g : Graph) (rank : Handle → Nat) : Bool :=
  g.handles.all fun h => (g.get? h).all fun b =>
    (b.inputs.entries.all fun e => e.2.block?.all fun c => decide (rank c < rank h)) &&
      b.next.all fun c => decide (rank c ≤ rank h)

variable {g : Graph} {rank : Handle → Nat} {b c : Handle} {d : Nat}

/-- A rank goes down into branches. -/
theorem rank_lt_of_inside (hr : g.ranked rank = true) (h : g.Inside b c) : rank c < rank b := by
  have hall := List.all_eq_true.1 hr
  have hblock : ∀ {h : Handle} {x : Block}, g.get? h = some x →
      (∀ e ∈ x.inputs.entries, ∀ c, e.2.block? = some c → rank c < rank h) ∧
        ∀ c, x.next = some c → rank c ≤ rank h := by
    intro h x hx
    have hcheck := hall h (mem_handles hx)
    simpa [hx, Option.all_eq_true] using hcheck
  obtain ⟨n, first, hfirst, hchain⟩ := h
  have hlt : rank first < rank b := by
    obtain ⟨hbranch, -⟩ := Option.filter_eq_some_iff.1 hfirst
    obtain ⟨input, hinput, hc⟩ := Option.bind_eq_some_iff.1 hbranch
    obtain ⟨x, hx, hget⟩ := Option.bind_eq_some_iff.1 hinput
    exact (hblock hx).1 _ ((Table.get?_eq_some_iff _ _ _).1 hget) _ hc
  induction hchain with
  | refl => exact hlt
  | tail _ hnext ih =>
    obtain ⟨x, hx, hn⟩ := Option.bind_eq_some_iff.1 hnext
    exact Nat.lt_of_le_of_lt ((hblock hx).2 _ hn) ih

/-- **Branches are not nested deeper than ranks are high.** -/
theorem nests_of_ranked (rank : Handle → Nat) (hr : g.ranked rank = true)
    (hd : ∀ h, rank h ≤ d) : g.Nests d := by
  have hchain : ∀ (l : List Handle) (c : Handle),
      (c :: l).IsChain (fun c b => g.Inside b c) → rank c + l.length ≤ d := by
    intro l
    induction l with
    | nil => exact fun c _ => hd c
    | cons b l ih =>
      intro c h
      obtain ⟨hinside, hrest⟩ := List.isChain_cons_cons.1 h
      have hlt := rank_lt_of_inside hr hinside
      have hle := ih b hrest
      rw [List.length_cons]
      omega
  intro l hl
  cases l with
  | nil => exact Nat.zero_le _
  | cons c l =>
    have hle := hchain l c hl
    rw [List.length_cons]
    omega

/-- Whatever follows a block in a branch is in the branch. -/
theorem Inside.next (h : g.Inside b c) {n : Handle} (hn : g.next? c = some n) : g.Inside b n := by
  obtain ⟨k, first, hfirst, hchain⟩ := h
  exact ⟨k, first, hfirst, hchain.tail hn⟩

theorem inside_of_branch? {n : Nat} (h : g.branch? b n = some c) : g.Inside b c :=
  ⟨n, c, h, .refl⟩

end Graph

/-! ### Layers -/

/-- Each frame above the first is the body of a procedure, called on a stack that was not too deep,
or it stands in a branch of the block below it. -/
inductive Layered (g : Graph) (m : Nat) : List Frame → Prop
  | nil : Layered g m []
  | bottom (f : Frame) : Layered g m [f]
  | call {f below : Frame} {rest : List Frame} : Layered g m (below :: rest) →
      (below :: rest).length < m → f.arguments.isSome = true → Layered g m (f :: below :: rest)
  | branch {f below : Frame} {rest : List Frame} : Layered g m (below :: rest) →
      f.arguments = none → g.Inside below.block f.block → Layered g m (f :: below :: rest)

/-- A frame for the same block, with arguments if the other one has some. -/
structure Frame.Like (f f' : Frame) : Prop where
  block : f'.block = f.block
  arguments : f'.arguments = none ↔ f.arguments = none

/-- A stack that is not too high, at whose top each frame stands in a branch of the one below it. -/
structure Thread.Confined (g : Graph) (m d : Nat) (t : Thread) : Prop where
  depth : t.depth ≤ max 1 m + d
  branch : ∀ i f, max 1 m ≤ i → t.frameAt? i = some f → f.arguments = none ∧
    ∃ below, t.frameAt? (i - 1) = some below ∧ g.Inside below.block f.block

namespace Layered

variable {g : Graph} {m d : Nat} {f f' : Frame} {l l' rest : List Frame}

theorem of_short (h : l.length ≤ 1) : Layered g m l := by
  match l, h with
  | [], _ => exact .nil
  | [f], _ => exact .bottom f

theorem tail (h : Layered g m (f :: rest)) : Layered g m rest := by
  cases h with
  | bottom => exact .nil
  | call h _ _ => exact h
  | branch h _ _ => exact h

/-- Frames are popped. -/
theorem suffix (h : Layered g m l) (hs : l' <:+ l) : Layered g m l' := by
  induction l with
  | nil =>
    rw [List.suffix_nil.1 hs]
    exact .nil
  | cons f rest ih =>
    rcases List.suffix_cons_iff.1 hs with rfl | hs
    · exact h
    · exact ih h.tail hs

/-- Something is noted in frames. -/
theorem congr (h : Layered g m l) (hl : List.Forall₂ Frame.Like l l') : Layered g m l' := by
  induction h generalizing l' with
  | nil =>
    cases hl
    exact .nil
  | bottom f =>
    cases hl with
    | cons _ hrest =>
      cases hrest
      exact .bottom _
  | call _ hm ha ih =>
    cases hl with
    | cons hf hrest =>
      have hlen := hrest.length_eq
      have hbelow := ih hrest
      cases hrest with
      | cons _ _ =>
        refine .call hbelow (hlen ▸ hm) ?_
        rw [← Option.ne_none_iff_isSome] at ha ⊢
        exact fun hn => ha (hf.arguments.1 hn)
  | branch _ ha hi ih =>
    cases hl with
    | cons hf hrest =>
      have hbelow := ih hrest
      cases hrest with
      | cons hb _ =>
        refine .branch hbelow (hf.arguments.2 ha) ?_
        rw [hf.block, hb.block]
        exact hi

/-- The top frame moves on. -/
theorem reuse (h : Layered g m (f :: rest)) {n : Handle} (hn : g.next? f.block = some n) :
    Layered g m (f.reuse n :: rest) := by
  cases h with
  | bottom => exact .bottom _
  | call h hm ha => exact .call h hm ha
  | branch h ha hi => exact .branch h ha (hi.next hn)

/-- A procedure is entered where there is room. -/
theorem enter (h : Layered g m l) (hm : l.length < m) (hf : f.arguments.isSome = true) :
    Layered g m (f :: l) := by
  cases l with
  | nil => exact .bottom f
  | cons below rest => exact .call h hm hf

/-- Blocks in branches of each other are on top of what calls can reach. -/
theorem chain (h : Layered g m (f :: rest)) : ∃ l : List Handle,
    (f.block :: l).IsChain (fun c b => g.Inside b c) ∧
      (f :: rest).length ≤ max 1 m + l.length := by
  generalize hstack : f :: rest = stack at h
  induction h generalizing f rest with
  | nil => cases hstack
  | bottom f' =>
    cases hstack
    exact ⟨[], List.isChain_singleton _, Nat.le_max_left 1 m⟩
  | call _ hm _ =>
    -- the chain starts over: what is below the last call is within the limit
    cases hstack
    exact ⟨[], List.isChain_singleton _, Nat.le_trans hm (Nat.le_max_right 1 m)⟩
  | @branch _ below _ _ _ hi ih =>
    cases hstack
    obtain ⟨l, hl, hlen⟩ := ih rfl
    refine ⟨below.block :: l, List.isChain_cons_cons.2 ⟨hi, hl⟩, ?_⟩
    rw [List.length_cons, List.length_cons]
    exact Nat.succ_le_succ hlen

/-- **The stack is not too high.** -/
theorem length_le (h : Layered g m l) (hd : g.Nests d) : l.length ≤ max 1 m + d := by
  cases l with
  | nil => exact Nat.zero_le _
  | cons f rest =>
    obtain ⟨blocks, hchain, hlen⟩ := h.chain
    have hle := hd _ hchain
    rw [List.length_cons] at hle
    omega

/-- Where calls cannot reach, a frame stands in a branch of the one below it. -/
theorem branch_of_getElem? (h : Layered g m l) {j : Nat} (hf : l[j]? = some f)
    (hj : max 1 m + j < l.length) :
    f.arguments = none ∧ ∃ f', l[j + 1]? = some f' ∧ g.Inside f'.block f.block := by
  induction h generalizing j with
  | nil => cases hf
  | bottom _ => simp only [List.length_singleton] at hj; omega
  | @call _ _ rest _ hm _ ih =>
    cases j with
    | zero =>
      rw [List.length_cons] at hj
      omega
    | succ j => exact ih hf (by rw [List.length_cons] at hj; omega)
  | @branch _ below _ _ ha hi ih =>
    cases j with
    | zero =>
      cases hf
      exact ⟨ha, below, rfl, hi⟩
    | succ j => exact ih hf (by rw [List.length_cons] at hj; omega)

theorem confined {t : Thread} (h : Layered g m t.stack) (hd : g.Nests d) : t.Confined g m d := by
  refine ⟨h.length_le hd, fun i f hi hf => ?_⟩
  unfold Thread.frameAt? at hf ⊢
  split at hf
  · rename_i hlt
    obtain ⟨ha, f', hf', hinside⟩ := h.branch_of_getElem? hf (by omega)
    refine ⟨ha, f', ?_, hinside⟩
    rw [if_pos (by omega), ← hf']
    congr 1
    omega
  · cases hf

end Layered

/-! ### What is done to a thread -/

theorem forall₂_like_modify {f : Frame → Frame} (hf : ∀ x, Frame.Like x (f x)) (n : Nat) :
    ∀ l : List Frame, List.Forall₂ Frame.Like l (l.modify n f) := by
  have hrefl : ∀ l : List Frame, List.Forall₂ Frame.Like l l := fun l =>
    List.forall₂_same.2 fun _ _ => ⟨rfl, .rfl⟩
  induction n with
  | zero =>
    intro l
    cases l with
    | nil => exact .nil
    | cons x rest => exact .cons (hf x) (hrefl rest)
  | succ n ih =>
    intro l
    cases l with
    | nil => exact .nil
    | cons x rest => exact .cons ⟨rfl, .rfl⟩ (ih rest)

namespace Thread

variable {g : Graph} {m : Nat} {t t' : Thread}

theorem layered_modifyFrame (h : Layered g m t.stack) {f : Frame → Frame}
    (hf : ∀ x, Frame.Like x (f x)) (n : Nat) : Layered g m (t.modifyFrame n f).stack := by
  unfold modifyFrame
  split
  · exact h.congr (forall₂_like_modify hf _ _)
  · exact h

theorem layered_modifyTop (h : Layered g m t.stack) {f : Frame → Frame}
    (hf : ∀ x, Frame.Like x (f x)) : Layered g m (t.modifyTop f).stack := by
  have hmodify := h.congr (forall₂_like_modify hf 0 _)
  unfold modifyTop
  split
  · rename_i top rest hstack
    rw [hstack] at hmodify
    exact hmodify
  · exact h

theorem layered_enterBranch (h : Layered g m t.stack) (n : Nat) (isLoop : Bool) :
    Layered g m (t.enterBranch g n isLoop).stack := by
  unfold enterBranch
  cases hstack : t.stack with
  | nil =>
    simp only [topBlock?, hstack, List.head?_nil, Option.map_none]
    exact .nil
  | cons f rest =>
    simp only [topBlock?, hstack, List.head?_cons, Option.map_some, modifyTop]
    have hlike : Layered g m ({ f with isLoop := isLoop } :: rest) :=
      (hstack ▸ h).congr (.cons ⟨rfl, .rfl⟩ (List.forall₂_same.2 fun _ _ => ⟨rfl, .rfl⟩))
    split
    · rename_i first hfirst
      exact .branch hlike rfl (Graph.inside_of_branch? hfirst)
    · split <;> exact hlike

/-- A call puts one frame with arguments on a stack that is not too deep. -/
theorem stack_enterProcedure {k : Scheduler} {now : Span} {code : String}
    {supplied : Table String Value} (h : k.enterProcedure now g t code supplied = (t', .entered)) :
    t.stack.length < k.maxCallDepth ∧
      ∃ f, t'.stack = f :: t.stack ∧ f.arguments.isSome = true := by
  rcases Scheduler.enterProcedure_cases g code supplied with
    hunknown | ⟨definition, arguments, warp, -, henter⟩
  · rw [hunknown] at h
    cases h
  · rw [henter] at h
    split at h
    · cases h
    · rename_i hdepth
      obtain ⟨fast, status, hsettle⟩ := Scheduler.exists_settleCall k now warp
        (t.isRecursiveCall g code) (t := t.enterBody definition arguments) rfl
      rw [hsettle] at h
      cases h
      exact ⟨Nat.lt_of_not_le hdepth, _, rfl, rfl⟩

theorem layered_of_advanced {k : Scheduler} {now : Span} {r : Thread × Turn}
    (ha : k.Advanced now g t r) (h : Layered g m t.stack) : Layered g m r.1.stack := by
  cases ha with
  | empty => exact h
  | next hs hn => exact (h.suffix hs).reuse hn
  | loop hs => exact h.suffix (hs.trans (List.tail_suffix _))
  | emptied => exact .nil

theorem layered_restart (t : Thread) : Layered g m t.restart.stack := by
  refine .of_short ?_
  unfold restart
  split <;> simp

/-- **A thread that is shifted keeps to its layers.** -/
theorem Shift.layered {site : Site} (h : t.Shift site t')
    (hl : Layered site.graph site.scheduler.maxCallDepth t.stack) :
    Layered site.graph site.scheduler.maxCallDepth t'.stack := by
  cases h with
  | keep p =>
    refine layered_modifyFrame hl ?_ site.frame
    exact fun _ => ⟨rfl, .rfl⟩
  | yield => exact hl
  | branch n isLoop => exact layered_enterBranch hl n isLoop
  | call h =>
    obtain ⟨hm, f, hstack, hf⟩ := stack_enterProcedure h
    rw [hstack]
    exact hl.enter hm hf
  | warp =>
    refine layered_modifyTop hl ?_
    exact fun _ => ⟨rfl, .rfl⟩

end Thread

namespace Scene

variable {σ : Type} {site : Site} {op : Opcode} {s s' : Scene σ}

theorem Performs.layered (h : Performs site op s s')
    (hl : Layered site.graph site.scheduler.maxCallDepth s.thread.stack) :
    Layered site.graph site.scheduler.maxCallDepth s'.thread.stack := by
  induction h with
  | refl => exact hl
  | tail _ hd ih =>
    cases hd with
    | shift ht => exact ht.layered ih
    | _ => exact ih

/-- **So does one that runs a primitive.** -/
theorem Works.layered (h : Works site op s s')
    (hl : Layered site.graph site.scheduler.maxCallDepth s.thread.stack) :
    Layered site.graph site.scheduler.maxCallDepth s'.thread.stack := by
  obtain ⟨s₁, hp, hq⟩ := h
  have hl₁ := hp.layered hl
  cases hq with
  | stays => exact hl₁
  | stopScript => exact hl₁.suffix (List.dropWhile_suffix _)
  | retire => exact .nil

/-- **So does one with which the scheduler deals.** -/
theorem Tidies.layered {k : Scheduler} {g : Graph} {m : Nat} {g? : Option Graph}
    (h : Tidies k g? s s') (hg : ∀ g', g? = some g' → g' = g) (hl : Layered g m s.thread.stack) :
    Layered g m s'.thread.stack := by
  cases h with
  | tend hw => exact hl
  | mark ht => exact ht.stack ▸ hl
  | memo n f =>
    refine hl.congr (forall₂_like_modify ?_ n _)
    exact fun _ => ⟨rfl, .rfl⟩
  | retire => exact .nil
  | restart => exact s.thread.layered_restart
  | advance _ hgraph =>
    rw [hg _ hgraph]
    exact Thread.layered_of_advanced (Scheduler.advanced_of_advance rfl) hl

end Scene

/-! ### Threads of a world -/

namespace World

open Thread Scene

variable {σ : Type} {program : SpriteId → Graph} {m d : Nat} {w w' : World σ} {t t' : Thread}
  {sprite : SpriteId}

/-- A thread keeps to the program of a sprite, which is the one of its actor while there is such an
actor. With more than one frame it has run, so the id of its actor has been given out. -/
structure Carries (program : SpriteId → Graph) (m : Nat) (w : World σ) (t : Thread)
    (sprite : SpriteId) : Prop where
  home : ∀ a, w.actor? t.actor = some a → a.sprite = sprite
  layered : Layered (program sprite) m t.stack
  issued : t.stack.length ≤ 1 ∨ t.actor < w.nextActor

/-- The book is right, and each thread in the lists keeps to a program. -/
structure Stacked (program : SpriteId → Graph) (m : Nat) (w : World σ) : Prop where
  sound : w.book.Sound
  carries : ∀ t ∈ w.threads ++ w.spawned, ∃ sprite, w.Carries program m t sprite

/-- A thread with one frame keeps to any program. -/
theorem carries_of_short (program : SpriteId → Graph) (m : Nat) (w : World σ)
    (h : t.stack.length ≤ 1) : ∃ sprite, w.Carries program m t sprite := by
  cases ha : w.actor? t.actor with
  | none =>
    refine ⟨0, fun a ha' => ?_, .of_short h, .inl h⟩
    rw [ha] at ha'
    cases ha'
  | some a =>
    refine ⟨a.sprite, fun b hb => ?_, .of_short h, .inl h⟩
    rw [ha] at hb
    cases hb
    rfl

theorem carries_start (program : SpriteId → Graph) (m : Nat) (w : World σ) (id : ThreadId)
    (actor : ActorId) (top : Handle) :
    ∃ sprite, w.Carries program m (.start id actor top) sprite :=
  carries_of_short program m w (Nat.le_refl 1)

namespace Carries

/-- An actor that is there has the sprite that it had, so the program stays. -/
theorem follow (h : w.Carries program m t sprite) (hw : w.book.Sound)
    (hb : Book.Entries w.book w'.book) (ht : t.actor < w.nextActor) :
    w'.Carries program m t sprite := by
  have hfollows := hw.follows_of_entries hb
  refine ⟨fun a' ha' => ?_, h.layered, .inr (Nat.lt_of_lt_of_le ht hfollows.next_le)⟩
  have hold := hfollows.old t.actor a'.role (get?_roles_of_actor ha') ht
  rw [get?_roles] at hold
  obtain ⟨a, ha, hrole⟩ := Option.map_eq_some_iff.1 hold
  exact (congrArg Role.sprite hrole).symm.trans (h.home a ha)

theorem exists_follow (h : w.Carries program m t sprite) (hw : w.book.Sound)
    (hb : Book.Entries w.book w'.book) : ∃ sprite, w'.Carries program m t sprite := by
  rcases h.issued with hshort | ht
  · exact carries_of_short program m w' hshort
  · exact ⟨sprite, h.follow hw hb ht⟩

/-- A thread that is stopped or started over has one frame at most. -/
theorem handled (h : w.Carries program m t sprite) (ht : Handled t t') :
    ∃ sprite, w.Carries program m t' sprite := by
  cases ht with
  | kept => exact ⟨sprite, h⟩
  | stopped => exact carries_of_short program m w (Nat.zero_le 1)
  | startedOver => exact carries_of_short program m w (Nat.le_refl 1)

/-- The same actor and sprite, and another stack. -/
theorem restack (h : w.Carries program m t sprite) (hactor : t'.actor = t.actor)
    (hl : Layered (program sprite) m t'.stack)
    (hissued : t'.stack.length ≤ 1 ∨ t.actor < w.nextActor) : w.Carries program m t' sprite :=
  ⟨fun a ha => h.home a (hactor ▸ ha), hl, hactor ▸ hissued⟩

theorem confined (h : w.Carries program m t sprite) (hd : ∀ sprite, (program sprite).Nests d) :
    t.Confined (program sprite) m d := h.layered.confined (hd sprite)

end Carries

namespace Stacked

theorem carries_of_mem (hw : w.Stacked program m) (hb : Book.Entries w.book w'.book) :
    ∀ t ∈ w.threads ++ w.spawned, ∃ sprite, w'.Carries program m t sprite := by
  intro t ht
  obtain ⟨sprite, h⟩ := hw.carries t ht
  exact h.exists_follow hw.sound hb

theorem gesture (hw : w.Stacked program m) (h : Gesture w w') : w'.Stacked program m := by
  refine ⟨hw.sound.entries h.entries, h.keeps_threads (carries_start program m w')
    (fun hh ⟨_, hc⟩ => hc.handled hh) (fun ⟨sprite, hc⟩ => ?_) (hw.carries_of_mem h.entries)⟩
  exact ⟨sprite, hc.restack rfl hc.layered hc.issued⟩

/-- Other threads are handled, and new ones are started. -/
theorem descends (hw : w.Stacked program m) (h : Descends w w')
    (hb : Book.Entries w.book w'.book) : w'.Stacked program m :=
  ⟨hw.sound.entries hb, h.keeps_threads (carries_start program m w')
    (fun hh ⟨_, hc⟩ => hc.handled hh) (hw.carries_of_mem hb)⟩

/-- Threads leave the lists or get a new status. -/
theorem restack (hw : w.Stacked program m) (hcast : SameCast w w')
    (h : ∀ t' ∈ w'.threads ++ w'.spawned, ∃ t ∈ w.threads ++ w.spawned,
      t'.actor = t.actor ∧ t'.stack = t.stack) : w'.Stacked program m := by
  have hb : Book.Entries w.book w'.book := by
    rw [book_of_cast hcast]
    exact .refl
  refine ⟨hw.sound.entries hb, fun t' ht' => ?_⟩
  obtain ⟨t, ht, hactor, hstack⟩ := h t' ht'
  obtain ⟨sprite, hc⟩ := hw.carries_of_mem hb t ht
  exact ⟨sprite, hc.restack hactor (hstack ▸ hc.layered) (hstack ▸ hc.issued)⟩

theorem set (hw : w.Stacked program m) (i : Nat) {t : Thread}
    (ht : ∃ sprite, w.Carries program m t sprite) :
    Stacked program m { w with threads := w.threads.set i t } := by
  refine ⟨hw.sound, fun u hu => ?_⟩
  obtain ⟨sprite, hc⟩ : ∃ sprite, w.Carries program m u sprite := by
    rcases Thread.mem_set hu with hu | rfl
    · exact hw.carries u hu
    · exact ht
  exact ⟨sprite, hc.home, hc.layered, hc.issued⟩

end Stacked

end World

/-! ### A turn -/

namespace Scene

open World

variable {σ : Type} {program : SpriteId → Graph} {m : Nat} {k : Scheduler} {g? : Option Graph}
  {s s' : Scene σ} {l : List (Invocation σ)} {sprite : SpriteId}

/-- The thread that has its turn keeps to the program that it executes, and the others keep to
theirs. -/
structure Upright (program : SpriteId → Graph) (m : Nat) (g? : Option Graph) (sprite : SpriteId)
    (s : Scene σ) : Prop where
  stacked : s.world.Stacked program m
  carries : s.world.Carries program m s.thread sprite
  graph : ∀ g, g? = some g → g = program sprite ∧ s.thread.actor < s.world.nextActor

theorem Upright.tidies (h : Upright program m g? sprite s) (ht : Tidies k g? s s') :
    Upright program m g? sprite s' := by
  have hl := ht.layered (fun g hg => (h.graph g hg).1) h.carries.layered
  cases ht with
  | tend hw =>
    have hb := book_of_cast hw.cast
    have hnext : _ = s.world.nextActor := hw.cast.nextActor
    refine ⟨h.stacked.restack hw.cast fun t ht => ⟨t, ?_, rfl, rfl⟩,
      ⟨fun a ha => h.carries.home a ?_, h.carries.layered, hnext ▸ h.carries.issued⟩,
      fun g hg => ⟨(h.graph g hg).1, hnext ▸ (h.graph g hg).2⟩⟩
    · rwa [hw.threads, hw.spawned] at ht
    · rwa [World.actor?, hw.cast.actors] at ha
  | mark ht =>
    exact ⟨h.stacked, h.carries.restack ht.actor hl (ht.stack ▸ h.carries.issued),
      fun g hg => ⟨(h.graph g hg).1, ht.actor ▸ (h.graph g hg).2⟩⟩
  | memo n f =>
    refine ⟨h.stacked, h.carries.restack rfl hl (h.carries.issued.imp_left fun hle => ?_), h.graph⟩
    rwa [List.length_modify]
  | retire => exact ⟨h.stacked, h.carries.restack rfl hl (.inl (Nat.zero_le 1)), h.graph⟩
  | restart =>
    refine ⟨h.stacked, h.carries.restack rfl hl (.inl ?_), h.graph⟩
    unfold Thread.restart
    split <;> simp
  | @advance k' g' _ hg =>
    have hleft := Scheduler.advanced_of_advance (rfl : k'.advance s.world.now g' s.thread = _)
    have hactor := hleft.moved.actor
    exact ⟨h.stacked, h.carries.restack hactor hl (.inr (h.graph _ hg).2),
      fun g hg => ⟨(h.graph g hg).1, hactor ▸ (h.graph g hg).2⟩⟩

/-- A primitive of the program is run. -/
theorem Upright.call {i : Invocation σ} (h : Upright program m g? sprite i.before)
    (hi : i.Within k g?) (hk : k.maxCallDepth = m) :
    Upright program m g? sprite (i.result .empty).1 := by
  have hworks := Primitive.works_run i.site i.opcode i.args i.before
  have hchanges := Primitive.changes_run i.site i.args i.before i.opcode
  have hdescends := (upheld_tends.acts (Primitive.acts_run i.site i.args i.before
    i.opcode)).descends
  have hb : Book.Entries i.before.world.book (i.result .empty).1.world.book :=
    entries_of_changed hchanges.changed
  obtain ⟨hgraph, hlt⟩ := h.graph _ hi.graph
  have hlimit : i.site.scheduler.maxCallDepth = m := hi.limits.maxCallDepth.trans hk
  have hl := h.carries.layered
  rw [← hgraph, ← hlimit] at hl
  have hl' := hworks.layered hl
  rw [hgraph, hlimit] at hl'
  have hfollow := h.carries.follow h.stacked.sound hb hlt
  have hissued : i.before.thread.actor < (i.result .empty).1.world.nextActor :=
    Nat.lt_of_lt_of_le hlt (h.stacked.sound.follows_of_entries hb).next_le
  exact ⟨h.stacked.descends hdescends hb, hfollow.restack hchanges.actor hl' (.inr hissued),
    fun g hg => ⟨(h.graph g hg).1, hchanges.actor.symm ▸ hissued⟩⟩

/-- **All the way along a turn.** -/
theorem Along.upright (ha : Along k g? s l s') (hk : k.maxCallDepth = m)
    (h : Upright program m g? sprite s) : Upright program m g? sprite s' := by
  induction ha with
  | nil => exact h
  | tidy _ ht ih => exact ih.tidies ht
  | call _ hi ih => exact ih.call hi hk

end Scene

namespace World

open Scene

variable {σ : Type} {program : SpriteId → Graph} {m d : Nat} {k : Scheduler} {w w' : World σ}

/-- A thread that leaves the list for its turn keeps to the program that it is about to execute. -/
theorem Stacked.upright (hw : w.Stacked program m) (hprog : w.Programmed program) {i : Nat}
    {t : Thread} (ht : w.threads[i]? = some t) :
    ∃ sprite, Upright program m (w.graph? t.actor) sprite
      ⟨{ w with threads := w.threads.set i .absent }, t⟩ := by
  have hout := hw.set i (carries_of_short program m w (t := .absent) (Nat.zero_le 1))
  obtain ⟨sprite, hc⟩ := hw.carries t (List.mem_append_left _ (List.mem_of_getElem? ht))
  refine ⟨sprite, hout, ⟨hc.home, hc.layered, hc.issued⟩, fun g hg => ?_⟩
  obtain ⟨a, ha, hgraph⟩ := hprog.graph? hg
  exact ⟨hc.home a ha ▸ hgraph,
    hw.sound.below _ ((Table.get?_eq_some_iff _ _ _).1 (get?_roles_of_actor ha))⟩

/-- **A turn** keeps all threads to their programs. -/
theorem Stacked.visitAt {fuel i : Nat} {p p' : Pass σ} (hw : p.world.Stacked program m)
    (hprog : p.world.Programmed program) (hk : p.scheduler.maxCallDepth = m)
    (h : Pass.visitAt .empty fuel p i = some p') : p'.world.Stacked program m := by
  rcases Pass.along_visitAt h with ⟨-, rfl⟩ | ⟨t, s, ht, halong, hworld, -⟩
  · exact hw
  · obtain ⟨sprite, hup⟩ := hw.upright hprog ht
    have hback := halong.upright hk hup
    rw [hworld]
    exact hback.stacked.set i ⟨sprite, hback.carries⟩

/-- Between turns stacks are left alone. -/
theorem Stacked.interlude (hw : w.Stacked program m) (h : Interlude w w') :
    w'.Stacked program m ∧ w'.programs = w.programs := by
  cases h with
  | elapse => exact ⟨hw.restack ⟨rfl, rfl, rfl, rfl, rfl, rfl, rfl⟩
      fun t ht => ⟨t, ht, rfl, rfl⟩, rfl⟩
  | begin k =>
    refine ⟨hw.restack ⟨rfl, rfl, rfl, rfl, rfl, rfl, rfl⟩ fun t ht => ?_, rfl⟩
    rcases List.mem_append.1 ht with ht | ht
    · obtain ⟨u, hu, rfl⟩ := List.mem_map.1 ht
      refine ⟨u, List.mem_append_left _ hu, ?_⟩
      split <;> exact ⟨rfl, rfl⟩
    · exact ⟨t, List.mem_append_right _ ht, rfl, rfl⟩
  | collect p finished =>
    refine ⟨hw.restack ⟨rfl, rfl, rfl, rfl, rfl, rfl, rfl⟩ fun t ht => ⟨t, ?_, rfl, rfl⟩, rfl⟩
    exact (List.filter_sublist.append (List.Sublist.refl _)).subset ht
  | finish p =>
    refine ⟨hw.restack ⟨rfl, rfl, rfl, rfl, rfl, rfl, rfl⟩ fun t ht => ⟨t, ?_, rfl, rfl⟩, rfl⟩
    simp only [afterPass, Pass.finish, List.append_nil] at ht
    exact ((List.Sublist.refl _).append List.filter_sublist).subset ht
  | dispatch =>
    have hcast := w.sameCast_dispatchEvents
    refine ⟨hw.descends (tends_dispatchEvents w).descends ?_, (SamePlay.of_cast hcast).programs⟩
    rw [book_of_cast hcast]
    exact .refl
  | flush => exact ⟨hw.restack ⟨rfl, rfl, rfl, rfl, rfl, rfl, rfl⟩
      fun t ht => ⟨t, ht, rfl, rfl⟩, rfl⟩

/-- **All the way through a step.** -/
theorem Route.stacked {β : Type} {log : Pass σ → Nat → List β} {fuel : Nat} {l : List β}
    (h : Route k log fuel w l w') (hk : k.maxCallDepth = m) (hw : w.Stacked program m)
    (hprog : w.Programmed program) : w'.Stacked program m ∧ w'.Programmed program := by
  induction h with
  | nil => exact ⟨hw, hprog⟩
  | aside _ h ih =>
    obtain ⟨hstacked, hsame⟩ := ih.1.interlude h
    exact ⟨hstacked, ih.2.of_eq hsame⟩
  | turn _ hp h ih =>
    exact ⟨ih.1.visitAt ih.2 (hp.limits.maxCallDepth.trans hk) h,
      ih.2.of_eq (samePlay_of_changed (Pass.changed_visitAt h)).programs⟩

/-- The sprites have the programs that are given, and calls are refused on stacks of `m` frames. -/
structure Fixed (program : SpriteId → Graph) (m : Nat) (w : World σ) : Prop where
  programmed : w.Programmed program
  limit : w.settings.maxCallDepth = m

/-- A stack is confined by the program of a sprite, which is the one of the actor while there is
such an actor. -/
def Confines (program : SpriteId → Graph) (m d : Nat) (w : World σ) (t : Thread) : Prop :=
  ∃ sprite, (∀ a, w.actor? t.actor = some a → a.sprite = sprite) ∧
    t.Confined (program sprite) m d

theorem Carries.confines {t : Thread} {sprite : SpriteId} (h : w.Carries program m t sprite)
    (hd : ∀ sprite, (program sprite).Nests d) : w.Confines program m d t :=
  ⟨sprite, h.home, h.confined hd⟩

theorem stacked_of_show (h : Show (Fixed program m) w) : w.Stacked program m := by
  induction h with
  | blank settings host dice => exact ⟨(Show.blank (P := Fixed program m) settings host dice).sound,
      fun t ht => by cases ht⟩
  | gesture _ hg ih => exact ih.gesture hg
  | @step fuel w w' ended hw hfixed hs ih =>
    obtain ⟨s, hsome⟩ := hw.exists_scheduler
    have hroute := route_of_step hsome (Pass.visitAtInvocations fuel) hs
    exact (hroute.stacked hfixed.limit ih hfixed.programmed).1

/-- **Runaway recursion is bounded.** -/
theorem confined_of_show (hd : ∀ sprite, (program sprite).Nests d)
    (h : Show (Fixed program m) w) :
    (∀ t ∈ w.threads ++ w.spawned, w.Confines program m d t) ∧
      (w.Fixed program m → ∀ fuel, ∀ i ∈ w.invocations fuel,
        ∀ s, s = i.before ∨ s = (i.result .empty).1 →
          ∀ t ∈ s.thread :: (s.world.threads ++ s.world.spawned),
            s.world.Confines program m d t) := by
  have hstacked := stacked_of_show h
  refine ⟨fun t ht => ?_, fun hfixed fuel i hi s hs t ht => ?_⟩
  · obtain ⟨sprite, hc⟩ := hstacked.carries t ht
    exact hc.confines hd
  · obtain ⟨front, rest, hsplit⟩ := List.append_of_mem hi
    obtain ⟨k, hsome⟩ := h.exists_scheduler
    obtain ⟨p, place, u, front₁, front₂, hmid⟩ := amidst_of_invocations hsome hsplit
    obtain ⟨hturn, hprog⟩ := hmid.route.stacked hfixed.limit hstacked hfixed.programmed
    obtain ⟨sprite, hup⟩ := hturn.upright hprog hmid.thread
    have hbefore := hmid.along.upright hfixed.limit hup
    have hscene : Upright program m (p.world.graph? u.actor) sprite s := by
      rcases hs with rfl | rfl
      · exact hbefore
      · exact hbefore.call hmid.within hfixed.limit
    rcases List.mem_cons.1 ht with rfl | ht
    · exact hscene.carries.confines hd
    · obtain ⟨sprite', hc⟩ := hscene.stacked.carries t ht
      exact hc.confines hd

/-- A procedure that calls itself in a branch of a block, and then waits there. -/
def spiral : Graph :=
  Graph.empty.run
    [.create { Block.detached "flag" (.event .whenFlagClicked) with
        next := some ⟨1, 0⟩
        topLevel := true },
      .create { Block.detached "first" (.procedure .call) with
        signature := some ⟨"turn", [], [], [], false⟩
        parent := some ⟨0, 0⟩ },
      .create { Block.detached "define" (.procedure .definition) with
        inputs := Table.empty.insert prototypeInput (.reporter ⟨3, 0⟩)
        next := some ⟨4, 0⟩
        topLevel := true },
      .create { Block.detached "turn" (.procedure .prototype) with
        signature := some ⟨"turn", [], [], [], false⟩
        parent := some ⟨2, 0⟩ },
      .create { Block.detached "if" (.control .ifThen) with
        inputs := (Table.empty.insert "CONDITION" (.literal (.flag true))).insert "SUBSTACK"
          (.branch ⟨5, 0⟩)
        parent := some ⟨2, 0⟩ },
      .create { Block.detached "again" (.procedure .call) with
        signature := some ⟨"turn", [], [], [], false⟩
        parent := some ⟨4, 0⟩
        next := some ⟨6, 0⟩ },
      .create { Block.detached "wait" (.control .waitUntil) with parent := some ⟨5, 0⟩ }]

/-- The procedure is called once, and not on two frames: the third frame stands in the branch of the
second, the call in it is refused, and the thread waits there. -/
theorem confined_of_show_spiral : ∃ w w' : World Unit,
    Show (Fixed (fun _ => spiral.indexed) 2) w ∧ Fixed (fun _ => spiral.indexed) 2 w ∧
      spiral.indexed.Nests 1 ∧ Show (Fixed (fun _ => spiral.indexed) 2) w' ∧
      (w.invocations 9).map (·.before.thread.depth) = [1, 1, 2, 2, 2, 3, 3] ∧
      (w'.threads ++ w'.spawned).map (fun t => t.stackBlocks.map (·.index)) = [[1, 4, 6]] ∧
      (∀ i ∈ w.invocations 9,
        i.before.world.Confines (fun _ => spiral.indexed) 2 1 i.before.thread) ∧
      ∀ t ∈ w'.threads ++ w'.spawned, w'.Confines (fun _ => spiral.indexed) 2 1 t := by
  let start : World Unit := blank { Settings.standard with maxCallDepth := 2 } ()
  let ready := (start.addSprite "Cat" spiral).1.greenFlag.1
  have hrun : (ready.step .empty 9).map (fun r => (r.1.threads ++ r.1.spawned).map fun t =>
      t.stackBlocks.map (·.index)) = some [[1, 4, 6]] := by
    decide +kernel
  have hdepths : (ready.invocations 9).map (·.before.thread.depth) = [1, 1, 2, 2, 2, 3, 3] := by
    decide +kernel
  obtain ⟨⟨w, ended⟩, hstep, hstacks⟩ := Option.map_eq_some_iff.1 hrun
  have hready : Show (Fixed (fun _ => spiral.indexed) 2) ready :=
    ((Show.blank _ ()).apply (c := .addSprite "Cat" spiral) nofun rfl).apply (c := .greenFlag)
      nofun rfl
  have hfixed : Fixed (fun _ => spiral.indexed) 2 ready := by
    refine ⟨fun e he => ?_, rfl⟩
    rw [(samePlay_greenFlag _).programs] at he
    rw [List.mem_singleton.1 he]
  have hshow := hready.step hfixed hstep
  have hnests : spiral.indexed.Nests 1 :=
    Graph.nests_of_ranked (fun h => if h.index ≤ 2 ∨ h.index = 4 then 1 else 0)
      (by decide +kernel) fun h => by split <;> decide
  refine ⟨ready, w, hready, hfixed, hnests, hshow, hdepths, hstacks, fun i hi => ?_,
    (confined_of_show (fun _ => hnests) hshow).1⟩
  exact (confined_of_show (fun _ => hnests) hready).2 hfixed 9 i hi i.before (.inl rfl) _
    List.mem_cons_self

end World

end Stagecraft
