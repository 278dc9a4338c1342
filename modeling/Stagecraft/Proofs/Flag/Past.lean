import Stagecraft.Proofs.Schedule.Uniqueness

/-!
# Worlds with a past

Of what went on before everything was stopped, two things are left that nobody can see: results
that nobody awaits any more still have their numbers, so new ones go on from there, and the
scheduler may remember a thread at which a pass was cut short. A world can be put behind such a
past. Numbers are the only names that results have, so whatever is done to a world is done to it
behind a past as well.

* `Past`, `World.upon` : a world behind a past;
* `World.upon_openChannel`, `World.upon_poll`, `World.upon_deliver` : results go by their new
  numbers;
* `World.upon_startHats`, `World.upon_stopActor`, `World.upon_stopAll` : **starting and stopping
  threads** does not depend on the past;
* `World.upon_createClone`, `World.upon_deleteClone` : neither do clones come and go by it.
-/

namespace Stagecraft

/-- What is left of the past. -/
structure Past (σ : Type) where
  /-- The number at which results go on. -/
  next : Nat
  /-- The channels of earlier results. -/
  channels : Table Nat Channel
  /-- The earlier results that the host awaits itself. -/
  held : List Nat
  /-- The thread at which a pass was cut short. -/
  stale : Option ThreadId
  /-- How what belongs to the host names the results that come. -/
  host : σ → σ
  channels_lt : ∀ c ∈ channels.keys, c < next
  held_lt : ∀ c ∈ held, c < next

/-! ### What goes by numbers -/

/-- What is awaited has its number behind a past. -/
def Pending.upon (n : Nat) (p : Pending) : Pending := { p with channel := n + p.channel }

/-- So has the answer to a question. -/
def Prompt.upon (n : Nat) (p : Prompt) : Prompt := { p with channel := n + p.channel }

/-- So has what a thread is parked on. -/
def Thread.upon (n : Nat) (t : Thread) : Thread := { t with pending := t.pending.map (·.upon n) }

/-- A pass goes on where one in the past was cut short, if there was none since. -/
def Scheduler.upon (stale : Option ThreadId) (k : Scheduler) : Scheduler :=
  { k with resumeAt := k.resumeAt.or stale }

namespace Past

variable {σ : Type} (p : Past σ)

/-- Channels come behind those of the past. -/
def table (t : Table Nat Channel) : Table Nat Channel where
  entries := p.channels.entries ++ t.entries.map fun e => (p.next + e.1, e.2)
  nodup := by
    rw [List.map_append, List.map_map]
    refine List.pairwise_append.2 ⟨p.channels.nodup, ?_, fun a ha b hb => ?_⟩
    · refine List.pairwise_map.2 ((List.pairwise_map.1 t.nodup).imp fun {e e'} hne he => hne ?_)
      exact Nat.add_left_cancel he
    · obtain ⟨e, -, rfl⟩ := List.mem_map.1 hb
      exact Nat.ne_of_lt (Nat.lt_of_lt_of_le (p.channels_lt a ha) (Nat.le_add_right _ _))

/-- The same past, with no pass cut short. -/
def settled : Past σ := { p with stale := none }

variable {p} {t : Table Nat Channel}

theorem not_mem_old (c : Nat) : p.next + c ∉ p.channels.keys := fun hc =>
  Nat.not_lt.2 (Nat.le_add_right _ _) (p.channels_lt _ hc)

theorem get?_table (c : Nat) : (p.table t).get? (p.next + c) = t.get? c := by
  have hold : p.channels.entries.find? (fun e => e.1 = p.next + c) = none := by
    refine List.find?_eq_none.2 fun e he heq => not_mem_old (p := p) c ?_
    exact of_decide_eq_true heq ▸ List.mem_map_of_mem he
  rw [Table.get?, table, List.find?_append, hold, Option.none_or, List.find?_map, Option.map_map]
  simp [Function.comp_def, Table.get?]

theorem insertRow_map (n c : Nat) (v : Channel) (l : List (Nat × Channel)) :
    Table.insertRow (n + c) v (l.map fun e => (n + e.1, e.2)) =
      (Table.insertRow c v l).map fun e => (n + e.1, e.2) := by
  induction l with
  | nil => rfl
  | cons e rest ih =>
    obtain ⟨c', v'⟩ := e
    simp only [List.map_cons, Table.insertRow, Nat.add_left_cancel_iff]
    split
    · rfl
    · rw [ih, List.map_cons]

theorem insertRow_append {k : Nat} (v : Channel) {l l' : List (Nat × Channel)}
    (hk : k ∉ l.map (·.1)) : Table.insertRow k v (l ++ l') = l ++ Table.insertRow k v l' := by
  induction l with
  | nil => rfl
  | cons e rest ih =>
    obtain ⟨k', v'⟩ := e
    obtain ⟨hne, hrest⟩ := not_or.1 (mt List.mem_cons.2 hk)
    rw [List.cons_append, Table.insertRow, if_neg (Ne.symm hne), ih hrest, List.cons_append]

theorem insert_table (c : Nat) (v : Channel) :
    (p.table t).insert (p.next + c) v = p.table (t.insert c v) := by
  refine Table.eq_of_entries ?_
  exact (insertRow_append v (not_mem_old c)).trans (congrArg _ (insertRow_map ..))

theorem modify_table (c : Nat) (f : Channel → Channel) :
    (p.table t).modify (p.next + c) f = p.table (t.modify c f) := by
  refine Table.eq_of_entries (List.map_append.trans (congrArg₂ _ ?_ ?_))
  · refine (List.map_congr_left fun e he => if_neg ?_).trans (List.map_id _)
    exact fun heq => not_mem_old (p := p) c (heq ▸ List.mem_map_of_mem he)
  · refine List.map_map.trans (Eq.trans ?_ List.map_map.symm)
    refine List.map_congr_left fun e _ => ?_
    simp only [Function.comp_apply, Nat.add_left_cancel_iff]
    split <;> rfl

end Past

/-! ### Threads -/

namespace Thread

variable (n : Nat) (t : Thread)

@[simp] theorem upon_start (id : ThreadId) (actor : ActorId) (top : Handle) :
    (start id actor top).upon n = .start id actor top := rfl

theorem upon_ite (c : Prop) [Decidable c] (t t' : Thread) :
    (if c then t.upon n else t'.upon n) = (if c then t else t').upon n :=
  (apply_ite (Thread.upon n) _ _ _).symm

theorem upon_modifyTop (f : Frame → Frame) : (t.upon n).modifyTop f = (t.modifyTop f).upon n := by
  obtain ⟨_, _, _, stack, _⟩ := t
  cases stack <;> rfl

theorem upon_modifyFrame (i : Nat) (f : Frame → Frame) :
    (t.upon n).modifyFrame i f = (t.modifyFrame i f).upon n := by
  unfold modifyFrame
  rw [apply_ite (Thread.upon n)]
  rfl

theorem upon_enterBranch (g : Graph) (i : Nat) (isLoop : Bool) :
    (t.upon n).enterBranch g i isLoop = (t.enterBranch g i isLoop).upon n := by
  obtain ⟨_, _, _, stack, _⟩ := t
  cases stack with
  | nil => rfl
  | cons f rest =>
    simp only [enterBranch, topBlock?, upon, modifyTop, List.head?_cons, Option.map_some]
    cases g.branch? f.block i with
    | some first => rfl
    | none => cases isLoop <;> rfl

theorem upon_bindArguments (p : Parameters) (supplied : Table String Value) :
    (t.upon n).bindArguments p supplied = (t.bindArguments p supplied).upon n := by
  have hfold : ∀ (l : List (String × Nat)) (t : Thread),
      l.foldl (fun t e => t.bindArgument e.1 (argumentValue p supplied e.2)) (t.upon n) =
        (l.foldl (fun t e => t.bindArgument e.1 (argumentValue p supplied e.2)) t).upon n := by
    intro l
    induction l with
    | nil => exact fun _ => rfl
    | cons e rest ih =>
      intro t
      rw [List.foldl_cons, List.foldl_cons, ← ih, bindArgument, upon_modifyTop]
      rfl
  exact hfold _ t

end Thread

namespace Scheduler

variable (k : Scheduler) (now : Span) (g : Graph) (n : Nat) (t : Thread)

theorem upon_settleCall (warp recursive : Bool) :
    k.settleCall now (t.upon n) warp recursive = (k.settleCall now t warp recursive).upon n := by
  unfold settleCall
  simp only [apply_ite (Thread.upon n), ← Thread.upon_modifyTop]
  rfl

theorem upon_enterProcedure (code : String) (supplied : Table String Value) :
    k.enterProcedure now g (t.upon n) code supplied =
      ((k.enterProcedure now g t code supplied).1.upon n,
        (k.enterProcedure now g t code supplied).2) := by
  have hpush : ∀ h, ((t.upon n).push h).initArguments = ((t.push h).initArguments).upon n :=
    fun _ => rfl
  have hdeep : (t.upon n).depth = t.depth := rfl
  have hrecursive : (t.upon n).isRecursiveCall g code = t.isRecursiveCall g code := rfl
  unfold enterProcedure
  rw [hdeep, hrecursive]
  cases g.definition? code with
  | none => rfl
  | some definition =>
    simp only [hpush]
    split
    · rfl
    · cases g.parameters? code with
      | none => simp only [upon_settleCall]
      | some p => simp only [Thread.upon_bindArguments, upon_settleCall]

theorem upon_unwind (stack : List Frame) : k.unwind now g (t.upon n) stack =
    ((k.unwind now g t stack).1.upon n, (k.unwind now g t stack).2) := by
  induction stack with
  | nil => rfl
  | cons f rest ih =>
    rw [unwind, unwind]
    split
    · rfl
    · split
      · rfl
      · exact ih

theorem upon_advance : k.advance now g (t.upon n) =
    ((k.advance now g t).1.upon n, (k.advance now g t).2) := by
  have hstack : (t.upon n).stack = t.stack := rfl
  unfold advance
  rw [hstack]
  split
  · rfl
  · split
    · rfl
    · exact upon_unwind k now g n t _

end Scheduler

/-! ### Worlds -/

namespace World

variable {σ : Type}

/-- A world behind a past. -/
def upon (p : Past σ) (w : World σ) : World σ :=
  { w with
    threads := w.threads.map (·.upon p.next)
    spawned := w.spawned.map (·.upon p.next)
    scheduler := w.scheduler.map (·.upon p.stale)
    prompts := w.prompts.map (·.upon p.next)
    channels := p.table w.channels
    held := p.held ++ w.held.map (p.next + ·)
    nextChannel := p.next + w.nextChannel
    host := p.host w.host }

variable (p : Past σ) (w : World σ)

@[simp] theorem inPass_upon : (w.upon p).inPass = w.inPass := Option.isNone_map

/-! ### Results -/

theorem upon_openChannel (c : Channel) : (w.upon p).openChannel c =
    ((w.openChannel c).1.upon p, p.next + (w.openChannel c).2) := by
  unfold openChannel
  simp only [upon, Past.insert_table]
  rfl

theorem parkedOn_upon (c : Nat) (t : Thread) :
    parkedOn (p.next + c) (t.upon p.next) = parkedOn c t := by
  unfold parkedOn Thread.upon Pending.upon
  cases t.pending with
  | none => rfl
  | some q => simp

theorem isAwaited_upon (c : Nat) : (w.upon p).isAwaited (p.next + c) = w.isAwaited c := by
  have hparked : ∀ l : List Thread,
      (l.map (·.upon p.next)).any (parkedOn (p.next + c)) = l.any (parkedOn c) := by
    intro l
    rw [List.any_map]
    exact congrArg l.any (funext fun t => parkedOn_upon p c t)
  have hheld : (p.held ++ w.held.map (p.next + ·)).contains (p.next + c) = w.held.contains c := by
    rw [Bool.eq_iff_iff]
    simp only [List.contains_iff_mem, List.mem_append, List.mem_map, Nat.add_left_cancel_iff,
      exists_eq_right]
    exact or_iff_right fun hc => Nat.not_lt.2 (Nat.le_add_right _ _) (p.held_lt _ hc)
  unfold isAwaited
  simp only [upon]
  rw [hheld, ← List.map_append, hparked]

theorem upon_deliver (c : Nat) (d : Delivery) : (w.upon p).deliver (p.next + c) d =
    ((w.deliver c d).1.upon p, (w.deliver c d).2) := by
  have hget : (w.upon p).channels.get? (p.next + c) = w.channels.get? c := Past.get?_table c
  unfold deliver
  rw [hget, isAwaited_upon]
  cases w.channels.get? c with
  | none => rfl
  | some channel =>
    simp only [upon, Past.insert_table]

theorem upon_poll (c : Nat) : (w.upon p).poll (p.next + c) =
    ((w.poll c).1.upon p, (w.poll c).2) := by
  have hget : (w.upon p).channels.get? (p.next + c) = w.channels.get? c := Past.get?_table c
  unfold poll
  rw [hget]
  cases w.channels.get? c with
  | none => rfl
  | some channel => simp only [upon, Past.insert_table]

theorem upon_dropResolver (c : Nat) :
    (w.upon p).dropResolver (p.next + c) = (w.dropResolver c).upon p := by
  unfold dropResolver
  simp only [upon, Past.modify_table]

theorem upon_ask (text : String) :
    (w.upon p).ask text = ((w.ask text).1.upon p, p.next + (w.ask text).2) := by
  unfold ask
  simp only [upon_openChannel]
  simp only [upon, List.map_append]
  rfl

theorem upon_answerQuestion (text : String) : (w.upon p).answerQuestion text =
    ((w.answerQuestion text).1.upon p, (w.answerQuestion text).2) := by
  have hprompts : (w.upon p).prompts = w.prompts.map (·.upon p.next) := rfl
  unfold answerQuestion
  rw [hprompts]
  cases w.prompts with
  | nil => rfl
  | cons q rest =>
    have hdeliver := upon_deliver p { w with prompts := rest, answer := text } q.channel
      (.resolved (.text text))
    refine Prod.ext ?_ rfl
    refine (congrArg (fun r => r.1.dropResolver (p.next + q.channel)) hdeliver).trans ?_
    exact upon_dropResolver p _ q.channel

theorem upon_clearPrompts : (w.upon p).clearPrompts = w.clearPrompts.upon p := by
  have hfold : ∀ (l : List Prompt) (w : World σ),
      (l.map (·.upon p.next)).foldl (fun w q => w.dropResolver q.channel) (w.upon p) =
        (l.foldl (fun w q => w.dropResolver q.channel) w).upon p := by
    intro l
    induction l with
    | nil => exact fun _ => rfl
    | cons q rest ih =>
      intro w
      rw [List.map_cons, List.foldl_cons, List.foldl_cons, ← ih, ← upon_dropResolver]
      rfl
  exact hfold w.prompts { w with prompts := [] }

/-! ### Threads -/

theorem upon_mapThreads {f : Thread → Thread} (hf : ∀ t, f (t.upon p.next) = (f t).upon p.next) :
    (w.upon p).mapThreads f = (w.mapThreads f).upon p := by
  have hmap : ∀ l : List Thread,
      (l.map (·.upon p.next)).map f = (l.map f).map (·.upon p.next) := by
    intro l
    rw [List.map_map, List.map_map]
    exact List.map_congr_left fun t _ => hf t
  unfold mapThreads
  simp only [upon, hmap]

theorem map_filter_upon (n : Nat) (l : List Thread) :
    (l.map (·.upon n)).filter (fun t => !t.isDone) =
      (l.filter fun t => !t.isDone).map (·.upon n) := List.filter_map

theorem upon_dropFinished : (w.upon p).dropFinished = w.dropFinished.upon p := by
  unfold dropFinished
  rw [inPass_upon]
  split
  · rfl
  · simp only [upon, map_filter_upon]

theorem upon_stopActor (actor : ActorId) (keep : Option ThreadId) :
    (w.upon p).stopActor actor keep = (w.stopActor actor keep).upon p := by
  unfold stopActor
  simp only
  rw [upon_mapThreads p w fun t => Thread.upon_ite p.next _ t.retire t, ← upon_dropFinished]
  rfl

theorem upon_pushThread (actor : ActorId) (top : Handle) : (w.upon p).pushThread actor top =
    ((w.pushThread actor top).1.upon p, (w.pushThread actor top).2) := by
  have hstart : ∀ l : List Thread,
      l.map (Thread.upon p.next) ++ [Thread.start w.nextThread actor top] =
        (l ++ [Thread.start w.nextThread actor top]).map (Thread.upon p.next) :=
    fun l => by simp
  cases hp : w.inPass with
  | true =>
    have hspawned : w.pushThread actor top = ({ w with
        nextThread := w.nextThread + 1
        spawned := w.spawned ++ [.start w.nextThread actor top] }, w.nextThread) := if_pos hp
    have hspawned' : (w.upon p).pushThread actor top = ({ w.upon p with
        nextThread := w.nextThread + 1
        spawned := w.spawned.map (·.upon p.next) ++ [.start w.nextThread actor top] },
          w.nextThread) := if_pos ((inPass_upon p w).trans hp)
    rw [hspawned, hspawned', hstart]
    rfl
  | false =>
    have hthreads : w.pushThread actor top = ({ w with
        nextThread := w.nextThread + 1
        threads := w.threads ++ [.start w.nextThread actor top] }, w.nextThread) :=
      if_neg (Bool.eq_false_iff.1 hp)
    have hthreads' : (w.upon p).pushThread actor top = ({ w.upon p with
        nextThread := w.nextThread + 1
        threads := w.threads.map (·.upon p.next) ++ [.start w.nextThread actor top] },
          w.nextThread) := if_neg (Bool.eq_false_iff.1 ((inPass_upon p w).trans hp))
    rw [hthreads, hthreads', hstart]
    rfl

theorem upon_running? (actor : ActorId) (top : Handle) :
    (w.upon p).running? actor top = (w.running? actor top).map (·.upon p.next) := by
  unfold running?
  simp only [upon]
  rw [← List.map_append, List.find?_map]
  rfl

theorem upon_modifyRunning (actor : ActorId) (top : Handle) {f : Thread → Thread}
    (hf : ∀ t, f (t.upon p.next) = (f t).upon p.next) :
    (w.upon p).modifyRunning actor top f = (w.modifyRunning actor top f).upon p := by
  have hmodify : ∀ l : List Thread, modifyFirst (runsScript actor top) f (l.map (·.upon p.next)) =
      (modifyFirst (runsScript actor top) f l).map (·.upon p.next) := by
    intro l
    induction l with
    | nil => rfl
    | cons t rest ih =>
      have hruns : runsScript actor top (t.upon p.next) = runsScript actor top t := rfl
      simp only [List.map_cons, modifyFirst, hruns]
      split
      · rw [hf, List.map_cons]
      · rw [ih, List.map_cons]
  have hany : (w.threads.map (·.upon p.next)).any (runsScript actor top) =
      w.threads.any (runsScript actor top) := List.any_map
  unfold modifyRunning
  simp only [upon, hmodify, hany]
  split <;> rfl

theorem upon_toggleScript (actor : ActorId) (top : Handle) : (w.upon p).toggleScript actor top =
    ((w.toggleScript actor top).1.upon p, (w.toggleScript actor top).2) := by
  unfold toggleScript
  rw [upon_running?]
  cases w.running? actor top with
  | some t =>
    simp only [Option.map_some]
    rw [upon_modifyRunning p w actor top (f := Thread.retire) fun _ => rfl, upon_dropFinished]
  | none =>
    simp only [Option.map_none, upon_pushThread]
    rw [upon_mapThreads p _ fun t => Thread.upon_ite p.next _ { t with clicked := true } t]

theorem upon_isActive (id : ThreadId) : (w.upon p).isActive id = w.isActive id := by
  have hthread : (w.upon p).thread? id = (w.thread? id).map (·.upon p.next) := by
    unfold thread?
    simp only [upon]
    rw [← List.map_append, List.find?_map]
    rfl
  unfold isActive
  rw [hthread]
  cases w.thread? id <;> rfl

/-! ### Scripts -/

theorem upon_startScript (restarts : Bool) (actor : ActorId) (top : Handle) :
    (w.upon p).startScript restarts actor top =
      ((w.startScript restarts actor top).1.upon p, (w.startScript restarts actor top).2) := by
  have hcurrent : (w.upon p).currentRuns actor top = w.currentRuns actor top := rfl
  unfold startScript
  rw [hcurrent, upon_running?]
  split
  · rfl
  · cases w.running? actor top with
    | some t =>
      simp only [Option.map_some]
      split
      · rw [upon_modifyRunning p w actor top (f := Thread.restart) fun _ => rfl]
        rfl
      · rfl
    | none => simp only [Option.map_none, upon_pushThread]

theorem upon_startScripts (restarts : Bool) (scripts : List (ActorId × Handle)) : ∀ w : World σ,
    startScripts restarts scripts (w.upon p) =
      ((startScripts restarts scripts w).1.upon p, (startScripts restarts scripts w).2) := by
  induction scripts with
  | nil => exact fun _ => rfl
  | cons script rest ih =>
    intro w
    simp only [startScripts, upon_startScript, ih]

/-- **A hat starts the same threads**, whatever the past. -/
theorem upon_startHats (hat : Opcode) (fields : List (String × String)) (only : Option ActorId) :
    (w.upon p).startHats hat fields only =
      ((w.startHats hat fields only).1.upon p, (w.startHats hat fields only).2) := by
  have hmatching : (w.upon p).matchingScripts hat fields only =
      w.matchingScripts hat fields only := rfl
  unfold startHats
  rw [hmatching]
  split
  · rfl
  · exact upon_startScripts p _ _ w

theorem upon_raise (e : Event) :
    (w.upon p).raise e = ((w.raise e).1.upon p, (w.raise e).2) := upon_startHats p w ..

theorem upon_dispatchEvents : (w.upon p).dispatchEvents = w.dispatchEvents.upon p := by
  have hfold : ∀ (l : List Event) (w : World σ),
      l.foldl (fun w e => (w.raise e).1) (w.upon p) =
        (l.foldl (fun w e => (w.raise e).1) w).upon p := by
    intro l
    induction l with
    | nil => exact fun _ => rfl
    | cons e rest ih =>
      intro w
      rw [List.foldl_cons, List.foldl_cons, upon_raise, ih]
  exact hfold w.events.events { w with events := .empty }

/-! ### Clones -/

theorem upon_createClone (source : ActorId) : (w.upon p).createClone source =
    ((w.createClone source).1.upon p, (w.createClone source).2) := by
  have hcount : (w.upon p).cloneCount = w.cloneCount := rfl
  have hmax : (w.upon p).settings = w.settings := rfl
  have hactor : (w.upon p).actor? source = w.actor? source := rfl
  unfold createClone
  rw [hcount, hmax, hactor]
  split
  · rfl
  · cases w.actor? source with
    | none => rfl
    | some a =>
      simp only
      split
      · rfl
      · have hraise := upon_raise p { w with
          nextActor := w.nextActor + 1
          actors := w.actors.insert w.nextActor (a.clone w.nextActor)
          sprites := w.sprites.modify a.sprite fun s =>
            { s with clones := s.clones ++ [w.nextActor] }
          cloneCount := w.cloneCount + 1 } (.cloneStart w.nextActor)
        exact congrArg (fun r => (r.1, some w.nextActor)) hraise

theorem upon_deleteClone (id : ActorId) : (w.upon p).deleteClone id =
    ((w.deleteClone id).1.upon p, (w.deleteClone id).2) := by
  have hactor : (w.upon p).actor? id = w.actor? id := rfl
  unfold deleteClone
  rw [hactor]
  cases w.actor? id with
  | none => rfl
  | some a =>
    simp only
    split
    · rfl
    · rw [upon_stopActor]
      rfl

theorem upon_deleteClones (ids : List ActorId) : ∀ w : World σ,
    ids.foldl (fun w id => (w.deleteClone id).1) (w.upon p) =
      (ids.foldl (fun w id => (w.deleteClone id).1) w).upon p := by
  induction ids with
  | nil => exact fun _ => rfl
  | cons id rest ih =>
    intro w
    rw [List.foldl_cons, List.foldl_cons, upon_deleteClone, ih]

/-- **Stopping everything** does not depend on the past. -/
theorem upon_stopAll : (w.upon p).stopAll = w.stopAll.upon p := by
  have hdrop : (((w.upon p).mapThreads Thread.retire).retireCurrent fun _ => true).dropFinished =
      ((w.mapThreads Thread.retire).retireCurrent fun _ => true).dropFinished.upon p := by
    rw [upon_mapThreads p w (f := Thread.retire) fun _ => rfl, ← upon_dropFinished]
    rfl
  unfold stopAll
  simp only
  rw [hdrop, ← upon_clearPrompts]
  have hclones : ∀ w : World σ, (w.upon p).clones = w.clones := fun _ => rfl
  rw [hclones, upon_deleteClones]
  rfl

theorem upon_greenFlag : (w.upon p).greenFlag = (w.greenFlag.1.upon p, w.greenFlag.2) := by
  unfold greenFlag
  simp only
  rw [upon_stopAll, ← upon_raise]
  rfl

end World

end Stagecraft
