import Stagecraft.Proofs.Cast.Show
import Stagecraft.Proofs.Graph.Index
import Stagecraft.Proofs.Schedule.Conduct

/-!
# What a hat starts

A hat starts the scripts that hear it: those whose top block is that hat, with every listed field at
its listed value. They are taken in the order of the actors and, for each actor, of the slots of its
program. Each gets a thread unless it has one, and that one starts over if the hat says so. Scripts
are started one after the other, so every start looks at the threads that the starts before it left;
since no script comes twice, it finds those of its own script as they were.

* `World.hearers` : the scripts that hear a hat, in order;
* `World.matchingScripts_eq` : the scripts under a matching hat are these;
* `World.Roused` : what becomes of the thread of a script;
* `World.startScript_rouses`, `World.startScripts_rouses` : what starting one script, and several,
  does to the threads;
* `World.startHats_rouses` : **a hat starts exactly the scripts that hear it**.
-/

namespace Stagecraft

/-! ### The scripts of a program -/

/-- A block is a hat, and each listed field is there with its listed value, ignoring case. -/
def Block.IsHat (b : Block) (hat : Opcode) (fields : List (String × String)) : Prop :=
  b.opcode = hat ∧ ∀ f ∈ fields, ∃ v, b.field? f.1 = some v ∧ Text.lower v = Text.lower f.2

namespace Graph

variable {g : Graph}

/-- A script starts under a hat. -/
def IsHat (g : Graph) (hat : Opcode) (fields : List (String × String)) (top : Handle) : Prop :=
  ∃ b, g.get? top = some b ∧ b.topLevel = true ∧ b.IsHat hat fields

theorem nodup_slotHandles (g : Graph) : g.handles.Nodup := by
  have hindex : (g.handles.map (·.index)).Nodup := by
    rw [handles, List.map_map]
    change (g.slots.toList.zipIdx.map Prod.snd).Nodup
    rw [List.zipIdx_map_snd]
    exact List.nodup_range'
  exact .of_map _ hindex

/-- The scripts are the handles at which there is a block at the top of one. -/
theorem Labelled.scripts_eq (hl : g.Labelled) :
    g.scripts = g.handles.filter fun h => (g.get? h).any (·.topLevel) := hl.filter_blocks _

end Graph

namespace World

variable {σ : Type} {w : World σ} {hat : Opcode} {fields : List (String × String)}
  {only : Option ActorId}

/-! ### The scripts that hear a hat -/

/-- The slots of all programs, in the order of the actors. -/
def places (w : World σ) : List (ActorId × Handle) :=
  w.actors.entries.flatMap fun e => ((w.graph? e.1).elim [] Graph.handles).map (Prod.mk e.1)

/-- A script hears a hat: it starts under it, and it is not one of an actor that is not meant. -/
def Hears (w : World σ) (hat : Opcode) (fields : List (String × String)) (only : Option ActorId)
    (p : ActorId × Handle) : Prop :=
  (∀ actor, only = some actor → p.1 = actor) ∧
    ∃ g, w.graph? p.1 = some g ∧ g.IsHat hat fields p.2

open Classical in
/-- The scripts that hear a hat, in order. -/
noncomputable def hearers (w : World σ) (hat : Opcode) (fields : List (String × String))
    (only : Option ActorId) : List (ActorId × Handle) :=
  w.places.filter fun p => decide (w.Hears hat fields only p)

theorem hatMatches_iff {b : Block} : hatMatches hat fields b = true ↔ b.IsHat hat fields := by
  simp only [hatMatches, Block.IsHat, Bool.and_eq_true, beq_iff_eq, List.all_eq_true]
  refine and_congr_right fun _ => forall₂_congr fun f _ => ?_
  cases b.field? f.1 <;> simp

/-- No script comes twice. -/
theorem nodup_hearers (w : World σ) (hat : Opcode) (fields : List (String × String))
    (only : Option ActorId) : (w.hearers hat fields only).Nodup := by
  refine List.Nodup.filter _ (List.nodup_flatMap.2 ⟨fun e _ => ?_, ?_⟩)
  · refine List.Nodup.map (fun _ _ he => (Prod.mk.inj he).2) ?_
    cases w.graph? e.1 with
    | none => exact .nil
    | some g => exact g.nodup_slotHandles
  · -- the places of different actors differ in the actor
    refine (List.pairwise_map.1 w.actors.nodup).imp fun {e e'} hne p hp hp' => hne ?_
    obtain ⟨_, _, rfl⟩ := List.mem_map.1 hp
    obtain ⟨_, _, he⟩ := List.mem_map.1 hp'
    exact (Prod.mk.inj he).1.symm

/-- What passes a test is put together as if the rest contributed nothing. -/
theorem flatMap_filter_eq {α β : Type} {l : List α} {q : α → Bool} {f g : α → List β}
    (h : ∀ a ∈ l, g a = if q a then f a else []) : (l.filter q).flatMap f = l.flatMap g := by
  induction l with
  | nil => rfl
  | cons a rest ih =>
    rw [List.flatMap_cons, h a List.mem_cons_self, List.filter_cons,
      ← ih fun b hb => h b (List.mem_cons_of_mem _ hb)]
    split <;> rfl

open Classical in
/-- **The scripts under a matching hat are those that hear it**, in the same order. -/
theorem matchingScripts_eq (hid : w.Identified)
    (hl : ∀ e ∈ w.sprites.entries, e.2.graph.Labelled) (hat : Opcode)
    (fields : List (String × String)) (only : Option ActorId) :
    w.matchingScripts hat fields only = w.hearers hat fields only := by
  unfold matchingScripts hearers places
  rw [Table.values, List.filter_map, List.flatMap_map, List.filter_flatMap]
  refine flatMap_filter_eq fun e he => ?_
  have hkey : e.2.id = e.1 := hid e he
  have hgraph : w.graph? e.1 = (w.sprites.get? e.2.sprite).map (·.graph) := by
    rw [graph?, actor?, (Table.get?_eq_some_iff _ _ _).2 he]
    rfl
  have hmeant : (∀ actor, only = some actor → e.1 = actor) ↔
      ((fun a : Actor => only.all (· == a.id)) ∘ (·.2)) e = true := by
    cases only with
    | none => simp
    | some actor => simp [hkey, eq_comm (a := actor)]
  rw [hgraph]
  split
  · rename_i hall
    cases hs : w.sprites.get? e.2.sprite with
    | none => rfl
    | some s =>
      have hscripts := (hl _ ((Table.get?_eq_some_iff _ _ _).1 hs)).scripts_eq
      simp only [Option.map_some, Option.elim_some]
      rw [hscripts, List.filterMap_filter, ← List.filterMap_eq_filter, List.filterMap_map]
      refine List.filterMap_congr fun top _ => ?_
      have hheard : w.Hears hat fields only (e.1, top) ↔ s.graph.IsHat hat fields top := by
        rw [Hears, hgraph, hs, and_iff_right (hmeant.2 hall)]
        simp
      simp only [Function.comp_apply, Option.guard, hheard, Graph.IsHat]
      cases hb : s.graph.get? top with
      | none => simp
      | some b => cases htop : b.topLevel <;> simp [hatMatches_iff, hkey, htop]
  · rename_i hall
    refine List.filter_eq_nil_iff.2 fun p hp hheard => ?_
    obtain ⟨top, -, rfl⟩ := List.mem_map.1 hp
    exact hall (hmeant.1 (of_decide_eq_true hheard).1)

/-! ### Starting scripts -/

section Rousing

variable {restarts : Bool} {scripts rest : List (ActorId × Handle)} {p q : ActorId × Handle}
  {t : Thread}

/-- A thread that runs one of some scripts starts over, if threads do. -/
def rouse (restarts : Bool) (scripts : List (ActorId × Handle)) (t : Thread) : Thread :=
  if restarts && scripts.any (fun p => runsScript p.1 p.2 t) then t.restart else t

/-- The scripts that no thread runs. -/
def dormant (w : World σ) (scripts : List (ActorId × Handle)) : List (ActorId × Handle) :=
  scripts.filter fun p => (w.threads.filter (runsScript p.1 p.2)).isEmpty

/-- New threads at the top of scripts, numbered from `n` on. -/
def recruits : ThreadId → List (ActorId × Handle) → List Thread
  | _, [] => []
  | n, p :: rest => .start n p.1 p.2 :: recruits (n + 1) rest

/-- Scripts are running: those that did not have new threads, and the others may start over. -/
def roused (w : World σ) (restarts : Bool) (scripts : List (ActorId × Handle)) : World σ :=
  { w with
    threads := w.threads.map (rouse restarts scripts) ++
      recruits w.nextThread (w.dormant scripts)
    nextThread := w.nextThread + (w.dormant scripts).length }

/-- What becomes of the thread of a script under a hat, and the id that the hat gives for it. -/
inductive Roused (w : World σ) (restarts : Bool) (p : ActorId × Handle) :
    Thread → Option ThreadId → Prop
  /-- There was none, and a new one is at the top block, and waits for nothing. -/
  | started {id : ThreadId} (idle : ∀ t ∈ w.threads, runsScript p.1 p.2 t = false)
      (fresh : ∀ t ∈ w.threads, t.id ≠ id) :
      Roused w restarts p
        { id := id
          actor := p.1
          top := some p.2
          stack := [.start p.2 false]
          pending := none
          warpSince := none
          restarting := false
          status := .running
          clicked := false
          reported := none } (some id)
  /-- It is back at its top block, and waits for nothing. -/
  | restarted {t : Thread} (again : restarts = true) (mem : t ∈ w.threads)
      (runs : runsScript p.1 p.2 t = true) :
      Roused w restarts p
        { t with
          stack := [.start p.2 false]
          pending := none
          warpSince := none
          restarting := false
          status := .running } (some t.id)
  /-- It is left alone. -/
  | left {t : Thread} (again : restarts = false) (mem : t ∈ w.threads)
      (runs : runsScript p.1 p.2 t = true) : Roused w restarts p t none

theorem runsScript_iff {actor : ActorId} {top : Handle} :
    runsScript actor top t = true ↔ t.actor = actor ∧ t.top = some top ∧ t.isDone = false := by
  simp [runsScript, and_assoc]

theorem script_of_runsScript (h : runsScript p.1 p.2 t = true) : t.script = (p.1, some p.2) := by
  obtain ⟨ha, ht, -⟩ := runsScript_iff.1 h
  rw [Thread.script, ha, ht]

/-- A thread runs one script. -/
theorem eq_of_runsScript (h : runsScript p.1 p.2 t = true) (h' : runsScript q.1 q.2 t = true) :
    p = q := by
  have he := (script_of_runsScript h).symm.trans (script_of_runsScript h')
  exact Prod.ext (Prod.mk.inj he).1 (Option.some.inj (Prod.mk.inj he).2)

/-- A thread that starts over goes on running its script. -/
@[simp] theorem runsScript_rouse (restarts : Bool) (scripts : List (ActorId × Handle)) (t : Thread)
    (actor : ActorId) (top : Handle) :
    runsScript actor top (rouse restarts scripts t) = runsScript actor top t := by
  unfold rouse
  split
  · rename_i h
    obtain ⟨q, -, hq⟩ := List.any_eq_true.1 (Bool.and_eq_true_iff.1 h).2
    have hrun : t.isDone = false := (runsScript_iff.1 hq).2.2
    change (_ && !t.restart.isDone) = (_ && !t.isDone)
    rw [hrun]
    rfl
  · rfl

theorem id_rouse (restarts : Bool) (scripts : List (ActorId × Handle)) (t : Thread) :
    (rouse restarts scripts t).id = t.id := by
  unfold rouse
  split <;> rfl

/-- A thread of another script is left alone. -/
theorem rouse_of_notMem (h : runsScript p.1 p.2 t = true) (hp : p ∉ scripts) :
    rouse restarts scripts t = t := by
  have hnone : scripts.any (fun q => runsScript q.1 q.2 t) = false :=
    List.any_eq_false.2 fun q hq hrun => hp (eq_of_runsScript h hrun ▸ hq)
  rw [rouse, hnone, Bool.and_false, if_neg Bool.false_ne_true]

theorem runsScript_start (n : ThreadId) (p q : ActorId × Handle) :
    runsScript q.1 q.2 (.start n p.1 p.2) = true ↔ q = p := by
  refine ⟨fun h => ?_, fun h => runsScript_iff.2 ⟨congrArg (·.1) h.symm, ?_, rfl⟩⟩
  · have he := script_of_runsScript h
    exact Prod.ext (Prod.mk.inj he).1.symm (Option.some.inj (Prod.mk.inj he).2).symm
  · exact congrArg (fun q => some q.2) h.symm

theorem recruits_append (n : ThreadId) (l l' : List (ActorId × Handle)) :
    recruits n (l ++ l') = recruits n l ++ recruits (n + l.length) l' := by
  induction l generalizing n with
  | nil => rfl
  | cons p rest ih =>
    rw [List.cons_append, recruits, ih, recruits, List.length_cons, List.cons_append,
      Nat.add_assoc, Nat.add_comm 1]

theorem exists_of_mem_recruits {n : ThreadId} (h : t ∈ recruits n scripts) :
    ∃ k, ∃ p ∈ scripts, t = .start k p.1 p.2 := by
  induction scripts generalizing n with
  | nil => cases h
  | cons p rest ih =>
    rcases List.mem_cons.1 h with rfl | h
    · exact ⟨n, p, List.mem_cons_self, rfl⟩
    · obtain ⟨k, q, hq, he⟩ := ih h
      exact ⟨k, q, List.mem_cons_of_mem _ hq, he⟩

/-- **The threads of other scripts stay as they are**, and none come. -/
theorem filter_roused (w : World σ) (restarts : Bool) {other : Thread → Bool}
    (hrouse : ∀ t, other (rouse restarts scripts t) = other t)
    (hleft : ∀ t, other t = true → rouse restarts scripts t = t)
    (hnew : ∀ n, ∀ p ∈ scripts, other (.start n p.1 p.2) = false) :
    (w.roused restarts scripts).threads.filter other = w.threads.filter other := by
  have hold : (w.threads.map (rouse restarts scripts)).filter other = w.threads.filter other := by
    rw [List.filter_map]
    conv_rhs => rw [← List.map_id (w.threads.filter other)]
    have hcomp : other ∘ rouse restarts scripts = other := funext hrouse
    rw [hcomp]
    exact List.map_congr_left fun t ht => hleft t (List.mem_filter.1 ht).2
  have hrecruits : (recruits w.nextThread (w.dormant scripts)).filter other = [] := by
    refine List.filter_eq_nil_iff.2 fun t ht => ?_
    obtain ⟨k, p, hp, rfl⟩ := exists_of_mem_recruits ht
    rw [hnew k p (List.mem_of_mem_filter hp)]
    exact Bool.false_ne_true
  rw [roused, List.filter_append, hold, hrecruits, List.append_nil]

theorem filter_roused_of_notMem (w : World σ) (restarts : Bool) (hp : p ∉ scripts) :
    (w.roused restarts scripts).threads.filter (runsScript p.1 p.2) =
      w.threads.filter (runsScript p.1 p.2) := by
  refine filter_roused w restarts (fun t => runsScript_rouse _ _ t _ _)
    (fun t ht => rouse_of_notMem ht hp) fun n q hq => ?_
  rw [Bool.eq_false_iff, Ne, runsScript_start]
  exact fun he => hp (he ▸ hq)

theorem rouse_cons (hp : p ∉ rest) (t : Thread) :
    rouse restarts rest (rouse restarts [p] t) = rouse restarts (p :: rest) t := by
  cases hrun : runsScript p.1 p.2 t with
  | true =>
    have hrun' : runsScript p.1 p.2 (rouse restarts [p] t) = true := by rw [runsScript_rouse, hrun]
    rw [rouse_of_notMem hrun' hp]
    simp [rouse, hrun]
  | false =>
    have hleft : rouse restarts [p] t = t := by simp [rouse, hrun]
    rw [hleft, rouse, rouse, List.any_cons, hrun, Bool.false_or]

/-- Scripts may be started one after the other. -/
theorem roused_cons (hp : p ∉ rest) :
    (w.roused restarts [p]).roused restarts rest = w.roused restarts (p :: rest) := by
  have hdormant : (w.roused restarts [p]).dormant rest = w.dormant rest := by
    refine List.filter_congr fun q hq => ?_
    rw [filter_roused_of_notMem w restarts]
    exact fun h => hp (List.mem_singleton.1 h ▸ hq)
  have hcons : w.dormant (p :: rest) = w.dormant [p] ++ w.dormant rest :=
    List.filter_append [p] rest
  have hrecruits : (recruits w.nextThread (w.dormant [p])).map (rouse restarts rest) =
      recruits w.nextThread (w.dormant [p]) := by
    refine (List.map_congr_left fun t ht => ?_).trans (List.map_id _)
    obtain ⟨k, q, hq, rfl⟩ := exists_of_mem_recruits ht
    obtain rfl := List.mem_singleton.1 (List.mem_of_mem_filter hq)
    exact rouse_of_notMem ((runsScript_start k q q).2 rfl) hp
  have hthreads : (w.roused restarts [p]).threads.map (rouse restarts rest) =
      w.threads.map (rouse restarts (p :: rest)) ++ recruits w.nextThread (w.dormant [p]) := by
    rw [roused, List.map_append, List.map_map, hrecruits]
    congr 1
    exact List.map_congr_left fun t _ => rouse_cons hp t
  rw [roused, hthreads, hdormant]
  simp only [roused, hcons, recruits_append, List.length_append, List.append_assoc, Nat.add_assoc]

theorem roused_nil (w : World σ) (restarts : Bool) : w.roused restarts [] = w := by
  have hmap : w.threads.map (rouse restarts []) = w.threads :=
    (List.map_congr_left fun t _ => by simp [rouse]).trans (List.map_id _)
  rw [roused, hmap]
  simp [dormant, recruits]

/-! ### One script -/

/-- A script that no thread runs gets a new thread. -/
theorem startScript_of_idle (hw : w.Settled) (hrest : w.AtRest) (restarts : Bool)
    (hidle : ∀ t ∈ w.threads, runsScript p.1 p.2 t = false) :
    w.startScript restarts p.1 p.2 = (w.roused restarts [p], some w.nextThread) ∧
      (w.roused restarts [p]).threads.filter (runsScript p.1 p.2) =
        [.start w.nextThread p.1 p.2] := by
  have hnone : w.threads.filter (runsScript p.1 p.2) = [] :=
    List.filter_eq_nil_iff.2 fun t ht => by simp [hidle t ht]
  have hroused : w.roused restarts [p] =
      { w with
        threads := w.threads ++ [.start w.nextThread p.1 p.2]
        nextThread := w.nextThread + 1 } := by
    have hdormant : w.dormant [p] = [p] := by simp [dormant, hnone]
    have hmap : w.threads.map (rouse restarts [p]) = w.threads :=
      (List.map_congr_left fun t ht => by simp [rouse, hidle t ht]).trans (List.map_id _)
    rw [roused, hdormant, hmap]
    rfl
  have hcurrent : w.currentRuns p.1 p.2 = false := by rw [currentRuns, hrest.stage]
  have hrunning : w.running? p.1 p.2 = none := by
    rw [running?, hw.spawned, List.append_nil]
    exact List.find?_eq_none.2 fun t ht => by simp [hidle t ht]
  have hpush : w.pushThread p.1 p.2 = (w.roused restarts [p], w.nextThread) := by
    rw [hroused, pushThread]
    simp only
    rw [if_neg (by exact hw.idle ▸ Bool.false_ne_true)]
  constructor
  · rw [startScript, if_neg (by simp [hcurrent])]
    simp only [hrunning, hpush]
  · rw [hroused, List.filter_append, hnone]
    simp [(runsScript_start w.nextThread p p).2 rfl]

/-- The thread that runs a script is the only one. -/
theorem only_of_runsScript (hrest : w.AtRest) {before after : List Thread}
    (hthreads : w.threads = before ++ t :: after) (hrun : runsScript p.1 p.2 t = true) :
    ∀ u ∈ before ++ after, runsScript p.1 p.2 u = false := by
  intro u hu
  refine Bool.eq_false_iff.2 fun hrun' => ?_
  have hscript := (script_of_runsScript hrun').trans (script_of_runsScript hrun).symm
  have hu' := (runsScript_iff.1 hrun').2.2
  have ht' := (runsScript_iff.1 hrun).2.2
  have happart : (before ++ t :: after).Pairwise Thread.Apart :=
    hthreads ▸ (List.pairwise_append.1 hrest.lists).1
  obtain ⟨-, hafter, hacross⟩ := List.pairwise_append.1 happart
  rcases List.mem_append.1 hu with hu | hu
  · exact hacross u hu t List.mem_cons_self hu' ht' hscript
  · exact (List.pairwise_cons.1 hafter).1 u hu ht' hu' hscript.symm

/-- A script that a thread runs keeps it. -/
theorem roused_of_runs (restarts : Bool) {before after : List Thread}
    (hthreads : w.threads = before ++ t :: after) (hrun : runsScript p.1 p.2 t = true)
    (hothers : ∀ u ∈ before ++ after, runsScript p.1 p.2 u = false) :
    w.roused restarts [p] =
        { w with threads := before ++ (if restarts then t.restart else t) :: after } ∧
      (w.roused restarts [p]).threads.filter (runsScript p.1 p.2) =
        [if restarts then t.restart else t] := by
  have hleft : ∀ l : List Thread, (∀ u ∈ l, runsScript p.1 p.2 u = false) →
      l.map (rouse restarts [p]) = l ∧ l.filter (runsScript p.1 p.2) = [] :=
    fun l hl => ⟨(List.map_congr_left fun u hu => by simp [rouse, hl u hu]).trans (List.map_id _),
      List.filter_eq_nil_iff.2 fun u hu => by simp [hl u hu]⟩
  obtain ⟨hbefore, hbefore'⟩ := hleft before fun u hu => hothers u (List.mem_append_left _ hu)
  obtain ⟨hafter, hafter'⟩ := hleft after fun u hu => hothers u (List.mem_append_right _ hu)
  have hthread : rouse restarts [p] t = if restarts then t.restart else t := by
    simp [rouse, hrun]
  have hroused : w.roused restarts [p] =
      { w with threads := before ++ (if restarts then t.restart else t) :: after } := by
    have hdormant : w.dormant [p] = [] := by simp [dormant, hthreads, hrun]
    rw [roused, hdormant, hthreads, List.map_append, List.map_cons, hbefore, hafter, hthread]
    simp [recruits]
  refine ⟨hroused, ?_⟩
  rw [hroused, List.filter_append, hbefore', List.nil_append, List.filter_cons, hafter', ← hthread,
    runsScript_rouse, hrun, if_pos rfl]

/-- **Starting one script**: its thread starts over or is new, and no other is touched. -/
theorem startScript_rouses (hw : w.Settled) (hrest : w.AtRest) (restarts : Bool)
    (p : ActorId × Handle) :
    (w.startScript restarts p.1 p.2).1 = w.roused restarts [p] ∧
      ∃ t, (w.roused restarts [p]).threads.filter (runsScript p.1 p.2) = [t] ∧
        Roused w restarts p t (w.startScript restarts p.1 p.2).2 := by
  cases hfind : w.threads.find? (runsScript p.1 p.2) with
  | none =>
    have hidle : ∀ t ∈ w.threads, runsScript p.1 p.2 t = false := fun t ht =>
      Bool.eq_false_iff.2 (List.find?_eq_none.1 hfind t ht)
    obtain ⟨hstart, hfilter⟩ := startScript_of_idle hw hrest restarts hidle
    rw [hstart]
    exact ⟨rfl, _, hfilter, .started hidle fun t ht => Nat.ne_of_lt (hw.lt t ht)⟩
  | some t =>
    have hrun := List.find?_some hfind
    have hmem := List.mem_of_find?_eq_some hfind
    obtain ⟨before, after, hthreads, hmodify⟩ := modifyFirst_of_find? Thread.restart hfind
    obtain ⟨hroused, hfilter⟩ := roused_of_runs restarts hthreads hrun
      (only_of_runsScript hrest hthreads hrun)
    have hcurrent : w.currentRuns p.1 p.2 = false := by rw [currentRuns, hrest.stage]
    have hrunning : w.running? p.1 p.2 = some t := by
      rw [running?, hw.spawned, List.append_nil, hfind]
    rw [startScript, if_neg (by simp [hcurrent])]
    simp only [hrunning]
    refine ⟨?_, _, hfilter, ?_⟩
    · rw [hroused]
      cases restarts with
      | false => exact congrArg (fun l => { w with threads := l }) hthreads
      | true =>
        have hany : w.threads.any (runsScript p.1 p.2) = true :=
          List.any_eq_true.2 ⟨t, hmem, hrun⟩
        simp only [if_true, modifyRunning, hany, hmodify]
    · cases restarts with
      | false => exact .left rfl hmem hrun
      | true =>
        have hagain : t.restart =
            { t with
              stack := [.start p.2 false]
              pending := none
              warpSince := none
              restarting := false
              status := .running } := by
          rw [Thread.restart, (runsScript_iff.1 hrun).2.1]
        rw [if_pos rfl, if_pos rfl, hagain]
        exact .restarted rfl hmem hrun

/-! ### One script after the other -/

/-- Starting another script changes nothing about what becomes of this one. -/
theorem Roused.of_other {id : Option ThreadId} (hne : q ≠ p)
    (h : Roused (w.roused restarts [p]) restarts q t id) : Roused w restarts q t id := by
  have hkept : ∀ u ∈ w.threads, rouse restarts [p] u ∈ (w.roused restarts [p]).threads :=
    fun u hu => List.mem_append_left _ (List.mem_map_of_mem hu)
  have hmem : ∀ u ∈ (w.roused restarts [p]).threads, runsScript q.1 q.2 u = true →
      u ∈ w.threads := by
    intro u hu hrun
    have hfilter := filter_roused_of_notMem w restarts (mt List.mem_singleton.1 hne)
    exact (List.mem_filter.1 (hfilter ▸ List.mem_filter.2 ⟨hu, hrun⟩)).1
  cases h with
  | started idle fresh =>
    refine .started (fun u hu => ?_) fun u hu => ?_
    · rw [← runsScript_rouse restarts [p] u]
      exact idle _ (hkept u hu)
    · rw [← id_rouse restarts [p] u]
      exact fresh _ (hkept u hu)
  | restarted again mem runs => exact .restarted again (hmem _ mem runs) runs
  | left again mem runs => exact .left again (hmem _ mem runs) runs

/-- **Starting scripts**, one after the other. -/
theorem startScripts_rouses (restarts : Bool) (hw : w.Settled) (hrest : w.AtRest)
    (hnodup : scripts.Nodup) :
    (startScripts restarts scripts w).1 = w.roused restarts scripts ∧
      ∃ calls, (startScripts restarts scripts w).2 = calls.reduceOption ∧
        List.Forall₂ (fun p id => ∃ t,
          (w.roused restarts scripts).threads.filter (runsScript p.1 p.2) = [t] ∧
            Roused w restarts p t id) scripts calls := by
  induction scripts generalizing w with
  | nil => exact ⟨(w.roused_nil restarts).symm, [], rfl, .nil⟩
  | cons p rest ih =>
    obtain ⟨hp, hnodup⟩ := List.nodup_cons.1 hnodup
    obtain ⟨hstep, t, hfilter, hroused⟩ := startScript_rouses hw hrest restarts p
    have hw' : (w.roused restarts [p]).Settled :=
      hstep ▸ hw.of_grown (grown_startScript w restarts p.1 p.2)
    have hrest' : (w.roused restarts [p]).AtRest :=
      hstep ▸ hrest.of_keeps (keeps_startScript w restarts p.1 p.2)
    obtain ⟨hrun, calls, hcalls, hall⟩ := ih hw' hrest' hnodup
    rw [roused_cons hp] at hrun hall
    refine ⟨?_, (w.startScript restarts p.1 p.2).2 :: calls, ?_, .cons ⟨t, ?_, hroused⟩ ?_⟩
    · simp only [startScripts, hstep, hrun]
    · simp only [startScripts, hstep, hcalls]
      cases (w.startScript restarts p.1 p.2).2 <;> rfl
    · rw [← roused_cons hp, filter_roused_of_notMem _ _ hp, hfilter]
    · -- the scripts that follow are other ones
      have hother : ∀ q ∈ rest, q ≠ p := fun q hq he => hp (he ▸ hq)
      refine ((List.forall₂_and_left rest calls).2 ⟨hother, hall⟩).imp fun q id h => ?_
      obtain ⟨hne, u, hu, hr⟩ := h
      exact ⟨u, hu, hr.of_other hne⟩

/-- **A hat starts exactly the scripts that hear it.** Take a world between passes in which every
script runs once at most. Each script that hears the hat then has one thread that has not ended: a
new one at its top block if there was none, else the same one, back at its top block if the hat
starts scripts over and as it was if not. The hat gives the ids of those that were started and
started over, in the order of the scripts. All other threads stay as they are, and so does the rest
of the world. -/
theorem startHats_rouses (hw : w.Settled) (hrest : w.AtRest) (hid : w.Identified)
    (hl : ∀ e ∈ w.sprites.entries, e.2.graph.Labelled)
    (hhat : hat.restartsRunning? = some restarts) (fields : List (String × String))
    (only : Option ActorId) :
    ∃ w' calls, w.startHats hat fields only = (w', calls.reduceOption) ∧
      List.Forall₂ (fun p id => ∃ t, w'.threads.filter (runsScript p.1 p.2) = [t] ∧
        Roused w restarts p t id) (w.hearers hat fields only) calls ∧
      (w'.threads.filter fun t => (w.hearers hat fields only).all fun p =>
          !runsScript p.1 p.2 t) =
        (w.threads.filter fun t => (w.hearers hat fields only).all fun p =>
          !runsScript p.1 p.2 t) ∧
      w' = { w with threads := w'.threads, nextThread := w'.nextThread } := by
  obtain ⟨hstart, calls, hcalls, hall⟩ :=
    startScripts_rouses restarts hw hrest (w.nodup_hearers hat fields only)
  refine ⟨w.roused restarts (w.hearers hat fields only), calls, ?_, hall, ?_, rfl⟩
  · rw [startHats, hhat, ← hstart, ← hcalls]
    simp only
    rw [matchingScripts_eq hid hl]
  · refine filter_roused w restarts (fun t => by simp) (fun t ht => ?_) fun n p hp => ?_
    · have hnone : (w.hearers hat fields only).any (fun p => runsScript p.1 p.2 t) = false := by
        simpa [List.all_eq_true] using ht
      rw [rouse, hnone, Bool.and_false, if_neg Bool.false_ne_true]
    · have hruns : runsScript p.1 p.2 (.start n p.1 p.2) = true := (runsScript_start n p p).2 rfl
      exact List.all_eq_false.2 ⟨p, hp, by simp [hruns]⟩

end Rousing

/-- A script that waits for a message, and one that waits for a key. -/
def chorus : Graph :=
  Graph.empty.run
    [.create { Block.detached "song" (.event .whenBroadcastReceived) with
        fields := Table.empty.insert "BROADCAST_OPTION" ⟨"Go", none⟩
        topLevel := true },
      .create { Block.detached "solo" (.event .whenKeyPressed) with
        fields := Table.empty.insert "KEY_OPTION" ⟨"space", none⟩
        topLevel := true }]

/-- Two actors have these scripts, and one script of each runs. -/
def bandWorld : World Unit :=
  (((((blank .standard ()).addSprite "Cat" chorus).1.addSprite "Dog" chorus).1.toggleScript 0
    ⟨0, 0⟩).1.toggleScript 1 ⟨1, 0⟩).1

/-- The message starts the script of the first actor over and that of the second one, and the other
script of that actor goes on. -/
theorem startHats_rouses_chorus :
    bandWorld.Settled ∧ bandWorld.AtRest ∧ bandWorld.Identified ∧
      (∀ e ∈ bandWorld.sprites.entries, e.2.graph.Labelled) ∧
      bandWorld.hearers (.event .whenBroadcastReceived) [("BROADCAST_OPTION", "GO")] none =
        [(0, ⟨0, 0⟩), (1, ⟨0, 0⟩)] ∧
      ∃ w' calls, bandWorld.startHats (.event .whenBroadcastReceived) [("BROADCAST_OPTION", "GO")]
          none = (w', calls.reduceOption) ∧ calls.reduceOption = [1, 3] ∧
        List.Forall₂ (fun p id => ∃ t, w'.threads.filter (runsScript p.1 p.2) = [t] ∧
          Roused bandWorld true p t id) [(0, ⟨0, 0⟩), (1, ⟨0, 0⟩)] calls ∧
        w'.threads.map (·.id) = [1, 2, 3] := by
  have hplay : (blank Settings.standard ()).play [.addSprite "Cat" chorus, .addSprite "Dog" chorus,
      .toggleScript 0 ⟨0, 0⟩, .toggleScript 1 ⟨1, 0⟩] = some bandWorld := rfl
  have hshow := show_of_play hplay
  have hw := settled_of_reachable hshow.reachable
  have hblank : (blank Settings.standard ()).AtRest := ⟨.nil, rfl⟩
  have hrest := hblank.play hplay
  have hl : ∀ e ∈ bandWorld.sprites.entries, e.2.graph.Labelled := by
    have hentries : bandWorld.sprites.entries =
        [(0, ⟨"Cat", chorus.indexed, 0, []⟩), (1, ⟨"Dog", chorus.indexed, 1, []⟩)] := rfl
    have hchorus : chorus.indexed.Labelled :=
      (Graph.labelled_run (by simp [Operation.KeepsLabels])).indexed
    rw [hentries]
    simp [hchorus]
  have hhearers : bandWorld.hearers (.event .whenBroadcastReceived) [("BROADCAST_OPTION", "GO")]
      none = [(0, ⟨0, 0⟩), (1, ⟨0, 0⟩)] := by
    rw [← matchingScripts_eq hshow.identified hl]
    decide +kernel
  have hhat : (Opcode.event .whenBroadcastReceived).restartsRunning? = some true := rfl
  obtain ⟨w', calls, hstart, hall, -⟩ :=
    startHats_rouses hw hrest hshow.identified hl hhat [("BROADCAST_OPTION", "GO")] none
  have hids : (bandWorld.startHats (.event .whenBroadcastReceived) [("BROADCAST_OPTION", "GO")]
      none).2 = [1, 3] ∧ (bandWorld.startHats (.event .whenBroadcastReceived)
        [("BROADCAST_OPTION", "GO")] none).1.threads.map (·.id) = [1, 2, 3] := by
    decide +kernel
  rw [hstart] at hids
  exact ⟨hw, hrest, hshow.identified, hl, hhearers, w', calls, hstart, hids.1, hhearers ▸ hall,
    hids.2⟩

end World

end Stagecraft
