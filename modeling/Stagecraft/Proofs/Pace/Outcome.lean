import Stagecraft.Proofs.Pace.Course
import Stagecraft.Proofs.Pace.Start

/-!
# What a lone script computes

The only thread of a world that is ready is on its own, so it takes the same course at any pace.

* `World.same_of_courses` : **settings that pace a run do not change what a lone script computes**;
* `World.apart_of_courses_relapse` : a call that is plugged into an input can tell the time.
-/

namespace Stagecraft.World

variable {σ : Type} {c : Settings} {w : World σ} {g : Graph} {top : Handle} {t : Thread}

/-! ### The same course -/

/-- The only thread of a world that is ready is on its own. -/
theorem Ready.solo (h : w.Ready c) (hthreads : w.threads = [t]) (htop : t.top = some top)
    (hgraph : w.graph? t.actor = some g) : w.Solo c g top t := by
  have hfresh := h.fresh t (by simp [hthreads])
  obtain ⟨block, hblock, hstack⟩ := hfresh.stack
  obtain rfl : top = block := Option.some.inj (htop.symm.trans hblock)
  refine ⟨hthreads, h.current, ?_⟩
  exact {
    settings := h.settings
    scheduler := rfl
    threads := rfl
    spawned := h.spawned
    events := h.events
    current := rfl
    graph := hgraph
    within := by simp [stageFor, hstack, Graph.Within.top, Frame.start]
    awake := by simp [stageFor, hfresh.status]
    steady := hfresh.restarting }

theorem Ready.defines_graph? (h : w.Ready c) {actor : ActorId}
    (hgraph : w.graph? actor = some g) : g.Defines := by
  obtain ⟨s, hs, rfl⟩ := Option.map_eq_some_iff.1 hgraph
  obtain ⟨a, -, hs⟩ := Option.bind_eq_some_iff.1 hs
  exact h.defines a.sprite s hs

/-- **Settings that pace a run do not change what a lone script computes.** In a project exactly one
thread was started, by a script whose blocks are plain and plug no call into an input. Then any two
runs to the end that draw the same random numbers, under settings that differ in pace only and with
any readings of the clock, execute the same blocks and leave the same actors and faults behind. -/
theorem same_of_courses {settings settings' : Settings}
    (hsettings : settings.timeless = settings'.timeless) {host : σ} {dice : Nat → Nat}
    {p : SavedProject} {starts : List Start} {w w' : World σ} {blocks blocks' : List Handle}
    (hthreads : (opened settings host p starts dice).threads = [t]) (htop : t.top = some top)
    (hgraph : (opened settings host p starts dice).graph? t.actor = some g)
    (hplain : g.Plain top) (hunplugged : g.Unplugged top)
    (hcourse : Course (opened settings host p starts dice) blocks w)
    (hcourse' : Course (opened settings' host p starts dice) blocks' w') :
    blocks = blocks' ∧ w.actors = w'.actors ∧ w.faults = w'.faults := by
  have hready := ready_opened settings host p starts dice
  have hready' := ready_opened settings' host p starts dice
  have hsame := timeless_opened hsettings host p starts dice
  have hthreads' : (opened settings' host p starts dice).threads = [t] :=
    (congrArg World.threads hsame :).symm.trans hthreads
  have hgraph' : (opened settings' host p starts dice).graph? t.actor = some g :=
    (congrArg (fun w => w.graph? t.actor) hsame :).symm.trans hgraph
  have hlive : t.isDone = false := by
    rw [Thread.isDone, (hready.fresh t (by simp [hthreads])).status]
    rfl
  have hstage : ((opened settings host p starts dice).stageFor t).timeless =
      ((opened settings' host p starts dice).stageFor t).timeless :=
    (congrArg (fun w : World σ => (w.stageFor t).timeless) hsame :)
  exact hcourse.same ⟨hplain, hunplugged, hready.defines_graph? hgraph⟩ hcourse'
    (hready.solo hthreads htop hgraph) (hready'.solo hthreads' htop hgraph') hlive hsettings hstage

/-! ### Two projects -/

/-- Take steps until no thread is left, at most `n`, while the clock goes on as told; gives the
blocks that are executed. -/
def follow (fuel : Nat) (drift : Nat → Nat) : Nat → World σ → Option (List Handle × World σ)
  | 0, w => if w.threads = [] then some ([], w) else none
  | n + 1, w =>
    if w.threads = [] then some ([], w)
    else
      let now := w.setTime w.clock drift
      (now.step .empty fuel).bind fun r =>
        (follow fuel drift n r.1).map fun rest => (now.blocks fuel ++ rest.1, rest.2)

theorem course_of_follow {fuel n : Nat} {drift : Nat → Nat} :
    ∀ {w w' : World σ} {blocks : List Handle},
      follow fuel drift n w = some (blocks, w') → Course w blocks w' := by
  induction n with
  | zero =>
    intro w w' blocks h
    unfold follow at h
    split at h
    · cases h
      exact .nil ‹_›
    · cases h
  | succ n ih =>
    intro w w' blocks h
    unfold follow at h
    split at h
    · cases h
      exact .nil ‹_›
    · obtain ⟨⟨w₁, ended⟩, hstep, hrest⟩ := Option.bind_eq_some_iff.1 h
      obtain ⟨⟨rest, w₂⟩, hfollow, he⟩ := Option.map_eq_some_iff.1 hrest
      cases he
      exact .step w.clock drift hstep (ih hfollow)

/-- The lengths of the lists of all actors. -/
def listLengths (w : World σ) : List Nat :=
  w.actors.values.flatMap fun a => a.vars.values.filterMap fun v => v.items?.map List.length

/-- A saved block without links. -/
def unlinked (opcode : String) : SavedBlock :=
  ⟨opcode, none, none, .empty, .empty, none, false, false, 0.0, 0.0⟩

/-- A block that adds to a list. -/
def addition : SavedBlock :=
  { unlinked "data_addtolist" with fields := Table.empty.insert "LIST" ⟨"items", none⟩ }

/-- A project with one sprite, which runs something all at once when the green flag is clicked. -/
def atOnce (first : String) (blocks : List (String × SavedBlock)) : SavedProject :=
  let hat : SavedBlock :=
    { unlinked "event_whenflagclicked" with topLevel := true, next := some "once" }
  let once : SavedBlock := { unlinked "control_all_at_once" with
    inputs := Table.empty.insert "SUBSTACK" (.branch first) }
  ⟨[⟨"Cat", false, .empty, .empty, .ofList (("hat", hat) :: ("once", once) :: blocks), 0.0, 0.0,
    true⟩]⟩

/-- A counted loop that adds to a list. -/
def tally : SavedProject :=
  atOnce "repeat" [("add", addition),
    ("repeat", { unlinked "control_repeat" with
      inputs := .ofList [("TIMES", .literal (.number 2.0)), ("SUBSTACK", .branch "add")] })]

/-- No time for warp frames, and more passes and rounds. -/
def hasty : Settings :=
  { Settings.standard with framerate := 60, warpTimeMs := 0, turboMode := true,
                           repeatUntilRedraw := true }

/-- The loop is cut into other turns, and the list has two items all the same. -/
theorem same_of_courses_tally : ∃ blocks w w',
    Course (opened .standard () tally [.greenFlag]) blocks w ∧
    Course (opened hasty () tally [.greenFlag]) blocks w' ∧
    w.listLengths = [2] ∧ w.actors = w'.actors ∧ w.faults = w'.faults := by
  have hrun : (follow 9 (fun _ => 1) 3 (opened .standard () tally [.greenFlag])).map
      (·.2.listLengths) = some [2] := by decide +kernel
  have hrun' : (follow 9 (fun _ => 1) 3 (opened hasty () tally [.greenFlag])).isSome = true := by
    decide +kernel
  have hthreads : (opened .standard () tally [.greenFlag]).threads = [Thread.start 1 0 ⟨0, 0⟩] := by
    decide +kernel
  have hchecked : ((opened .standard () tally [.greenFlag]).graph? 0).any (fun g =>
      g.blocks.all Block.isPlain && g.blocks.all g.plugsNoCall) = true := by decide +kernel
  obtain ⟨⟨blocks, w⟩, hfollow, hitems⟩ := Option.map_eq_some_iff.1 hrun
  obtain ⟨⟨blocks', w'⟩, hfollow'⟩ := Option.isSome_iff_exists.1 hrun'
  obtain ⟨g, hgraph, hblocks⟩ := (Option.any_eq_true _ _).1 hchecked
  obtain ⟨hplain, hplugs⟩ := Bool.and_eq_true_iff.1 hblocks
  have hcourse := course_of_follow hfollow
  have hcourse' := course_of_follow hfollow'
  have hsettings : Settings.standard.timeless = hasty.timeless := rfl
  have htop : (Thread.start 1 0 ⟨0, 0⟩).top = some ⟨0, 0⟩ := rfl
  obtain ⟨rfl, hactors, hfaults⟩ := same_of_courses hsettings hthreads htop hgraph
    (Graph.plain_of_all hplain _) (Graph.unplugged_of_all hplugs _) hcourse hcourse'
  exact ⟨blocks, w, w', hcourse, hcourse', hitems, hactors, hfaults⟩

/-- A call whose inputs add to a list, call the procedure and end the inner call. -/
def relapse : SavedProject :=
  let signature (warp : Bool) : Signature := ⟨"q", [], [], [], warp⟩
  atOnce "first" [("first", { addition with next := some "call" }),
    ("call", { unlinked "procedures_call" with
      inputs := .ofList
        [("N", .reporter "count"), ("A", .reporter "inner"), ("B", .reporter "stop")]
      signature := some (signature false) }),
    ("count", addition),
    ("inner", { unlinked "procedures_call" with signature := some (signature false) }),
    ("stop", { unlinked "control_stop" with
      fields := Table.empty.insert "STOP_OPTION" ⟨"this script", none⟩ }),
    ("definition", { unlinked "procedures_definition" with
      inputs := Table.empty.insert prototypeInput (.reporter "prototype") }),
    ("prototype", { unlinked "procedures_prototype" with signature := some (signature true) })]

/-- A call in an input can be out of time. It yields, and the block that it is plugged into is
executed again: the list has an item more. -/
theorem apart_of_courses_relapse :
    Settings.standard.timeless = hasty.timeless ∧
    (opened .standard () relapse [.greenFlag]).threads = [Thread.start 1 0 ⟨0, 0⟩] ∧
    (∃ g, (opened .standard () relapse [.greenFlag]).graph? 0 = some g ∧ g.Plain ⟨0, 0⟩) ∧
    ∃ blocks w blocks' w',
      Course (opened .standard () relapse [.greenFlag]) blocks w ∧
      Course (opened hasty () relapse [.greenFlag]) blocks' w' ∧
      blocks ≠ blocks' ∧ w.actors ≠ w'.actors := by
  have hrun : (follow 9 (fun _ => 1) 3 (opened .standard () relapse [.greenFlag])).map
      (fun r => (r.1.length, r.2.listLengths)) = some (4, [2]) := by decide +kernel
  have hrun' : (follow 9 (fun _ => 1) 3 (opened hasty () relapse [.greenFlag])).map
      (fun r => (r.1.length, r.2.listLengths)) = some (5, [3]) := by decide +kernel
  have hchecked : ((opened .standard () relapse [.greenFlag]).graph? 0).any (fun g =>
      g.blocks.all Block.isPlain) = true := by decide +kernel
  obtain ⟨⟨blocks, w⟩, hfollow, he⟩ := Option.map_eq_some_iff.1 hrun
  obtain ⟨⟨blocks', w'⟩, hfollow', he'⟩ := Option.map_eq_some_iff.1 hrun'
  obtain ⟨hlength, hitems⟩ := Prod.mk.inj he
  obtain ⟨hlength', hitems'⟩ := Prod.mk.inj he'
  obtain ⟨g, hgraph, hblocks⟩ := (Option.any_eq_true _ _).1 hchecked
  refine ⟨rfl, by decide +kernel, ⟨g, hgraph, Graph.plain_of_all hblocks _⟩, blocks, w, blocks', w',
    course_of_follow hfollow, course_of_follow hfollow', fun hsame => ?_, fun hsame => ?_⟩
  · simp only at hlength hlength'
    rw [hsame, hlength'] at hlength
    cases hlength
  · simp only [listLengths] at hitems hitems'
    rw [hsame, hitems'] at hitems
    cases hitems

end Stagecraft.World
