import Stagecraft.Proofs.Graph.Coverage
import Stagecraft.Proofs.Saved.Cycles

/-!
# Moves in programs with missing blocks

A project that is loaded leniently may refer to blocks that it does not have. If the parents in
its programs agree with successors and inputs, and scripts lead to all blocks, then scripts lead to
all blocks after a move as well, unless it puts a block behind one that has a successor, and either
a missing block comes after the moved ones or the successor starts a script that leads in a circle.

* `World.exists_of_load` : the actors of a project have the programs that were loaded for them,
  whatever is wrong with it;
* `World.covered_of_load` : **what a move in such a program loses**.
-/

namespace Stagecraft

namespace World

variable {σ : Type}

/-- Whatever is wrong with a project, its actors have the programs that were loaded for them. -/
theorem exists_of_load (w : World σ) (p : SavedProject) :
    List.Forall₂ (fun a id => (w.load p).1.graph? id = some (Graph.ofSaved a.blocks).indexed)
      p.targets (w.load p).2 := by
  obtain ⟨w', hw'⟩ : ∃ w' : World σ, w.load p = w'.loadActors p.targets := ⟨_, rfl⟩
  rw [hw']
  exact (w'.hosts_loadActors p.targets).imp fun _ _ h => h.graph?

/-- **Moves lose blocks only where others are missing, or in circles.** A project is loaded,
whatever is wrong with it. In each program in which the parents of live blocks agree with
successors and inputs, and some script leads to every live block, a move leaves no live block
without a script that leads to it, unless it puts a block behind another one and drops or uproots
the successor of that: the moved blocks end in a handle without block, or the successor itself
starts the one script that leads around to it. Then the successor is live, but no script leads to
it any more. -/
theorem covered_of_load (w : World σ) (p : SavedProject) :
    List.Forall₂ (fun _ id => ∃ g, (w.load p).1.graph? id = some g ∧
        (g.Agreeing → g.Covered → ∀ h place, (g.move h place).2 = true →
          ((g.move h place).1.Covered ↔
            ∀ q n, place = .after q → ¬g.Drops h q n ∧ ¬g.Uproots h q n) ∧
          ∀ q n, place = .after q → g.Drops h q n ∨ g.Uproots h q n →
            (g.move h place).1.contains n = true ∧ ¬(g.move h place).1.OnScript n))
      p.targets (w.load p).2 := by
  refine (w.exists_of_load p).imp fun a id hg => ⟨_, hg, fun ha hcov h place hm => ?_⟩
  have hc := (Graph.raw_ofSaved a.blocks).consistent.indexed
  refine ⟨Graph.covered_move_iff hc ha hcov hm, ?_⟩
  rintro q n rfl hlost
  exact Graph.lost_of_move hc ha hcov hm hlost

/-- Two blocks, one after the other, and a block that is followed by a missing one. -/
def gap : SavedActor where
  __ := Graph.ring
  blocks := .ofList
    [("first", { Graph.ringed "second" [] with parent := none, topLevel := true }),
      ("second", { Graph.ringed "second" [] with next := none }),
      ("loose", { Graph.ringed "missing" [] with parent := none, topLevel := true })]

/-- The program of these blocks. -/
def gapped : Graph := (Graph.ofSaved gap.blocks).indexed

theorem agreeing_gapped : gapped.Agreeing := by decide +kernel

/-- The second block is led to from the first one, and the others start scripts. -/
theorem covered_gapped : gapped.Covered := by
  intro x hx
  obtain ⟨b, hb⟩ := Graph.contains_iff.1 hx
  have htop : gapped.OnScript ⟨0, 0⟩ := .top (by decide +kernel)
  have hall : ∀ x ∈ gapped.handles, gapped.contains x = true →
      gapped.starts? x = some true ∨ x ∈ gapped.children ⟨0, 0⟩ := by decide +kernel
  exact (hall x (Graph.mem_handles hb) hx).elim .top htop.child

/-- The successor of the first block is dropped if the one before the missing block is put there. -/
theorem drops_gapped : gapped.Drops ⟨2, 0⟩ ⟨0, 0⟩ ⟨1, 0⟩ := by
  refine ⟨by decide +kernel, by decide +kernel,
    ⟨[⟨2, 0⟩, ⟨3, 0⟩], ⟨3, 0⟩, ?_, rfl, by decide +kernel⟩, fun m i hi => ?_⟩
  · exact .cons (by decide +kernel) (.last (by decide +kernel))
  · cases hi

/-- If the second block is put after the one before the missing block, nothing is dropped. -/
theorem covered_of_load_gap :
    ∃ g, ((blank .standard ()).load ⟨[gap]⟩).1.graph? 0 = some g ∧ g.Agreeing ∧ g.Covered ∧
      (g.move ⟨2, 0⟩ (.after ⟨1, 0⟩)).2 = true ∧ (g.move ⟨2, 0⟩ (.after ⟨1, 0⟩)).1.Covered := by
  have hall := covered_of_load (blank .standard ()) ⟨[gap]⟩
  obtain ⟨g, hg, hmoves⟩ := (List.forall₂_cons.1 hall).1
  obtain rfl : gapped = g := Option.some.inj ((List.forall₂_cons.1
    ((blank .standard ()).exists_of_load ⟨[gap]⟩)).1.symm.trans hg)
  have hm : (gapped.move ⟨2, 0⟩ (.after ⟨1, 0⟩)).2 = true := by decide +kernel
  have hnext : (gapped.cutOff ⟨2, 0⟩).next? ⟨1, 0⟩ = none := by decide +kernel
  refine ⟨gapped, hg, agreeing_gapped, covered_gapped, hm, ?_⟩
  refine (hmoves agreeing_gapped covered_gapped _ _ hm).1.2 ?_
  rintro q n ⟨⟩
  exact ⟨fun hdrops => Option.some_ne_none n (hdrops.next.symm.trans hnext),
    fun hup => Option.some_ne_none n (hup.next.symm.trans hnext)⟩

/-- If it is put after the first block, no script leads to the second one any more. -/
theorem lost_of_load_gap :
    ∃ g, ((blank .standard ()).load ⟨[gap]⟩).1.graph? 0 = some g ∧ g.Agreeing ∧ g.Covered ∧
      (g.move ⟨2, 0⟩ (.after ⟨0, 0⟩)).2 = true ∧ ¬(g.move ⟨2, 0⟩ (.after ⟨0, 0⟩)).1.Covered := by
  have hc := (Graph.raw_ofSaved gap.blocks).consistent.indexed
  have hm : (gapped.move ⟨2, 0⟩ (.after ⟨0, 0⟩)).2 = true := by decide +kernel
  obtain ⟨hlive, hlost⟩ := Graph.lost_of_move hc agreeing_gapped covered_gapped hm
    (.inl drops_gapped)
  exact ⟨gapped, rfl, agreeing_gapped, covered_gapped, hm, fun hcov => hlost (hcov _ hlive)⟩

end World

end Stagecraft
