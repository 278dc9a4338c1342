import Stagecraft.Proofs.Schedule.Timeline

/-!
# What leads from one moment of a run to the next

A run has moments between its turns, where there is only a world, and moments in its turns, where a
thread is out of the lists: before and after each block. Something that leads from every moment to
the next leads from any moment to any later one.

* `Course` : how the moments of a run are seen, and what leads from one to another;
* `Course.Tells`, `Course.Telling` : from a world on, along blocks, and up to another world;
* `Course.tells_of_plays` : **along the blocks of a run**, also in a step that has not come to its
  end.
-/

namespace Stagecraft

open World

/-- How the moments of a run are seen, and what leads from one to another. -/
structure Course (σ : Type) where
  /-- What is seen of a moment. -/
  View : Type
  /-- What is seen between turns. -/
  world : World σ → View
  /-- What is seen in a turn. -/
  scene : Scene σ → View
  /-- From one moment to a later one. -/
  Leads : View → View → Prop
  /-- What is told of each block. -/
  Each : Execution σ → Prop
  trans : ∀ {v v' v''}, Leads v v' → Leads v' v'' → Leads v v''
  aside : ∀ {w w'}, Aside w w' → Leads (world w) (world w')
  events : ∀ w : World σ, Leads (world w) (world w.dispatchEvents)
  flush : ∀ w : World σ, Leads (world w) (world w.flushCloud.1)

namespace Course

variable {σ : Type} (C : Course σ)

/-- From a world on, along blocks. -/
structure Tells (w : World σ) (l : List (Execution σ)) : Prop where
  each : ∀ e ∈ l, C.Each e
  first : ∀ e ∈ l, C.Leads (C.world w) (C.scene e.scene)
  order : l.Pairwise fun a b => C.Leads (C.scene a.after.2.1) (C.scene b.scene)

/-- So it is up to another world. -/
structure Telling (w : World σ) (l : List (Execution σ)) (w' : World σ) : Prop extends
    Tells C w l where
  whole : C.Leads (C.world w) (C.world w')
  last : ∀ e ∈ l, C.Leads (C.scene e.after.2.1) (C.world w')

variable {C} {ext : Extensions σ} {fuel : Nat} {w w' w'' : World σ} {l l' : List (Execution σ)}
  {D : World σ → World σ → Prop} {P : Extensions σ → Prop}

theorem Telling.nil (h : C.Leads (C.world w) (C.world w')) : C.Telling w [] w' :=
  ⟨⟨fun _ he => (by cases he), fun _ he => (by cases he), .nil⟩, h, fun _ he => by cases he⟩

theorem Telling.stop (h : C.Telling w l w') (h' : C.Tells w' l') : C.Tells w (l ++ l') := by
  refine ⟨fun e he => (List.mem_append.1 he).elim (h.each e) (h'.each e), fun e he => ?_,
    List.pairwise_append.2 ⟨h.order, h'.order, fun a ha b hb => ?_⟩⟩
  · rcases List.mem_append.1 he with he | he
    · exact h.first e he
    · exact C.trans h.whole (h'.first e he)
  · exact C.trans (h.last a ha) (h'.first b hb)

theorem Telling.append (h : C.Telling w l w') (h' : C.Telling w' l' w'') :
    C.Telling w (l ++ l') w'' := by
  refine ⟨h.stop h'.toTells, C.trans h.whole h'.whole, fun e he => ?_⟩
  rcases List.mem_append.1 he with he | he
  · exact C.trans (h.last e he) h'.whole
  · exact h'.last e he

/-- It is told of every turn. -/
structure Visits (C : Course σ) (ext : Extensions σ) : Prop where
  halt : ∀ (fuel : Nat) (p : Pass σ) (i : Nat),
    C.Tells p.world (Pass.visitExecutions.visitAt ext fuel p i)
  visit : ∀ {fuel : Nat} {p p' : Pass σ} {i : Nat}, Pass.visitAt ext fuel p i = some p' →
    C.Telling p.world (Pass.visitExecutions.visitAt ext fuel p i) p'.world

theorem annals_telling (hC : C.Visits ext) (fuel : Nat) (w : World σ) :
    Annals ext fuel (Pass.visitExecutions.visitAt ext fuel) w C.Telling C.Tells where
  append := Telling.append
  stop := Telling.stop
  ends h := h.toTells
  aside ha := .nil (C.aside ha)
  visit _ hv := hC.visit hv
  halt _ _ := hC.halt fuel _ _

/-- So it is told of a step, also when it does not come to its end. -/
theorem tells_step (hC : C.Visits ext) (hext : ext.Orderly) (hw : w.Settled) (fuel : Nat) :
    C.Tells w (Execution.ofStep ext fuel w) ∧ ∀ w' ended, w.step ext fuel = some (w', ended) →
      C.Telling w (Execution.ofStep ext fuel w) w' := by
  obtain ⟨htells, hend⟩ := annals_step (annals_telling hC fuel w) hext hw
  refine ⟨htells, fun w' ended hstep => ?_⟩
  obtain ⟨p, hp, rfl⟩ := exists_rounds_of_step hw.idle hstep
  have hafter : C.Telling p.world [] (afterPass p).dispatchEvents.flushCloud.1 :=
    .nil (C.trans (C.trans (C.aside (aside_afterPass p)) (C.events _)) (C.flush _))
  have happ := (hend p ended hp).append hafter
  rwa [List.append_nil] at happ

/-- **Along the blocks of a run**, up to where it has come. -/
theorem telling_of_plays (hw : w.Settled) (h : Recounts Pass.visitExecutions D P w l w')
    (hD : ∀ {w w'}, D w w' → Deed w w' ∧ C.Leads (C.world w) (C.world w'))
    (hP : ∀ ext, P ext → ext.Orderly ∧ C.Visits ext) : C.Telling w l w' ∧ w'.Settled := by
  induction h with
  | nil w => exact ⟨.nil (C.aside (.refl w)), hw⟩
  | deed hd _ ih =>
    obtain ⟨hdeed, hleads⟩ := hD hd
    obtain ⟨htelling, hend⟩ := ih (hdeed.conserves.follows hw).settled
    have happ := (Telling.nil hleads).append htelling
    exact ⟨happ, hend⟩
  | step hext hstep _ ih =>
    obtain ⟨horderly, hvisits⟩ := hP _ hext
    obtain ⟨htelling, hend⟩ := ih (follows_of_step horderly hw hstep).settled
    exact ⟨((tells_step hvisits horderly hw _).2 _ _ hstep).append htelling, hend⟩

/-- And on, also in a step that does not come to its end. -/
theorem tells_of_plays (hw : w.Settled) (h : Recounts Pass.visitExecutions D P w l w')
    (hD : ∀ {w w'}, D w w' → Deed w w' ∧ C.Leads (C.world w) (C.world w'))
    (hP : ∀ ext, P ext → ext.Orderly ∧ C.Visits ext) (hext : P ext) (fuel : Nat) :
    C.Tells w (l ++ Execution.ofStep ext fuel w') := by
  obtain ⟨htelling, hend⟩ := telling_of_plays hw h hD hP
  exact htelling.stop (tells_step (hP _ hext).2 (hP _ hext).1 hend fuel).1

end Course

end Stagecraft
