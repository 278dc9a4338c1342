import Stagecraft.Proofs.Saved.Links
import Stagecraft.Proofs.Saved.Reload
import Stagecraft.Proofs.Schedule.Uniqueness

/-!
# Loading projects that are sound

A project that is loaded strictly is checked first, by its keys, and nothing is loaded when
something is wrong with it. The check says no more than it has to: a project without problems is
one whose links all lead to blocks, and then the handles of the programs do.

* `SavedProject.problems_eq_nil_iff` : what it means that nothing is wrong with a project;
* `World.hosts_loadActors` : the actors that were loaded have the programs that were loaded for
  them;
* `World.exact_of_loadStrict` : **strict loading is exact and atomic**.
-/

namespace Stagecraft

/-! ### What is checked -/

/-- The links of a block are the keys that it refers to. -/
theorem SavedBlock.names_iff (b : SavedBlock) (key : String) :
    b.Names key ↔ ∃ l ∈ b.links, l.2 = key := by
  simp only [links, Names, List.mem_append, List.mem_map, List.mem_filterMap, Option.mem_toList,
    Table.values, or_and_right, exists_or, exists_exists_and_eq_and, exists_eq_right, or_assoc]

/-- Nothing is wrong with an actor whose links lead to its blocks. -/
theorem SavedActor.problems_eq_nil_iff (a : SavedActor) : a.problems = [] ↔ a.Closed := by
  have hcontains : ∀ key, a.blocks.contains key = true ↔ key ∈ a.blocks.keys := fun key => by
    simp [Table.contains, Table.keys]
  simp only [problems, Closed, ClosedBlocks, SavedBlock.names_iff, List.flatMap_eq_nil_iff,
    List.map_eq_nil_iff, List.filter_eq_nil_iff, Bool.not_eq_true', Bool.not_eq_false, hcontains]
  refine forall₂_congr fun e _ => ⟨?_, ?_⟩
  · rintro h key ⟨l, hl, rfl⟩
    exact h l hl
  · exact fun h l hl => h l.2 ⟨l, hl, rfl⟩

/-- **Nothing is wrong with a project** that has at most one stage and whose links lead to blocks.
-/
theorem SavedProject.problems_eq_nil_iff (p : SavedProject) :
    p.problems = [] ↔ p.stageCount ≤ 1 ∧ ∀ a ∈ p.targets, a.Closed := by
  have hstages : (if 1 < p.stageCount then [Problem.stages p.stageCount] else []) = [] ↔
      p.stageCount ≤ 1 := by
    split <;> simp_all
  rw [problems, List.append_eq_nil_iff, hstages, List.flatMap_eq_nil_iff]
  simp only [SavedActor.problems_eq_nil_iff]

namespace World

variable {σ : Type} {w : World σ} {id : ActorId} {g : Graph}

/-! ### What is loaded -/

/-- An actor has a program. Neither its number nor that of its sprite will be given again. -/
structure Hosts (w : World σ) (id : ActorId) (g : Graph) : Prop where
  id_lt : id < w.nextActor
  actor : ∃ a, w.actors.get? id = some a ∧ a.sprite < w.nextSprite ∧
    (w.sprites.get? a.sprite).map (·.graph) = some g

theorem Hosts.graph? (h : w.Hosts id g) : w.graph? id = some g := by
  obtain ⟨a, ha, -, hs⟩ := h.actor
  rw [World.graph?, actor?, ha]
  exact hs

theorem loadActor_id (w : World σ) (a : SavedActor) : (w.loadActor a).2 = w.nextActor := by
  unfold loadActor
  cases a.isStage <;> rfl

/-- An actor that is loaded has the program that is loaded for it. -/
theorem hosts_loadActor (w : World σ) (a : SavedActor) :
    (w.loadActor a).1.Hosts (w.loadActor a).2 (Graph.ofSaved a.blocks).indexed := by
  obtain ⟨hnext, hnextSprite, hsprites, hactors⟩ := w.loadActor_cast a
  refine ⟨?_, a.loaded w.nextActor w.nextSprite, ?_, ?_, ?_⟩
  · rw [loadActor_id, hnext]
    exact Nat.lt_succ_self _
  · rw [loadActor_id, hactors, Table.get?_modify, if_pos rfl, Table.get?_insert_self]
    rfl
  · rw [SavedActor.sprite_loaded, hnextSprite]
    exact Nat.lt_succ_self _
  · rw [SavedActor.sprite_loaded, hsprites, Table.get?_insert_self]
    rfl

namespace Hosts

/-- It keeps the program when others are loaded. -/
theorem loadActor (h : w.Hosts id g) (a : SavedActor) : (w.loadActor a).1.Hosts id g := by
  obtain ⟨hnext, hnextSprite, hsprites, hactors⟩ := w.loadActor_cast a
  obtain ⟨b, hb, hlt, hs⟩ := h.actor
  have hid : id ≠ w.nextActor := Nat.ne_of_lt h.id_lt
  refine ⟨hnext ▸ Nat.lt_succ_of_lt h.id_lt, b, ?_, hnextSprite ▸ Nat.lt_succ_of_lt hlt, ?_⟩
  · rw [hactors, Table.get?_modify, if_neg hid, Table.get?_insert_of_ne _ hid, hb]
  · rw [hsprites, Table.get?_insert_of_ne _ (Nat.ne_of_lt hlt), hs]

theorem loadActors (rest : List SavedActor) :
    ∀ {w : World σ}, w.Hosts id g → (w.loadActors rest).1.Hosts id g := by
  induction rest with
  | nil => exact fun h => h
  | cons a rest ih => exact fun h => ih (h.loadActor a)

end Hosts

/-- **The actors that are loaded have the programs that are loaded for them**, by induction on the
actors. -/
theorem hosts_loadActors (actors : List SavedActor) : ∀ w : World σ,
    List.Forall₂ (fun a id => (w.loadActors actors).1.Hosts id (Graph.ofSaved a.blocks).indexed)
      actors (w.loadActors actors).2 := by
  induction actors with
  | nil => exact fun _ => .nil
  | cons a rest ih =>
    exact fun w => .cons ((w.hosts_loadActor a).loadActors rest) (ih (w.loadActor a).1)

/-! ### Strict loading -/

theorem loadStrict_of_problems {p : SavedProject} (h : p.problems ≠ []) (w : World σ) :
    w.loadStrict p = .error p.problems := by
  unfold loadStrict
  split
  · contradiction
  · rfl

theorem loadStrict_of_sound {p : SavedProject} (h : p.problems = []) (w : World σ) :
    w.loadStrict p = .ok (w.loadActors p.targets) := by
  rw [loadStrict, h]

/-- **Strict loading is exact and atomic.** Loading a project strictly into a world succeeds if
and only if the project has at most one stage and every key that one of its blocks refers to, as
its successor, as its parent or in an input, is that of a block of the same actor. If it fails,
what is wrong is told and the world stays as it is. If it succeeds, every actor of the project is
there with a program of its own, in which every block of the actor is live under one handle, every
live block is one of these, and every link leads to the live block with the key that was saved, so
that no link leads to a block that is not there. -/
theorem exact_of_loadStrict (w : World σ) (p : SavedProject) :
    ((∃ r, w.loadStrict p = .ok r) ↔ p.stageCount ≤ 1 ∧ ∀ a ∈ p.targets, a.Closed) ∧
      (∀ problems, w.loadStrict p = .error problems →
        problems = p.problems ∧ problems ≠ [] ∧ Call.apply w (.loadStrict p) = some w) ∧
      ∀ r, w.loadStrict p = .ok r → Call.apply w (.loadStrict p) = some r.1 ∧
        List.Forall₂ (fun a id => ∃ g, r.1.graph? id = some g ∧ g.Realizes a.blocks)
          p.targets r.2 := by
  by_cases h : p.problems = []
  · have hload := loadStrict_of_sound h w
    have hsound := p.problems_eq_nil_iff.1 h
    refine ⟨⟨fun _ => hsound, fun _ => ⟨_, hload⟩⟩, fun problems he => ?_, fun r he => ?_⟩
    · rw [hload] at he
      cases he
    · refine ⟨by rw [Call.apply, he], ?_⟩
      rw [hload] at he
      cases he
      refine List.Forall₂.imp (fun a id hid => ⟨_, hid.2.graph?, ?_⟩)
        ((List.forall₂_and_left _ _).2 ⟨hsound.2, w.hosts_loadActors p.targets⟩)
      exact Graph.realizes_ofSaved (Graph.slots_indexed _) hid.1
  · have hload := loadStrict_of_problems h w
    refine ⟨⟨?_, fun hsound => absurd (p.problems_eq_nil_iff.2 hsound) h⟩, fun problems he => ?_,
      fun r he => ?_⟩
    · rintro ⟨r, he⟩
      rw [hload] at he
      cases he
    · refine ⟨?_, ?_, by rw [Call.apply, he]⟩
      all_goals
        rw [hload] at he
        cases he
      · rfl
      · exact h
    · rw [hload] at he
      cases he

/-- Two blocks in a circle; the first one plugs in a block of some key. -/
def circle (key : String) : SavedProject where
  targets :=
    [{ Graph.ring with
      blocks := .ofList
        [("first", Graph.ringed "second" [("B", .branch "second"), ("A", .reporter key)]),
          ("second", Graph.ringed "first" [])] }]

/-- The circle is loaded if the key is that of a block, and otherwise nothing is. -/
theorem exact_of_loadStrict_circle :
    (∃ r, (blank .standard ()).loadStrict (circle "second") = .ok r ∧
        ∃ g, r.1.graph? 0 = some g ∧ ∃ h, g.LeadsTo h "second") ∧
      (∀ r, (blank .standard ()).loadStrict (circle "third") ≠ .ok r) ∧
      Call.apply (blank .standard ()) (.loadStrict (circle "third")) =
        some (blank .standard ()) := by
  have hgood : (circle "second").problems = [] := by decide +kernel
  have hbad : (circle "third").problems ≠ [] := by decide +kernel
  obtain ⟨hexact, -, hloaded⟩ := exact_of_loadStrict (blank .standard ()) (circle "second")
  obtain ⟨-, hfailed, -⟩ := exact_of_loadStrict (blank .standard ()) (circle "third")
  have herror := loadStrict_of_problems hbad (blank .standard ())
  obtain ⟨r, hr⟩ := hexact.2 ((circle "second").problems_eq_nil_iff.1 hgood)
  refine ⟨⟨r, hr, ?_⟩, fun r' hr' => ?_, (hfailed _ herror).2.2⟩
  · -- the first actor of a fresh world has the number zero
    have hids : r.2 = [0] := by
      rw [loadStrict_of_sound hgood] at hr
      cases hr
      rfl
    have hall := (hloaded r hr).2
    rw [hids] at hall
    obtain ⟨g, hg, hrealizes⟩ := (List.forall₂_cons.1 hall).1
    obtain ⟨h, hh⟩ := hrealizes.loaded "second" (by decide)
    exact ⟨g, hg, h, hh⟩
  · rw [herror] at hr'
    cases hr'

end World

end Stagecraft
