import Stagecraft.Proofs.Cast.Registry

/-!
# Programs of the sprites

A sprite is listed with its program and its clones. Blocks clone and delete actors, which changes
the lists of clones, but no block changes a program, and none puts another actor on the stage's
place.

* `World.programs` : the programs by sprite;
* `World.SamePlay` : the same programs and the same stage;
* `World.samePlay_of_changed` : **deeds of actors leave them alone**, so a step does.
-/

namespace Stagecraft

namespace World

variable {σ : Type} {w w' w'' : World σ}

/-- The programs of the sprites. -/
def programs (w : World σ) : Table SpriteId Graph := w.sprites.mapValues (·.graph)

/-- Every sprite has the program that is given for it. -/
def Programmed (program : SpriteId → Graph) (w : World σ) : Prop :=
  ∀ e ∈ w.programs.entries, e.2 = program e.1

theorem get?_programs (w : World σ) (id : SpriteId) :
    w.programs.get? id = (w.sprites.get? id).map (·.graph) :=
  Table.get?_mapValues _ _ _

/-- The program of an actor is the one of its sprite. -/
theorem graph?_eq_programs (w : World σ) (id : ActorId) :
    w.graph? id = (w.actor? id).bind fun a => w.programs.get? a.sprite := by
  simp only [graph?, get?_programs, Option.map_bind, Function.comp_def]

theorem Programmed.graph? {program : SpriteId → Graph} (hw : w.Programmed program) {id : ActorId}
    {g : Graph} (hg : w.graph? id = some g) :
    ∃ a, w.actor? id = some a ∧ g = program a.sprite := by
  rw [graph?_eq_programs] at hg
  obtain ⟨a, ha, hsprite⟩ := Option.bind_eq_some_iff.1 hg
  exact ⟨a, ha, hw _ ((Table.get?_eq_some_iff _ _ _).1 hsprite)⟩

/-! ### What leaves programs alone -/

/-- The same programs and the same stage, and no id is taken back. -/
structure SamePlay (w w' : World σ) : Prop where
  programs : w'.programs = w.programs
  stage : w'.stage = w.stage
  next_le : w.nextActor ≤ w'.nextActor

namespace SamePlay

theorem refl (w : World σ) : SamePlay w w := ⟨rfl, rfl, Nat.le_refl _⟩

theorem trans (h : SamePlay w w') (h' : SamePlay w' w'') : SamePlay w w'' :=
  ⟨h'.programs.trans h.programs, h'.stage.trans h.stage, Nat.le_trans h.next_le h'.next_le⟩

theorem of_cast (h : SameCast w w') : SamePlay w w' :=
  ⟨by simp only [World.programs, h.sprites], h.stage, Nat.le_of_eq h.nextActor.symm⟩

end SamePlay

theorem samePlay_createClone (w : World σ) (source : ActorId) :
    SamePlay w (w.createClone source).1 := by
  rcases w.createClone_cases source with hs | ⟨a, -, -, -, hs⟩
  · exact .of_cast hs
  · refine SamePlay.trans ?_ (.of_cast hs)
    refine ⟨?_, rfl, Nat.le_succ _⟩
    exact w.sprites.mapValues_modify_of_eq a.sprite fun _ => rfl

theorem samePlay_deleteClone (w : World σ) (id : ActorId) : SamePlay w (w.deleteClone id).1 := by
  rcases w.deleteClone_cases id with he | ⟨a, -, -, hs⟩
  · rw [he]
    exact .refl w
  · refine SamePlay.trans ?_ (.of_cast hs)
    refine ⟨?_, rfl, Nat.le_refl _⟩
    exact w.sprites.mapValues_modify_of_eq a.sprite fun _ => rfl

theorem samePlay_stopAll (w : World σ) : SamePlay w w.stopAll := by
  have hdelete : ∀ (ids : List ActorId) (w : World σ),
      SamePlay w (ids.foldl (fun w id => (w.deleteClone id).1) w) := by
    intro ids
    induction ids with
    | nil => exact .refl
    | cons id rest ih => exact fun w => (samePlay_deleteClone w id).trans (ih _)
  obtain ⟨w₁, hs₁, w₂, rfl, hs₂⟩ := w.stopAll_cast
  have hbubbles : ∀ w : World σ, SamePlay w { w with
      actors := w.actors.mapValues fun a => { a with bubble := none } } :=
    fun _ => ⟨rfl, rfl, Nat.le_refl _⟩
  exact (((SamePlay.of_cast hs₁).trans (hdelete _ _)).trans (hbubbles _)).trans (.of_cast hs₂)

theorem samePlay_greenFlag (w : World σ) : SamePlay w w.greenFlag.1 := by
  unfold greenFlag
  refine SamePlay.trans ?_ (.of_cast (sameCast_startHats _ _ _ _))
  exact (samePlay_stopAll w).trans ⟨rfl, rfl, Nat.le_refl _⟩

theorem samePlay_lookupVariable (w : World σ) (actor : ActorId) (id : Option String) (name : String)
    (kind : VariableKind) : SamePlay w (w.lookupVariable actor id name kind).1 := by
  unfold lookupVariable
  split
  · exact .refl w
  · split <;> exact ⟨rfl, rfl, Nat.le_refl _⟩

/-- **No block changes a program.** -/
theorem samePlay_of_change {actor : ActorId} (h : Change actor w w') : SamePlay w w' := by
  cases h with
  | aside hs => exact .of_cast hs
  | restyle f _ => exact ⟨rfl, rfl, Nat.le_refl _⟩
  | lookup id name kind => exact samePlay_lookupVariable w actor id name kind
  | write id name kind f _ _ =>
    exact (samePlay_lookupVariable w actor id name kind).trans ⟨rfl, rfl, Nat.le_refl _⟩
  | createClone source => exact samePlay_createClone w source
  | deleteClone => exact samePlay_deleteClone w actor
  | stopAll => exact samePlay_stopAll w

theorem samePlay_of_changed (h : Changed w w') : SamePlay w w' :=
  h.keeps (P := fun w₁ => SamePlay w w₁) (fun hc hw => hw.trans (samePlay_of_change hc)) (.refl w)

theorem Programmed.of_eq {program : SpriteId → Graph} (hw : w.Programmed program)
    (h : w'.programs = w.programs) : w'.Programmed program := by
  rwa [Programmed, h]

end World

end Stagecraft
