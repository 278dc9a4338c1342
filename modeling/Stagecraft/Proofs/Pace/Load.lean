import Stagecraft.Saved.Load
import Stagecraft.Proofs.Graph.Index
import Stagecraft.Proofs.Pace.Script

/-!
# The programs of a saved project

A program is loaded by reserving keys and creating blocks. That leaves the blocks labelled with
their own handles, so the index of procedures, which is worked out from the blocks, leads back to
them.

* `Graph.Raw` : a program that is being loaded;
* `Graph.raw_ofSaved` : loading keeps to it;
* `Graph.Raw.defines` : **the index of a loaded program leads to definitions**.
-/

namespace Stagecraft.Graph

/-- A program whose index of procedures has not been worked out, with blocks that carry their own
handles. -/
structure Raw (g : Graph) : Prop where
  consistent : g.Consistent
  labelled : g.Labelled
  unindexed : g.procedures = none

theorem raw_empty : empty.Raw := ⟨consistent_empty, labelled_empty, rfl⟩

variable {g : Graph}

/-! ### Loading -/

namespace Raw

theorem reserve (h : g.Raw) (key : String) : (g.reserve key).1.Raw :=
  ⟨h.consistent.reserve key, Labelled.reserve h.consistent h.labelled key,
    (procedures_reserve g key).trans h.unindexed⟩

theorem create (h : g.Raw) (b : Block) : (g.create b).1.Raw := by
  refine ⟨h.consistent.create b, Labelled.create h.consistent h.labelled b, ?_⟩
  rw [h.consistent.create_eq]
  split
  · exact h.unindexed
  · rfl

theorem reserve? (h : g.Raw) (key : Option String) : (g.reserve? key).1.Raw := by
  cases key with
  | none => exact h
  | some key => exact h.reserve key

theorem loadInput (h : g.Raw) (saved : SavedInput) : (g.loadInput saved).1.Raw := by
  cases saved with
  | literal v => exact h
  | reporter key => exact h.reserve key
  | branch key => exact h.reserve key

theorem loadInputs (saved : List (String × SavedInput)) :
    ∀ {g : Graph}, g.Raw → ∀ inputs, (g.loadInputs saved inputs).1.Raw := by
  induction saved with
  | nil => exact fun h _ => h
  | cons e rest ih => exact fun h _ => ih (h.loadInput e.2) _

theorem loadBlock (h : g.Raw) (key : String) (b : SavedBlock) : (g.loadBlock key b).Raw :=
  (loadInputs _ ((h.reserve? b.next).reserve? b.parent) _).create _

end Raw

/-- Loading leaves a program without an index. -/
theorem raw_ofSaved (blocks : Table String SavedBlock) : (ofSaved blocks).Raw := by
  have hreserved : (empty.reserveAll blocks.keys).Raw :=
    List.foldlRecOn _ _ raw_empty fun _ h key _ => h.reserve key
  exact List.foldlRecOn _ _ hreserved fun _ h e _ => h.loadBlock e.1 e.2

/-! ### The index of procedures -/

theorem opcode_of_definedCode? {b : Block} {code : String} (h : g.definedCode? b = some code) :
    b.opcode = .procedure .definition := by
  unfold definedCode? at h
  split at h
  · assumption
  · cases h

/-- The index holds the handles of definitions. -/
theorem exists_of_scanProcedures (g : Graph) : ∀ code definition,
    g.scanProcedures.get? code = some definition →
    ∃ b ∈ g.blocks, b.opcode = .procedure .definition ∧ b.handle = definition := by
  unfold scanProcedures
  refine List.foldlRecOn (motive := fun index => ∀ code definition,
    Table.get? index code = some definition → ∃ b ∈ g.blocks, b.opcode = .procedure .definition ∧
      b.handle = definition) _ _ (fun _ _ h => ?_) fun index hindex b hb code definition h => ?_
  · cases h
  · split at h
    · rename_i code' hcode
      split at h
      · exact hindex code definition h
      · by_cases hsame : code = code'
        · subst hsame
          rw [Table.get?_insert_self] at h
          exact ⟨b, hb, opcode_of_definedCode? hcode, Option.some.inj h⟩
        · rw [Table.get?_insert_of_ne _ hsame] at h
          exact hindex code definition h
    · exact hindex code definition h

theorem Labelled.get?_handle (hl : g.Labelled) {b : Block} (hb : b ∈ g.blocks) :
    g.get? b.handle = some b := by
  obtain ⟨s, hs, hblock⟩ := List.mem_filterMap.1 hb
  obtain ⟨i, hi, hget⟩ := Array.getElem_of_mem (Array.mem_toList_iff.1 hs)
  have hslot : g.slots[i]? = some s := by rw [Array.getElem?_eq_getElem hi, hget]
  rw [hl.handle_eq i s b hslot hblock]
  exact get?_eq_some_iff.2 ⟨s, hslot, rfl, hblock⟩

/-- **The index of a loaded program leads to definitions.** -/
theorem Raw.defines (h : g.Raw) : g.indexed.Defines := by
  have hindexed : g.indexed = { g with procedures := some g.scanProcedures } := by
    rw [indexed, h.unindexed]
  rw [hindexed]
  intro code definition hd
  obtain ⟨b, hb, hopcode, rfl⟩ := exists_of_scanProcedures g code definition hd
  have hget := h.labelled.get?_handle hb
  exact (congrArg (Option.map (·.opcode)) hget).trans (congrArg some hopcode)

end Stagecraft.Graph
