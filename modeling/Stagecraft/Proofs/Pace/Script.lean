import Stagecraft.Graph.Procedure
import Stagecraft.Graph.Walk

/-!
# Scripts that run on their own

A plain block starts, stops and clones nothing but what its own script runs, and it does not read
the time. What a script can come to execute lies in its reach: the blocks after and inside a block
of the reach, and the procedures that are called there.

* `Graph.Within` : the reach of a script;
* `Graph.Plain` : the blocks of the reach are plain;
* `Graph.Unplugged` : no call is plugged into an input there;
* `Graph.Untimed` : both, and calls lead to definitions.
-/

namespace Stagecraft

/-- Whether a block leaves other scripts alone and does not read the time: it is no message, clone,
stop of everything, wait, timer or question. -/
def Block.isPlain (b : Block) : Bool :=
  match b.opcode with
  | .control .wait => false
  | .control .createCloneOf => false
  | .control .deleteThisClone => false
  | .control .stop => (b.field? "STOP_OPTION").getD "all" != "all"
  | .event .broadcast => false
  | .event .broadcastAndWait => false
  | .sensing .timer => false
  | .sensing .askAndWait => false
  | _ => true

namespace Graph

/-- The reach of the script at a block. -/
inductive Within (g : Graph) (top : Handle) : Handle → Prop
  | top : Within g top top
  | next {h n : Handle} : Within g top h → g.next? h = some n → Within g top n
  | input {h n : Handle} {b : Block} {name : String} {i : Input} : Within g top h →
      g.get? h = some b → (name, i) ∈ b.inputs.entries → i.block? = some n → Within g top n
  | call {h definition : Handle} {b : Block} {signature : Signature} : Within g top h →
      g.get? h = some b → b.opcode = .procedure .call → b.signature = some signature →
      g.definition? signature.code = some definition → Within g top definition

/-- The blocks that a script can come to execute are plain. -/
def Plain (g : Graph) (top : Handle) : Prop :=
  ∀ h b, g.Within top h → g.get? h = some b → b.isPlain = true

/-- The script plugs no call of a procedure into an input. -/
def Unplugged (g : Graph) (top : Handle) : Prop :=
  ∀ h b name plugged b', g.Within top h → g.get? h = some b →
    (name, .reporter plugged) ∈ b.inputs.entries → g.get? plugged = some b' →
    b'.opcode ≠ .procedure .call

/-- The index of procedures leads to definitions. -/
def Defines (g : Graph) : Prop :=
  ∀ code definition, g.definition? code = some definition →
    g.opcode? definition = some (.procedure .definition)

/-- A script whose course does not depend on time. -/
structure Untimed (g : Graph) (top : Handle) : Prop where
  plain : g.Plain top
  unplugged : g.Unplugged top
  defines : g.Defines

variable {g : Graph} {top h : Handle}

theorem Within.branch {n : Nat} {first : Handle} (hw : g.Within top h)
    (hb : g.branch? h n = some first) : g.Within top first := by
  obtain ⟨hb, -⟩ := Option.filter_eq_some_iff.1 hb
  obtain ⟨i, hi, hfirst⟩ := Option.bind_eq_some_iff.1 hb
  obtain ⟨b, hget, hinput⟩ := Option.bind_eq_some_iff.1 hi
  exact hw.input hget ((Table.get?_eq_some_iff _ _ _).1 hinput) hfirst

/-- A block can be found in the list of all blocks. -/
theorem mem_blocks_of_get? {b : Block} (hb : g.get? h = some b) : b ∈ g.blocks := by
  obtain ⟨slot, hslot, hblock⟩ := Option.bind_eq_some_iff.1 hb
  unfold slot? at hslot
  split at hslot
  · rename_i slot' hs
    split at hslot
    · cases hslot
      exact List.mem_filterMap.2 ⟨slot, Array.mem_toList_iff.2 (Array.mem_of_getElem? hs), hblock⟩
    · cases hslot
  · cases hslot

theorem plain_of_all (hall : g.blocks.all Block.isPlain = true) (top : Handle) : g.Plain top :=
  fun _ _ _ hb => List.all_eq_true.1 hall _ (mem_blocks_of_get? hb)

/-- Whether a block plugs no call into an input. -/
def plugsNoCall (g : Graph) (b : Block) : Bool :=
  b.inputs.entries.all fun e => match e.2 with
    | .reporter h => g.opcode? h != some (.procedure .call)
    | _ => true

theorem unplugged_of_all (hall : g.blocks.all g.plugsNoCall = true) (top : Handle) :
    g.Unplugged top := by
  intro h b name plugged b' _ hb hinput hplugged hcall
  have hblock := List.all_eq_true.1 hall b (mem_blocks_of_get? hb)
  have hopcode : g.opcode? plugged = some (.procedure .call) := by
    rw [opcode?, hplugged, Option.map_some, hcall]
  simpa [hopcode] using List.all_eq_true.1 hblock _ hinput

end Graph

end Stagecraft
