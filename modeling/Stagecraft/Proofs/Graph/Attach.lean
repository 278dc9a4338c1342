import Stagecraft.Proofs.Graph.Mending
import Stagecraft.Proofs.Graph.Trail

/-!
# Links after a move

Where successors, inputs and parents lead after a block that was cut off is attached somewhere.
Nothing is assumed of the links of the program, but that the blocks after the moved one come to an
end and that the block it is put behind is not among them.

* `Graph.next?_attach_after`, `Graph.parent?_attach_after` : a block is put behind another one,
  and what came after that goes to the end of what is put there, if there is a block at the end;
* `Graph.exists_of_moved` : a move that is not refused cuts the block off and attaches it;
* `Graph.not_below_of_moved` : it is not attached to a block that has it among its ancestors.
-/

namespace Stagecraft.Graph

variable {g : Graph} {h p c n e x : Handle} {l : List Handle} {name m : String} {input : Input}

/-- What the input of a block with a name holds. -/
def input? (g : Graph) (x : Handle) (name : String) : Option Input :=
  (g.get? x).bind fun b => b.inputs.get? name

/-- Whether a block starts a script; nothing if there is no block. -/
def starts? (g : Graph) (x : Handle) : Option Bool := (g.get? x).map (·.topLevel)

/-- A block is referred to as a successor or in an input. -/
theorem mem_children_iff :
    c ∈ g.children p ↔ g.next? p = some c ∨ ∃ m i, g.input? p m = some i ∧ i.block? = some c := by
  cases hb : g.get? p with
  | none => simp [children, next?, input?, hb]
  | some b =>
    rw [children_of_get? hb, next?_of_get? hb, Block.children, List.mem_append, Option.mem_toList,
      Block.inputBlocks, List.mem_filterMap]
    refine or_congr_right ⟨?_, ?_⟩
    · rintro ⟨i, hi, hc⟩
      obtain ⟨⟨m, i⟩, he, rfl⟩ := List.mem_map.1 hi
      exact ⟨m, i, by rw [input?, hb]; exact (Table.get?_eq_some_iff _ _ _).2 he, hc⟩
    · rintro ⟨m, i, hi, hc⟩
      rw [input?, hb] at hi
      exact ⟨i, List.mem_map.2 ⟨_, (Table.get?_eq_some_iff _ _ _).1 hi, rfl⟩, hc⟩

/-! ### Cutting a block off -/

/-- What cutting a link to a child does to every block. -/
theorem get?_detach_eq (g : Graph) (p c x : Handle) :
    (g.detach p c).get? x = (g.get? x).map fun b =>
      { b with
        next := if x = p ∧ b.next = some c then none else b.next
        inputs := if x = p ∧ b.next ≠ some c
          then b.inputs.filter fun _ input => input.block? ≠ some c else b.inputs
        parent := if x = c then none else b.parent } := by
  rw [get?_detach]
  cases g.get? x with
  | none => simp
  | some b =>
    by_cases hx : x = c
    · subst hx
      by_cases hxp : x = p
      · subst hxp
        by_cases hn : b.next = some x <;> simp [unlinkChild, hn]
      · simp [hxp]
    · by_cases hxp : x = p
      · subst hxp
        by_cases hn : b.next = some c <;> simp [unlinkChild, hn, hx]
      · simp [hx, hxp]

/-- What cutting a block off does to every block. -/
theorem get?_cutOff (g : Graph) (h x : Handle) :
    (g.cutOff h).get? x = (g.get? x).map fun b =>
      { b with
        next := if g.parent? h = some x ∧ b.next = some h then none else b.next
        inputs := if g.parent? h = some x ∧ b.next ≠ some h
          then b.inputs.filter fun _ input => input.block? ≠ some h else b.inputs
        parent := if x = h then none else b.parent } := by
  unfold cutOff
  cases hp : g.parent? h with
  | none =>
    cases hb : g.get? x with
    | none => simp
    | some b =>
      have hparent : x = h → b.parent = none := by
        rintro rfl
        rwa [← parent?_of_get? hb]
      by_cases hx : x = h
      · have hb' : { b with parent := none } = b := by rw [← hparent hx]
        simpa [hx] using hb'.symm
      · simp [hx]
  | some p => simp only [get?_detach_eq, Option.some.injEq, @eq_comm _ p x]

theorem next?_cutOff (g : Graph) (h x : Handle) :
    (g.cutOff h).next? x =
      if g.parent? h = some x ∧ g.next? x = some h then none else g.next? x := by
  cases hb : g.get? x <;> simp [next?, get?_cutOff, hb]

theorem input?_cutOff (g : Graph) (h x : Handle) (m : String) :
    (g.cutOff h).input? x m =
      if g.parent? h = some x ∧ g.next? x ≠ some h
      then (g.input? x m).filter (·.block? ≠ some h) else g.input? x m := by
  cases hb : g.get? x with
  | none => simp [input?, get?_cutOff, hb]
  | some b =>
    simp only [input?, next?, get?_cutOff, hb, Option.map_some, Option.bind_some]
    split
    · exact Table.get?_filter _ _ _
    · rfl

theorem parent?_cutOff_eq (g : Graph) (h x : Handle) :
    (g.cutOff h).parent? x = if x = h then none else g.parent? x := by
  by_cases hx : x = h <;> cases hb : g.get? x <;> simp [parent?, get?_cutOff, hb, hx]

theorem starts?_cutOff (g : Graph) (h x : Handle) : (g.cutOff h).starts? x = g.starts? x := by
  cases hb : g.get? x <;> simp [starts?, get?_cutOff, hb]

/-! ### One link -/

/-- Make one block the successor of another one. -/
def hang (g : Graph) (p c : Handle) : Graph := g.link p c fun b => { b with next := some c }

/-- Put one block into an input of another one. -/
def plug (g : Graph) (p c : Handle) (name : String) (input : Input) : Graph :=
  g.link p c fun b => { b with inputs := b.inputs.insert name input }

theorem get?_hang (g : Graph) (p c x : Handle) :
    (g.hang p c).get? x = (g.get? x).map fun b =>
      { b with
        next := if x = p then some c else b.next
        parent := if x = c then some p else b.parent
        topLevel := if x = c then false else b.topLevel } := by
  rw [hang, get?_link]
  cases g.get? x <;> split <;> split <;> rfl

theorem get?_plug (g : Graph) (p c : Handle) (name : String) (input : Input) (x : Handle) :
    (g.plug p c name input).get? x = (g.get? x).map fun b =>
      { b with
        inputs := if x = p then b.inputs.insert name input else b.inputs
        parent := if x = c then some p else b.parent
        topLevel := if x = c then false else b.topLevel } := by
  rw [plug, get?_link]
  cases g.get? x <;> split <;> split <;> rfl

@[simp] theorem contains_hang (g : Graph) (p c x : Handle) :
    (g.hang p c).contains x = g.contains x := by
  rw [hang, link, contains_modify, contains_modify]

@[simp] theorem contains_plug (g : Graph) (p c : Handle) (name : String) (input : Input)
    (x : Handle) :
    (g.plug p c name input).contains x = g.contains x := by
  rw [plug, link, contains_modify, contains_modify]

/-! ### What is read off a block -/

theorem next?_hang (g : Graph) (p c x : Handle) :
    (g.hang p c).next? x = if x = p ∧ g.contains p = true then some c else g.next? x := by
  by_cases hx : x = p
  · subst hx
    cases hb : g.get? x <;> simp [next?, contains, get?_hang, hb]
  · cases hb : g.get? x <;> simp [next?, get?_hang, hb, hx]

theorem input?_hang (g : Graph) (p c x : Handle) (m : String) :
    (g.hang p c).input? x m = g.input? x m := by
  cases hb : g.get? x <;> simp [input?, get?_hang, hb]

theorem parent?_hang (g : Graph) (p c x : Handle) :
    (g.hang p c).parent? x = if x = c ∧ g.contains x = true then some p else g.parent? x := by
  cases hb : g.get? x <;> simp [parent?, contains, get?_hang, hb]

theorem starts?_hang (g : Graph) (p c x : Handle) :
    (g.hang p c).starts? x =
      if x = c ∧ g.contains x = true then some false else g.starts? x := by
  by_cases hx : x = c
  · subst hx
    cases hb : g.get? x <;> simp [starts?, contains, get?_hang, hb]
  · cases hb : g.get? x <;> simp [starts?, get?_hang, hb, hx]

theorem next?_plug (g : Graph) (p c : Handle) (name : String) (input : Input) (x : Handle) :
    (g.plug p c name input).next? x = g.next? x := by
  cases hb : g.get? x <;> simp [next?, get?_plug, hb]

theorem input?_plug (g : Graph) (p c : Handle) (name : String) (input : Input) (x : Handle)
    (m : String) : (g.plug p c name input).input? x m =
      if x = p ∧ m = name ∧ g.contains p = true then some input else g.input? x m := by
  by_cases hx : x = p
  · subst hx
    cases hb : g.get? x with
    | none => simp [input?, contains, get?_plug, hb]
    | some b =>
      by_cases hm : m = name
      · simp [input?, contains, get?_plug, hb, hm]
      · simp [input?, get?_plug, hb, hm, Table.get?_insert_of_ne _ hm]
  · cases hb : g.get? x <;> simp [input?, get?_plug, hb, hx]

theorem parent?_plug (g : Graph) (p c : Handle) (name : String) (input : Input) (x : Handle) :
    (g.plug p c name input).parent? x =
      if x = c ∧ g.contains x = true then some p else g.parent? x := by
  cases hb : g.get? x <;> simp [parent?, contains, get?_plug, hb]

theorem starts?_plug (g : Graph) (p c : Handle) (name : String) (input : Input) (x : Handle) :
    (g.plug p c name input).starts? x =
      if x = c ∧ g.contains x = true then some false else g.starts? x := by
  by_cases hx : x = c
  · subst hx
    cases hb : g.get? x <;> simp [starts?, contains, get?_plug, hb]
  · cases hb : g.get? x <;> simp [starts?, get?_plug, hb, hx]

/-! ### Behind a block -/

section After

variable (hc : g.Consistent) (hp : g.contains p = true) (hs : g.Strand h l) (hpl : p ∉ l)
  (he : l.getLast? = some e)

include hs hpl

/-- The moved blocks follow each other as before. -/
theorem strand_hang : (g.hang p h).Strand h l :=
  hs.congr fun y hy => by
    have hyp : y ≠ p := fun hyp => hpl (hyp.symm ▸ hy)
    rw [next?_hang, if_neg fun hyp' => hyp hyp'.1]

include hc he

/-- The walk finds the end of the moved blocks. -/
theorem lastInChain_hang : (g.hang p h).lastInChain h = e := by
  have hc' : (g.hang p h).Consistent := (hc.modify _ _).modify _ _
  exact Option.some.inj (((strand_hang hs hpl).getLast?_eq hc').symm.trans he)

variable (hph : g.next? p ≠ some h)

include hph

/-- What came after the other block is put behind the last of the moved ones. -/
theorem attach_after_eq :
    g.attach h (.after p) = (g.next? p).elim (g.hang p h) fun n => (g.hang p h).hang e n := by
  have hold : ((g.get? p).bind (·.next)).filter (· ≠ h) = g.next? p := by
    change (g.next? p).filter (· ≠ h) = g.next? p
    cases hn : g.next? p with
    | none => rfl
    | some n =>
      have hne : n ≠ h := fun hnh => hph (hnh ▸ hn)
      simp [hne]
  have hlast := lastInChain_hang hc hs hpl he
  unfold hang at hlast
  unfold attach
  simp only [hold, hlast]
  cases g.next? p <;> rfl

theorem input?_attach_after : (g.attach h (.after p)).input? x m = g.input? x m := by
  rw [attach_after_eq hc hs hpl he hph]
  cases g.next? p with
  | none => exact input?_hang g p h x m
  | some n => exact (input?_hang _ e n x m).trans (input?_hang g p h x m)

include hp in
/-- The moved block comes after the other one, and the old successor of that after the last of
them. -/
theorem next?_attach_after :
    (g.attach h (.after p)).next? x =
      if x = p then some h else if x = e ∧ g.contains e = true then g.next? p else g.next? x := by
  rw [attach_after_eq hc hs hpl he hph]
  have hep : e ≠ p := fun hep => hpl (hep ▸ List.mem_of_getLast? he)
  have hend : g.next? e = none := hs.eq_none_of_getLast? he
  cases hn : g.next? p with
  | none =>
    rw [Option.elim_none, next?_hang]
    by_cases hx : x = e
    · simp [hx, hep, hend]
    · simp [hx, hp]
  | some n =>
    rw [Option.elim_some, next?_hang, next?_hang, contains_hang]
    by_cases hx : x = e
    · simp [hx, hep]
    · simp [hx, hp]

variable (hh : g.contains h = true)

include hh

/-- The parents of the moved block and of the old successor are the blocks that they were put
behind. -/
theorem parent?_attach_after :
    (g.attach h (.after p)).parent? x =
      if x = h then some p
      else if g.next? p = some x ∧ g.contains x = true then some e else g.parent? x := by
  rw [attach_after_eq hc hs hpl he hph]
  by_cases hx : x = h
  · subst hx
    cases hn : g.next? p with
    | none => simp [parent?_hang, hh]
    | some n =>
      have hnh : x ≠ n := fun hnh => hph (hnh ▸ hn)
      simp [parent?_hang, hh, hnh]
  · cases hn : g.next? p with
    | none => simp [parent?_hang, hx]
    | some n => simp [parent?_hang, hx, @eq_comm _ x n]

/-- Neither of them starts a script any more. -/
theorem starts?_attach_after :
    (g.attach h (.after p)).starts? x =
      if x = h ∨ g.next? p = some x ∧ g.contains x = true then some false else g.starts? x := by
  rw [attach_after_eq hc hs hpl he hph]
  by_cases hx : x = h
  · subst hx
    cases hn : g.next? p with
    | none => simp [starts?_hang, hh]
    | some n => simp [starts?_hang, hh]
  · cases hn : g.next? p with
    | none => simp [starts?_hang, hx]
    | some n => simp [starts?_hang, hx, @eq_comm _ x n]

end After

/-! ### Into an input -/

/-- Cut a block off its parent and make it start a script. -/
def displace (g : Graph) (p d : Handle) : Graph :=
  (g.detach p d).modify d fun b => { b with topLevel := true }

theorem get?_displace (g : Graph) (p d x : Handle) :
    (g.displace p d).get? x = (g.get? x).map fun b =>
      { b with
        next := if x = p ∧ b.next = some d then none else b.next
        inputs := if x = p ∧ b.next ≠ some d
          then b.inputs.filter fun _ input => input.block? ≠ some d else b.inputs
        parent := if x = d then none else b.parent
        topLevel := if x = d then true else b.topLevel } := by
  rw [displace, get?_modify, get?_detach_eq]
  cases g.get? x with
  | none => simp
  | some b => by_cases hx : x = d <;> simp [hx]

@[simp] theorem contains_displace (g : Graph) (p d x : Handle) :
    (g.displace p d).contains x = g.contains x := by
  rw [displace, detach, contains_modify, contains_modify, contains_modify]

theorem next?_displace (g : Graph) (p d x : Handle) :
    (g.displace p d).next? x = if x = p ∧ g.next? x = some d then none else g.next? x := by
  cases hb : g.get? x <;> simp [next?, get?_displace, hb]

theorem input?_displace (g : Graph) (p d x : Handle) (m : String) :
    (g.displace p d).input? x m =
      if x = p ∧ g.next? x ≠ some d
      then (g.input? x m).filter (·.block? ≠ some d) else g.input? x m := by
  cases hb : g.get? x with
  | none => simp [input?, get?_displace, hb]
  | some b =>
    simp only [input?, next?, get?_displace, hb, Option.map_some, Option.bind_some]
    split
    · exact Table.get?_filter _ _ _
    · rfl

theorem parent?_displace (g : Graph) (p d x : Handle) :
    (g.displace p d).parent? x = if x = d then none else g.parent? x := by
  by_cases hx : x = d <;> cases hb : g.get? x <;> simp [parent?, get?_displace, hb, hx]

theorem starts?_displace (g : Graph) (p d x : Handle) :
    (g.displace p d).starts? x =
      if x = d ∧ g.contains d = true then some true else g.starts? x := by
  by_cases hx : x = d
  · subst hx
    cases hb : g.get? x <;> simp [starts?, contains, get?_displace, hb]
  · cases hb : g.get? x <;> simp [starts?, get?_displace, hb, hx]

/-- What an input held before is displaced, unless that is the moved block. -/
theorem attach_input_eq (g : Graph) (h p : Handle) (name : String) (branch : Bool) :
    g.attach h (.input p name branch) =
      ((((g.input? p name).bind Input.block?).filter (· ≠ h)).elim g (g.displace p)).plug p h name
        (if branch then .branch h else .reporter h) := by
  have hheld : ((g.get? p).bind fun b => b.inputs.get? name) = g.input? p name := rfl
  simp only [attach, hheld]
  cases ((g.input? p name).bind Input.block?).filter (· ≠ h) <;> rfl

/-! ### Moves -/

/-- **A move that is not refused** cuts the block off and attaches it. -/
theorem exists_of_moved {place : Destination} (hm : (g.move h place).2 = true) :
    g.contains h = true ∧ g.refuses h place = false ∧
      (g.move h place).1 = (g.cutOff h).attach h place := by
  unfold move at hm ⊢
  cases hb : g.get? h with
  | none =>
    rw [hb] at hm
    cases hm
  | some b =>
    rw [hb] at hm
    cases hr : g.refuses h place with
    | true =>
      simp only [hr, if_true] at hm
      cases hm
    | false => exact ⟨contains_of_get? hb, rfl, rfl⟩

/-- The block it is attached to is live, and the moved block is not among its ancestors. -/
theorem not_below_of_moved (hc : g.Consistent) {place : Destination}
    (hm : (g.move h place).2 = true)
    (hplace : place.parent? = some p) : g.contains p = true ∧ ¬g.Below p h := by
  obtain ⟨-, hr, -⟩ := exists_of_moved hm
  rw [refuses, hplace] at hr
  simp only [Bool.or_eq_false_iff, Bool.not_eq_false'] at hr
  refine ⟨hr.1, fun hb => ?_⟩
  rw [isAncestorOrSelf_of_below hc hb] at hr
  cases hr.2

end Stagecraft.Graph
