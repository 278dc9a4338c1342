import Stagecraft.Graph.Arena
import Mathlib.Data.List.Nodup

/-!
# The order of reporters

The reporters plugged into a block, and into each other, are run depth first in input order, each
after the ones plugged into it. One that is plugged in at several places is run where it comes
first. Blocks that are gone and menus are not run: the former give nothing, the latter their field.

* `Graph.nests` : the nesting is within a limit, which also rules cycles out;
* `Graph.order` : the reporters of a block in their order;
* `Graph.notMem_postorder` : **a reporter does not come among the ones plugged into it**;
* `Graph.subset_of_closed` : whoever has the plugged ones of each has all below.
-/

namespace Stagecraft

/-! ### Lists without repetition -/

section Lists

variable {α : Type} [DecidableEq α]

theorem nodup_eraseDups : ∀ l : List α, l.eraseDups.Nodup
  | [] => .nil
  | a :: l => by
    have hlen : (l.filter fun b => !b == a).length < (a :: l).length :=
      Nat.lt_succ_of_le (List.length_filter_le _ _)
    rw [List.eraseDups_cons]
    refine List.nodup_cons.2 ⟨fun hm => ?_, nodup_eraseDups _⟩
    simpa using List.mem_eraseDups.1 hm
termination_by l => l.length
decreasing_by exact hlen

theorem eraseDups_of_nodup {l : List α} (h : l.Nodup) : l.eraseDups = l := by
  induction l with
  | nil => rfl
  | cons a l ih =>
    obtain ⟨ha, hl⟩ := List.nodup_cons.1 h
    rw [List.eraseDups_cons, List.filter_eq_self.2, ih hl]
    intro b hb
    simpa using fun he : b = a => ha (he ▸ hb)

/-- What comes first counts once in any case. -/
theorem eraseDups_eraseDups_append (l l' : List α) :
    (l.eraseDups ++ l').eraseDups = (l ++ l').eraseDups := by
  have hall : l'.removeAll l.eraseDups = l'.removeAll l :=
    List.filter_congr fun a _ => by simp
  rw [List.eraseDups_append, List.eraseDups_append, hall, eraseDups_of_nodup (nodup_eraseDups l)]

/-- What is there already adds nothing. -/
theorem eraseDups_append_of_subset {l l' : List α} (h : l' ⊆ l) :
    (l ++ l').eraseDups = l.eraseDups := by
  have hnil : l'.removeAll l = [] := List.filter_eq_nil_iff.2 fun a ha => by simpa using h ha
  rw [List.eraseDups_append, hnil, List.eraseDups_nil, List.append_nil]

theorem eraseDups_append_singleton {l : List α} {a : α} (h : a ∉ l) :
    (l ++ [a]).eraseDups = l.eraseDups ++ [a] := by
  have hself : [a].removeAll l = [a] :=
    List.filter_eq_self.2 fun b hb => by simpa [List.mem_singleton.1 hb] using h
  rw [List.eraseDups_append, hself, eraseDups_of_nodup (List.nodup_singleton a)]

/-- The list up to some place is the first part of it. -/
theorem eraseDups_prefix (l l' : List α) : l.eraseDups <+: (l ++ l').eraseDups := by
  rw [List.eraseDups_append]
  exact List.prefix_append _ _

theorem eraseDups_filter (q : α → Bool) : ∀ l : List α,
    (l.filter q).eraseDups = l.eraseDups.filter q
  | [] => rfl
  | a :: l => by
    have hlen : (l.filter fun b => !b == a).length < (a :: l).length :=
      Nat.lt_succ_of_le (List.length_filter_le _ _)
    have ih := eraseDups_filter q (l.filter fun b => !b == a)
    cases ha : q a with
    | true =>
      rw [List.filter_cons_of_pos ha, List.eraseDups_cons, List.eraseDups_cons,
        List.filter_cons_of_pos ha, ← ih, List.filter_filter, List.filter_filter]
      simp only [Bool.and_comm]
    | false =>
      have hq : (l.filter fun b => !b == a).filter q = l.filter q := by
        rw [List.filter_filter]
        refine List.filter_congr fun b _ => ?_
        by_cases hb : b = a
        · simp [hb, ha]
        · simp [hb]
      rw [List.filter_cons_of_neg (by simp [ha]), List.eraseDups_cons,
        List.filter_cons_of_neg (by simp [ha]), ← ih, hq]
termination_by l => l.length
decreasing_by exact hlen

/-- To have begun with a list already changes nothing. -/
theorem eraseDups_append_of_isPrefix {l l' : List α} (h : l <+: l'.eraseDups) :
    (l ++ l').eraseDups = l'.eraseDups := by
  obtain ⟨m, hm⟩ := h
  have hnodup : (l ++ m).Nodup := hm ▸ nodup_eraseDups l'
  have hnew : m.removeAll l = m :=
    List.filter_eq_self.2 fun a ha => by simpa using fun hl => (hnodup.disjoint hl ha)
  have hold : l.removeAll l = [] := List.filter_eq_nil_iff.2 fun a ha => by simpa using ha
  calc (l ++ l').eraseDups = l ++ (l'.removeAll l).eraseDups := by
        rw [List.eraseDups_append, eraseDups_of_nodup hnodup.of_append_left]
    _ = l ++ l'.eraseDups.removeAll l := by rw [List.removeAll, eraseDups_filter]; rfl
    _ = l'.eraseDups := by
        have hfilter : (l ++ m).removeAll l = l.removeAll l ++ m.removeAll l :=
          List.filter_append _ _
        rw [← hm, hfilter, hold, hnew, List.nil_append]

end Lists

/-! ### Plugged reporters -/

/-- The blocks plugged into inputs to be evaluated, in input order. -/
def plugged (inputs : List (String × Input)) : List Handle :=
  inputs.filterMap fun e => match e.2 with
    | .reporter h => some h
    | .literal _ => none
    | .branch _ => none

namespace Graph

/-- A block that is run for its value: it is live and no menu. -/
def reporter? (g : Graph) (h : Handle) : Option Block := (g.get? h).filter (!·.opcode.isMenu)

/-- Whether a block nests reporters within a limit, itself included. -/
def nests (g : Graph) : Nat → Handle → Bool
  | 0, h => (g.reporter? h).isNone
  | room + 1, h =>
    match g.reporter? h with
    | none => true
    | some b => (plugged b.inputs.entries).all (g.nests room)

/-- The reporters in a block, itself included, each after the ones plugged into it. -/
def postorder (g : Graph) : Nat → Handle → List Handle
  | 0, _ => []
  | room + 1, h =>
    match g.reporter? h with
    | none => []
    | some b => (plugged b.inputs.entries).flatMap (g.postorder room) ++ [h]

/-- The reporters of a block that is executed, each where it comes first. -/
def order (g : Graph) (limit : Nat) (b : Block) : List Handle :=
  ((plugged b.inputs.entries).flatMap (g.postorder limit)).eraseDups

theorem nodup_order (g : Graph) (limit : Nat) (b : Block) : (g.order limit b).Nodup :=
  nodup_eraseDups _

variable {g : Graph} {h c : Handle} {b : Block} {room room' : Nat}

theorem nests_of_plugged (hn : g.nests (room + 1) h = true) (hb : g.reporter? h = some b)
    (hc : c ∈ plugged b.inputs.entries) : g.nests room c = true := by
  rw [nests, hb] at hn
  exact List.all_eq_true.1 hn c hc

theorem room_of_nests (hn : g.nests room h = true) (hb : g.reporter? h = some b) :
    ∃ room', room = room' + 1 := by
  cases room with
  | zero =>
    rw [nests, hb] at hn
    cases hn
  | succ room' => exact ⟨room', rfl⟩

theorem postorder_of_none (hb : g.reporter? h = none) : g.postorder room h = [] := by
  cases room with
  | zero => rfl
  | succ room => rw [postorder, hb]

theorem postorder_of_some (hb : g.reporter? h = some b) : g.postorder (room + 1) h =
    (plugged b.inputs.entries).flatMap (g.postorder room) ++ [h] := by
  rw [postorder, hb]

theorem mem_postorder_self (hn : g.nests room h = true) (hb : g.reporter? h = some b) :
    h ∈ g.postorder room h := by
  obtain ⟨room, rfl⟩ := room_of_nests hn hb
  rw [postorder_of_some hb]
  exact List.mem_append_right _ (List.mem_singleton_self h)

/-- The order does not depend on the limit. -/
theorem postorder_eq (room : Nat) : ∀ {h : Handle} {room' : Nat}, g.nests room h = true →
    g.nests room' h = true → g.postorder room h = g.postorder room' h := by
  induction room with
  | zero =>
    intro h room' hn _
    have hb : g.reporter? h = none := Option.isNone_iff_eq_none.1 hn
    rw [postorder_of_none hb, postorder_of_none hb]
  | succ room ih =>
    intro h room' hn hn'
    cases hb : g.reporter? h with
    | none => rw [postorder_of_none hb, postorder_of_none hb]
    | some b =>
      obtain ⟨room', rfl⟩ := room_of_nests hn' hb
      rw [postorder_of_some hb, postorder_of_some hb]
      refine congrArg (· ++ [h]) (List.flatMap_congr fun c hc => ?_)
      exact ih (nests_of_plugged hn hb hc) (nests_of_plugged hn' hb hc)

/-- A wider limit does no harm. -/
theorem nests_mono (hle : room ≤ room') : ∀ {h : Handle}, g.nests room h = true →
    g.nests room' h = true := by
  induction room generalizing room' with
  | zero =>
    intro h hn
    have hb : g.reporter? h = none := Option.isNone_iff_eq_none.1 hn
    cases room' with
    | zero => exact hn
    | succ room' => rw [nests, hb]
  | succ room ih =>
    intro h hn
    obtain ⟨room', rfl⟩ : ∃ k, room' = k + 1 := ⟨room' - 1, by omega⟩
    cases hb : g.reporter? h with
    | none => rw [nests, hb]
    | some b =>
      rw [nests, hb]
      exact List.all_eq_true.2 fun c hc => ih (by omega) (nests_of_plugged hn hb hc)

/-- So all the reporters of a block come in the same order. -/
theorem flatMap_postorder_eq {l : List Handle} (hle : room ≤ room')
    (hn : ∀ c ∈ l, g.nests room c = true) :
    l.flatMap (g.postorder room') = l.flatMap (g.postorder room) :=
  List.flatMap_congr fun c hc => postorder_eq room' (nests_mono hle (hn c hc)) (hn c hc)

/-- A reporter further in nests less. -/
theorem nests_of_mem (room : Nat) : ∀ {h : Handle}, g.nests room h = true →
    c ∈ g.postorder room h → ∃ room' < room, g.nests (room' + 1) c = true := by
  induction room with
  | zero =>
    intro h _ hc
    cases hc
  | succ room ih =>
    intro h hn hc
    cases hb : g.reporter? h with
    | none =>
      rw [postorder_of_none hb] at hc
      cases hc
    | some b =>
      rw [postorder_of_some hb] at hc
      rcases List.mem_append.1 hc with hc | hc
      · obtain ⟨d, hd, hc⟩ := List.mem_flatMap.1 hc
        obtain ⟨room', hlt, hroom⟩ := ih (nests_of_plugged hn hb hd) hc
        exact ⟨room', Nat.lt_succ_of_lt hlt, hroom⟩
      · rw [List.mem_singleton.1 hc]
        exact ⟨room, Nat.lt_succ_self room, hn⟩

/-- **A reporter does not come among the ones plugged into it.** It would come among them further in
again, with less room, and so on: the induction is on the room. -/
theorem notMem_postorder (hb : g.reporter? h = some b) (hc : c ∈ plugged b.inputs.entries) :
    ∀ {room : Nat}, g.nests (room + 1) h = true → h ∉ g.postorder room c := by
  intro room
  induction room using Nat.strongRecOn with
  | ind room ih =>
    intro hn hm
    have hnc : g.nests room c = true := nests_of_plugged hn hb hc
    -- less room is enough for it where it comes again, and there it has itself plugged in once more
    obtain ⟨room', hlt, hn'⟩ := nests_of_mem room hnc hm
    refine ih room' hlt hn' ?_
    rwa [postorder_eq room' (nests_of_plugged hn' hb hc) hnc]

/-- Whoever has the reporters plugged into each that it has, has all below. -/
theorem subset_of_closed {l : List Handle} (hclosed : ∀ h ∈ l, ∀ b, g.reporter? h = some b →
    ∀ c ∈ plugged b.inputs.entries, (g.reporter? c).isSome = true → c ∈ l) (room : Nat) :
    ∀ {h : Handle}, h ∈ l → g.postorder room h ⊆ l := by
  induction room with
  | zero => exact fun _ => List.nil_subset l
  | succ room ih =>
    intro h hh
    cases hb : g.reporter? h with
    | none =>
      rw [postorder_of_none hb]
      exact List.nil_subset l
    | some b =>
      rw [postorder_of_some hb]
      refine List.append_subset.2 ⟨fun x hx => ?_, fun x hx => ?_⟩
      · obtain ⟨c, hc, hx⟩ := List.mem_flatMap.1 hx
        cases hrc : g.reporter? c with
        | none =>
          rw [postorder_of_none hrc] at hx
          cases hx
        | some d => exact ih (hclosed h hh b hb c hc (hrc ▸ rfl)) hx
      · rwa [List.mem_singleton.1 hx]

end Graph

end Stagecraft
