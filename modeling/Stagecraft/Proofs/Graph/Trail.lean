import Stagecraft.Proofs.Graph.Chain
import Stagecraft.Proofs.Graph.Subtree
import Mathlib.Data.Set.Finite.List
import Mathlib.Order.WellFounded

/-!
# Walks to the end

A walk in a program follows successors, or parents, from a block until there is none. It passes no
block twice, so the number of live blocks is enough as a bound, whether the program is a forest or
not: what matters is only that the walk comes to an end.

* `Graph.Trail` : what is passed when a partial function is followed to its end;
* `Graph.exists_trail` : a walk that runs into no circle comes to an end;
* `Graph.Strand` : a block and those that come after it;
* `Graph.Strand.getLast?_eq` : **the bounded walk gets to the end** of every strand;
* `Graph.Forest.next?_lastInChain` : in a forest there is always an end to get to;
* `Graph.isAncestorOrSelf_of_below` : **the bounded walk finds every ancestor**.
-/

namespace Stagecraft.Graph

/-- What is passed when a partial function is followed to its end. -/
inductive Trail (f : Handle → Option Handle) : Handle → List Handle → Prop
  /-- The walk ends here. -/
  | last {h : Handle} : f h = none → Trail f h [h]
  /-- The walk goes on. -/
  | cons {h n : Handle} {l : List Handle} : f h = some n → Trail f n l → Trail f h (h :: l)

variable {g g' : Graph} {f f' : Handle → Option Handle} {h n x a : Handle} {l l' r : List Handle}

namespace Trail

theorem unique (ht : Trail f h l) : ∀ {l'}, Trail f h l' → l = l' := by
  induction ht with
  | last hn =>
    intro l' ht'
    cases ht' with
    | last => rfl
    | cons hs => cases hn.symm.trans hs
  | cons hs _ ih =>
    intro l' ht'
    cases ht' with
    | last hn => cases hn.symm.trans hs
    | cons hs' ht' =>
      cases hs.symm.trans hs'
      rw [ih ht']

theorem head?_eq (ht : Trail f h l) : l.head? = some h := by cases ht <;> rfl

theorem ne_nil (ht : Trail f h l) : l ≠ [] := by cases ht <;> exact List.cons_ne_nil _ _

/-- The rest of a walk is a walk. -/
theorem exists_suffix (ht : Trail f h l) (hx : x ∈ l) : ∃ r, r.length ≤ l.length ∧ Trail f x r := by
  induction ht with
  | last hn =>
    rw [List.mem_singleton.1 hx]
    exact ⟨_, Nat.le_refl _, .last hn⟩
  | cons hs ht ih =>
    rcases List.mem_cons.1 hx with rfl | hx
    · exact ⟨_, Nat.le_refl _, .cons hs ht⟩
    · obtain ⟨r, hle, hr⟩ := ih hx
      exact ⟨r, Nat.le_succ_of_le hle, hr⟩

/-- **No block is passed twice**, or the walk would not end. -/
theorem nodup (ht : Trail f h l) : l.Nodup := by
  induction ht with
  | last => exact List.nodup_singleton _
  | @cons h _ l hs ht ih =>
    refine List.nodup_cons.2 ⟨fun hmem => ?_, ih⟩
    obtain ⟨r, hle, hr⟩ := ht.exists_suffix hmem
    have hlen := congrArg List.length (hr.unique (.cons hs ht))
    rw [List.length_cons] at hlen
    omega

/-- What is passed is reached step by step. -/
theorem reflTransGen {R : Handle → Handle → Prop} (ht : Trail f h l)
    (hR : ∀ y z, y ∈ l → f y = some z → R y z) (hx : x ∈ l) : Relation.ReflTransGen R h x := by
  induction ht with
  | last =>
    rw [List.mem_singleton.1 hx]
  | cons hs _ ih =>
    rcases List.mem_cons.1 hx with rfl | hx
    · exact .refl
    · exact .head (hR _ _ List.mem_cons_self hs)
        (ih (fun y z hy hyz => hR y z (List.mem_cons_of_mem _ hy) hyz) hx)

/-- All but the last one have another one after them. -/
theorem exists_of_mem_dropLast (ht : Trail f h l) : ∀ y ∈ l.dropLast, ∃ z, f y = some z := by
  induction ht with
  | last => exact fun y hy => absurd hy List.not_mem_nil
  | @cons h n l hs ht ih =>
    rw [List.dropLast_cons_of_ne_nil ht.ne_nil]
    exact List.forall_mem_cons.2 ⟨⟨n, hs⟩, ih⟩

theorem eq_none_of_getLast? (ht : Trail f h l) : ∀ {e}, l.getLast? = some e → f e = none := by
  induction ht with
  | last hn =>
    rintro e he
    cases he
    exact hn
  | @cons h n l hs ht ih =>
    intro e he
    rw [List.getLast?_cons_of_ne_nil ht.ne_nil] at he
    exact ih he

/-- **The walk is no longer than there are live blocks, and one more.** -/
theorem length_le (hc : g.Consistent) (hlive : ∀ y z, f y = some z → g.contains y = true)
    (ht : Trail f h l) : l.length ≤ g.size + 1 := by
  have hle := hc.length_le_size (ht.nodup.sublist l.dropLast_sublist) fun y hy => by
    obtain ⟨z, hz⟩ := ht.exists_of_mem_dropLast y hy
    exact hlive y z hz
  rw [List.length_dropLast] at hle
  omega

/-- A walk is the same where the function is. -/
theorem congr (ht : Trail f h l) (hf : ∀ y ∈ l, f' y = f y) : Trail f' h l := by
  induction ht with
  | last hn => exact .last ((hf _ List.mem_cons_self).trans hn)
  | cons hs _ ih =>
    exact .cons ((hf _ List.mem_cons_self).trans hs)
      (ih fun y hy => hf y (List.mem_cons_of_mem _ hy))

/-- A walk goes on if the last step of it does. -/
theorem append (ht : Trail f h l) (hr : Trail f' n r)
    (hlast : ∀ e, l.getLast? = some e → f' e = some n)
    (hf : ∀ y ∈ l, l.getLast? ≠ some y → f' y = f y) : Trail f' h (l ++ r) := by
  induction ht with
  | last => exact .cons (hlast _ rfl) hr
  | @cons h m l hs ht ih =>
    have hgetLast : (h :: l).getLast? = l.getLast? := List.getLast?_cons_of_ne_nil ht.ne_nil
    rw [hgetLast] at hlast hf
    have hne : l.getLast? ≠ some h := fun he =>
      (List.nodup_cons.1 (Trail.cons hs ht).nodup).1 (List.mem_of_getLast? he)
    exact .cons ((hf h List.mem_cons_self hne).trans hs)
      (ih hlast fun y hy => hf y (List.mem_cons_of_mem _ hy))

end Trail

/-- **A walk that runs into no circle comes to an end**, since it is among finitely many blocks. -/
theorem exists_trail (hlive : ∀ y z, f y = some z → g.contains y = true)
    (hacyclic : ∀ y, Relation.ReflTransGen (fun y z => f y = some z) h y →
      ¬Relation.TransGen (fun y z => f y = some z) y y) : ∃ l, Trail f h l := by
  let walk : Set Handle :=
    {y | y ∈ g.handles ∧ Relation.ReflTransGen (fun y z => f y = some z) h y}
  have : Finite walk := ((List.finite_toSet g.handles).subset fun _ hy => hy.1).to_subtype
  have hhandle : ∀ y z, f y = some z → y ∈ g.handles := fun y z hz => by
    obtain ⟨b, hb⟩ := contains_iff.1 (hlive y z hz)
    exact mem_handles hb
  -- what comes later on the walk is below what comes before
  let later : walk → walk → Prop := fun z y =>
    Relation.TransGen (fun y z => f y = some z) y.1 z.1
  have : IsTrans walk later := ⟨fun _ _ _ h₁ h₂ => h₂.trans h₁⟩
  have : Std.Irrefl later := ⟨fun y => hacyclic y.1 y.2.2⟩
  have hall : ∀ y : walk, ∃ l, Trail f y.1 l := by
    intro y
    induction y using (Finite.wellFounded_of_trans_of_irrefl later).induction with
    | h y ih =>
      cases hy : f y.1 with
      | none => exact ⟨_, .last hy⟩
      | some z =>
        cases hz : f z with
        | none => exact ⟨_, .cons hy (.last hz)⟩
        | some w =>
          obtain ⟨l, hl⟩ := ih ⟨z, hhandle z w hz, y.2.2.tail hy⟩ (.single hy)
          exact ⟨_, .cons hy hl⟩
  cases hh : f h with
  | none => exact ⟨_, .last hh⟩
  | some z => exact hall ⟨h, hhandle h z hh, .refl⟩

/-! ### Successors -/

/-- A block and those that come after it, each the successor of the one before. -/
def Strand (g : Graph) : Handle → List Handle → Prop := Trail g.next?

theorem contains_of_next? (hn : g.next? x = some n) : g.contains x = true := by
  obtain ⟨b, hb, -⟩ := Option.bind_eq_some_iff.1 hn
  exact contains_of_get? hb

theorem lastFrom_of_trail (ht : Trail g.next? h l) (fuel : Nat) :
    l.length ≤ fuel + 1 → l.getLast? = some (g.lastFrom fuel h) := by
  induction ht generalizing fuel with
  | @last h hn =>
    intro _
    cases fuel with
    | zero => rfl
    | succ fuel =>
      rw [lastFrom, hn]
      rfl
  | @cons h n l hs ht ih =>
    intro hle
    rw [List.length_cons] at hle
    have hpos := List.length_pos_iff.2 ht.ne_nil
    obtain ⟨fuel, rfl⟩ := Nat.exists_eq_succ_of_ne_zero (n := fuel) (by omega)
    rw [List.getLast?_cons_of_ne_nil ht.ne_nil, lastFrom, hs]
    exact ih fuel (by omega)

/-- **The bounded walk gets to the end of a strand.** -/
theorem Strand.getLast?_eq (hs : g.Strand h l) (hc : g.Consistent) :
    l.getLast? = some (g.lastInChain h) :=
  lastFrom_of_trail hs g.size (hs.length_le hc fun _ _ => contains_of_next?)

/-- **In a forest the walk along successors gets to the last one.** -/
theorem Forest.next?_lastInChain (hf : g.Forest) (hc : g.Consistent) (h : Handle) :
    g.next? (g.lastInChain h) = none := by
  have hstrand : ∃ l, g.Strand h l := by
    refine exists_trail (g := g) (fun _ _ => contains_of_next?) fun y _ hcycle => ?_
    obtain ⟨w, hyw, hw⟩ := Relation.TransGen.tail'_iff.1 hcycle
    have hreach : g.Reaches y w :=
      Relation.ReflTransGen.mono (fun _ _ hn => mem_children_of_next? hn) _ _ hyw
    exact hf.not_below (hf.parent_iff.2 (mem_children_of_next? hw)) (hf.reaches_iff.1 hreach)
  obtain ⟨l, hl⟩ := hstrand
  exact hl.eq_none_of_getLast? (hl.getLast?_eq hc)

/-! ### Parents -/

/-- The chain of parents up to an ancestor is a walk that stops there. -/
theorem exists_trail_of_below (hb : g.Below x a) :
    ∃ l, Trail (fun y => if y = a then none else g.parent? y) x l ∧ a ∈ l := by
  induction hb using Relation.ReflTransGen.head_induction_on with
  | refl => exact ⟨[a], .last (if_pos rfl), List.mem_cons_self⟩
  | @head x p hp _ ih =>
    obtain ⟨l, hl, hmem⟩ := ih
    by_cases hx : x = a
    · exact ⟨[x], .last (if_pos hx), hx ▸ List.mem_cons_self⟩
    · exact ⟨x :: l, .cons ((if_neg hx).trans hp) hl, List.mem_cons_of_mem _ hmem⟩

theorem onParentChain_of_trail
    (ht : Trail (fun y => if y = a then none else g.parent? y) x l) (fuel : Nat) :
    a ∈ l → l.length ≤ fuel → g.onParentChain a fuel (some x) = true := by
  induction ht generalizing fuel with
  | last =>
    intro hmem hle
    obtain ⟨fuel, rfl⟩ := Nat.exists_eq_add_of_le' hle
    exact if_pos (List.mem_singleton.1 hmem).symm
  | @cons x p l hs _ ih =>
    intro hmem hle
    rw [List.length_cons] at hle
    obtain ⟨fuel, rfl⟩ := Nat.exists_eq_add_of_le' (Nat.le_trans (Nat.le_add_left 1 _) hle)
    rw [onParentChain]
    split
    · rfl
    · rename_i hx
      rw [if_neg hx] at hs
      rw [hs]
      refine ih fuel ((List.mem_cons.1 hmem).resolve_left (Ne.symm hx)) (by omega)

/-- **The bounded walk finds every ancestor**, even where chains of parents run in circles. -/
theorem isAncestorOrSelf_of_below (hc : g.Consistent) (hb : g.Below x a) :
    g.isAncestorOrSelf a x = true := by
  obtain ⟨l, hl, hmem⟩ := exists_trail_of_below hb
  refine onParentChain_of_trail hl _ hmem (hl.length_le hc fun y p hp => ?_)
  split at hp
  · cases hp
  · obtain ⟨b, hb, -⟩ := exists_of_parent? hp
    exact contains_of_get? hb

end Stagecraft.Graph
