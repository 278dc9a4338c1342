import Stagecraft.Proofs.Cast.Lookup

/-!
# Lists stay within their bounds

A block for a list has an index as its argument, which may be any value: `last` or `random`, a
number, or something that is read as one. A number names the position that is its floor, compared
as a double with the length of the list. Doubles tell all lengths below `2 ^ 53` apart, so up to
there a position that is named is in the list, and every edit goes where there is an item or, for an
insertion, a gap between items.

* `Value.positionOf_eq_position_iff` : which number names which position;
* `Value.position_bounds` : a position that is named is in the list;
* `Primitive.Edits` : what the primitives do to the items of a list, with the place where they do
  it;
* `Primitive.edits_edited` : they do just that;
* `Primitive.deleteItem_insertItem` : deleting takes an insertion back;
* `Primitive.bounded_of_data` : **what a primitive does to its list**.
-/

namespace Stagecraft

/-! ### Positions -/

/-- Doubles tell natural numbers below `2 ^ 53` apart. -/
theorem nearestDouble_eq {n : Nat} (hn : n < Nat.pow 2 53) : nearestDouble n = n := by
  have hdrop : Nat.log2 n - 52 = 0 := by
    by_cases h0 : n = 0
    · subst h0
      rfl
    · have := (Nat.log2_lt h0).2 hn
      omega
  unfold nearestDouble
  simp [hdrop, Nat.mod_one]

namespace Value

variable {v : Value} {length i : Nat} {acceptAll : Bool} {draw : Nat}

/-- A number names the position that is its floor. -/
theorem positionOf_eq_position_iff {x : Float} (hl : length < Nat.pow 2 53) :
    positionOf x length = .position i ↔
      1 ≤ i ∧ i ≤ length ∧ ∃ d, Double.ofFloat? x = some d ∧ d.floor = i := by
  have hlast : Nat.pow 2 53 ≤ lastPosition := by decide
  unfold positionOf
  rw [nearestDouble_eq hl]
  cases Double.ofFloat? x with
  | none => simp
  | some d =>
    simp only [Bool.and_eq_true, decide_eq_true_eq, Option.some.injEq, exists_eq_left']
    split
    · rename_i hd
      rw [ListIndex.position.injEq]
      omega
    · rename_i hd
      refine iff_of_false (by simp) fun h => hd ?_
      omega

/-- No number stands for the whole list. -/
theorem positionOf_ne_all (x : Float) (length : Nat) : positionOf x length ≠ .all := by
  unfold positionOf
  split
  · split <;> simp
  · simp

/-- An index that means the same whenever it is used on lists of one length: a number, whatever is
read as one, and `last`. -/
def Settled (v : Value) : Prop := v ≠ .text "all" ∧ v ≠ .text "random" ∧ v ≠ .text "any"

instance (v : Value) : Decidable v.Settled := inferInstanceAs (Decidable (_ ∧ _))

/-- The ways in which an index gets its meaning. -/
theorem toListIndex_cases (v : Value) (length : Nat) (acceptAll : Bool) (draw : Nat) :
    (v = .text "all" ∧
      v.toListIndex length acceptAll draw = if acceptAll then .all else .invalid) ∨
    (v = .text "last" ∧
      v.toListIndex length acceptAll draw = if 0 < length then .position length else .invalid) ∨
    ((v = .text "random" ∨ v = .text "any") ∧ v.toListIndex length acceptAll draw =
      if 0 < length then .position (draw % length + 1) else .invalid) ∨
    v ≠ .text "last" ∧ v.Settled ∧
      v.toListIndex length acceptAll draw = positionOf v.toNumber length := by
  unfold toListIndex
  split
  · exact .inl ⟨rfl, rfl⟩
  · exact .inr (.inl ⟨rfl, rfl⟩)
  · exact .inr (.inr (.inl ⟨.inl rfl, rfl⟩))
  · exact .inr (.inr (.inl ⟨.inr rfl, rfl⟩))
  · rename_i hall hlast hrandom hany
    exact .inr (.inr (.inr ⟨hlast, ⟨hall, hrandom, hany⟩, rfl⟩))

/-- **A position that is named is in the list.** -/
theorem position_bounds (hl : length < Nat.pow 2 53)
    (h : v.toListIndex length acceptAll draw = .position i) : 1 ≤ i ∧ i ≤ length := by
  rcases v.toListIndex_cases length acceptAll draw with
    ⟨-, he⟩ | ⟨-, he⟩ | ⟨-, he⟩ | ⟨-, -, he⟩
  · rw [he] at h
    split at h <;> cases h
  · rw [he] at h
    split at h
    · cases h
      omega
    · cases h
  · rw [he] at h
    split at h
    · rename_i hpos
      cases h
      have := Nat.mod_lt draw hpos
      omega
    · cases h
  · obtain ⟨h1, h2, -⟩ := (positionOf_eq_position_iff hl).1 (he.symm.trans h)
    exact ⟨h1, h2⟩

/-- Only a deletion accepts the whole list as a meaning. -/
theorem toListIndex_ne_all (v : Value) (length draw : Nat) :
    v.toListIndex length false draw ≠ .all := by
  rcases v.toListIndex_cases length false draw with ⟨-, he⟩ | ⟨-, he⟩ | ⟨-, he⟩ | ⟨-, -, he⟩
  all_goals rw [he]
  · simp
  · split <;> simp
  · split <;> simp
  · exact positionOf_ne_all _ _

/-- The meaning of a settled index is a matter of the length alone. -/
theorem Settled.toListIndex_eq (hv : v.Settled) (length : Nat) (acceptAll acceptAll' : Bool)
    (draw draw' : Nat) :
    v.toListIndex length acceptAll draw = v.toListIndex length acceptAll' draw' := by
  obtain ⟨hall, hrandom, hany⟩ := hv
  unfold toListIndex
  split <;> first | rfl | contradiction

/-- A settled index that names no position of a list names none of a shorter one. -/
theorem Settled.invalid_of_succ (hv : v.Settled) (hl : length + 1 < Nat.pow 2 53)
    (h : v.toListIndex (length + 1) acceptAll draw = .invalid) :
    v.toListIndex length acceptAll draw = .invalid := by
  rcases v.toListIndex_cases (length + 1) acceptAll draw with
    ⟨he, -⟩ | ⟨-, he⟩ | ⟨he, -⟩ | ⟨hlast, -, he⟩
  · exact absurd he hv.1
  · rw [he, if_pos (Nat.succ_pos _)] at h
    cases h
  · exact absurd he (not_or.2 hv.2)
  · rcases v.toListIndex_cases length acceptAll draw with
      ⟨he', -⟩ | ⟨he', -⟩ | ⟨he', -⟩ | ⟨-, -, he'⟩
    · exact absurd he' hv.1
    · exact absurd he' hlast
    · exact absurd he' (not_or.2 hv.2)
    · rw [he] at h
      rw [he']
      cases hp : positionOf v.toNumber length with
      | invalid => rfl
      | all => exact absurd hp (positionOf_ne_all _ _)
      | position i =>
        -- the shorter list has the position, so the longer one has it too
        obtain ⟨h1, h2, hd⟩ := (positionOf_eq_position_iff (Nat.lt_of_succ_lt hl)).1 hp
        rw [(positionOf_eq_position_iff hl).2 ⟨h1, Nat.le_succ_of_le h2, hd⟩] at h
        cases h

end Value

/-! ### Items -/

namespace Primitive

open World

/-- What the primitives make of the items `xs` of a list, with an index and an item as arguments
and `n` for `random`. A primitive that works at a position finds the list in two parts there. -/
inductive Edits (index item : Value) (n : Nat) : DataOp → List Value → List Value → Prop
  /-- An item goes to the end. -/
  | add {xs} : xs.length < listLimit → Edits index item n .addToList xs (xs ++ [item])
  /-- The list is full. -/
  | addNone {xs} : listLimit ≤ xs.length → Edits index item n .addToList xs xs
  /-- The item at the position goes. -/
  | delete {before x after} : index.toListIndex (before ++ x :: after).length true n =
      .position (before.length + 1) →
      Edits index item n .deleteOfList (before ++ x :: after) (before ++ after)
  /-- All items go. -/
  | deleteEvery {xs} : index.toListIndex xs.length true n = .all →
      Edits index item n .deleteOfList xs []
  /-- The index is outside the list. -/
  | deleteNone {xs} : index.toListIndex xs.length true n = .invalid →
      Edits index item n .deleteOfList xs xs
  /-- All items go. -/
  | clear {xs} : Edits index item n .deleteAllOfList xs []
  /-- The item goes in between. -/
  | insert {before after} : (before ++ after).length < listLimit →
      index.toListIndex ((before ++ after).length + 1) false n = .position (before.length + 1) →
      Edits index item n .insertAtList (before ++ after) (before ++ item :: after)
  /-- The list is full, or the index is outside of it. -/
  | insertNone {xs} :
      listLimit ≤ xs.length ∨ index.toListIndex (xs.length + 1) false n = .invalid →
      Edits index item n .insertAtList xs xs
  /-- The item takes the place of the one at the position. -/
  | replace {before x after} : index.toListIndex (before ++ x :: after).length false n =
      .position (before.length + 1) →
      Edits index item n .replaceItemOfList (before ++ x :: after) (before ++ item :: after)
  /-- The index is outside the list. -/
  | replaceNone {xs} : index.toListIndex xs.length false n = .invalid →
      Edits index item n .replaceItemOfList xs xs
  /-- The list is only read. -/
  | read {op xs} :
      op = .listContents ∨ op = .itemOfList ∨ op = .lengthOfList ∨ op = .listContainsItem →
      Edits index item n op xs xs

section Items

variable {index item : Value} {n i : Nat} {xs : List Value}

/-- A list falls in two parts at a position of it. -/
theorem exists_split_item (h1 : 1 ≤ i) (h2 : i ≤ xs.length) :
    ∃ before x after, xs = before ++ x :: after ∧ before.length + 1 = i := by
  obtain ⟨k, rfl⟩ := Nat.exists_eq_add_of_le' h1
  have hk : k < xs.length := h2
  refine ⟨xs.take k, xs[k], xs.drop (k + 1), ?_, ?_⟩
  · rw [List.getElem_cons_drop, List.take_append_drop]
  · rw [List.length_take, Nat.min_eq_left (Nat.le_of_lt hk)]

/-- A list falls in two parts between two positions of it, and at its ends. -/
theorem exists_split_gap (h1 : 1 ≤ i) (h2 : i ≤ xs.length + 1) :
    ∃ before after, xs = before ++ after ∧ before.length + 1 = i := by
  obtain ⟨k, rfl⟩ := Nat.exists_eq_add_of_le' h1
  refine ⟨xs.take k, xs.drop k, (List.take_append_drop k xs).symm, ?_⟩
  rw [List.length_take, Nat.min_eq_left (Nat.le_of_succ_le_succ h2)]

/-- An index that names no position is outside the list. -/
theorem invalid_of_no_position {length : Nat}
    (h : ∀ i, index.toListIndex length false n ≠ .position i) :
    index.toListIndex length false n = .invalid := by
  cases hi : index.toListIndex length false n with
  | position i => exact absurd hi (h i)
  | all => exact absurd hi (Value.toListIndex_ne_all _ _ _)
  | invalid => rfl

theorem edits_addItem (xs : List Value) : Edits index item n .addToList xs (addItem item xs) := by
  unfold addItem
  split
  · exact .add ‹_›
  · exact .addNone (Nat.le_of_not_lt ‹_›)

theorem edits_deleteItem (hlen : xs.length < Nat.pow 2 53) :
    Edits index item n .deleteOfList xs (deleteItem index n xs) := by
  unfold deleteItem
  split
  · exact .deleteEvery ‹_›
  · rename_i i hi
    obtain ⟨h1, h2⟩ := Value.position_bounds hlen hi
    obtain ⟨before, x, after, rfl, rfl⟩ := exists_split_item h1 h2
    have herase : (before ++ x :: after).eraseIdx (before.length + 1 - 1) = before ++ after := by
      rw [Nat.add_sub_cancel, List.eraseIdx_append_of_length_le (Nat.le_refl _), Nat.sub_self,
        List.eraseIdx_cons_zero]
    rw [herase]
    exact .delete hi
  · exact .deleteNone ‹_›

theorem edits_insertItem (hlen : xs.length + 1 < Nat.pow 2 53) :
    Edits index item n .insertAtList xs (insertItem index item n xs) := by
  unfold insertItem
  split
  · exact .insertNone (.inl ‹_›)
  · rename_i hroom
    split
    · rename_i i hi
      obtain ⟨h1, h2⟩ := Value.position_bounds hlen hi
      obtain ⟨before, after, rfl, rfl⟩ := exists_split_gap h1 h2
      have hinsert : (before ++ after).insertIdx (before.length + 1 - 1) item =
          before ++ item :: after :=
        List.modifyTailIdx_add (List.cons item) 0 before after
      rw [hinsert]
      exact .insert (Nat.lt_of_not_le hroom) hi
    · rename_i hno
      exact .insertNone (.inr (invalid_of_no_position hno))

theorem edits_replaceItem (hlen : xs.length < Nat.pow 2 53) :
    Edits index item n .replaceItemOfList xs (replaceItem index item n xs) := by
  unfold replaceItem
  split
  · rename_i i hi
    obtain ⟨h1, h2⟩ := Value.position_bounds hlen hi
    obtain ⟨before, x, after, rfl, rfl⟩ := exists_split_item h1 h2
    have hset : (before ++ x :: after).set (before.length + 1 - 1) item =
        before ++ item :: after := by
      rw [Nat.add_sub_cancel, List.set_append_right _ _ (Nat.le_refl _), Nat.sub_self,
        List.set_cons_zero]
    rw [hset]
    exact .replace hi
  · rename_i hno
    exact .replaceNone (invalid_of_no_position hno)

/-- **Every item that is read is read at a place of the list.** -/
theorem itemAt_cases (hlen : xs.length < Nat.pow 2 53) :
    (∃ before x after, xs = before ++ x :: after ∧
      index.toListIndex xs.length false n = .position (before.length + 1) ∧
        itemAt index n xs = x) ∨
      index.toListIndex xs.length false n = .invalid ∧ itemAt index n xs = .blank := by
  unfold itemAt
  split
  · rename_i i hi
    obtain ⟨h1, h2⟩ := Value.position_bounds hlen hi
    obtain ⟨before, x, after, rfl, rfl⟩ := exists_split_item h1 h2
    exact .inl ⟨before, x, after, rfl, hi, by simp⟩
  · rename_i hno
    exact .inr ⟨invalid_of_no_position hno, rfl⟩

/-- What a primitive for lists makes of the items of its list. -/
def edited (op : DataOp) (index item : Value) (n : Nat) (xs : List Value) : List Value :=
  match op with
  | .addToList => addItem item xs
  | .deleteOfList => deleteItem index n xs
  | .deleteAllOfList => []
  | .insertAtList => insertItem index item n xs
  | .replaceItemOfList => replaceItem index item n xs
  | _ => xs

/-- **Every edit is made at a place of the list.** -/
theorem edits_edited {op : DataOp} (hop : op.subject.2 = .list)
    (hlen : xs.length + 1 < Nat.pow 2 53) :
    Edits index item n op xs (edited op index item n xs) := by
  have hlen' : xs.length < Nat.pow 2 53 := Nat.lt_of_succ_lt hlen
  cases op with
  | «variable» | setVariable | changeVariable => cases hop
  | addToList => exact edits_addItem xs
  | deleteOfList => exact edits_deleteItem hlen'
  | deleteAllOfList => exact .clear
  | insertAtList => exact edits_insertItem hlen
  | replaceItemOfList => exact edits_replaceItem hlen'
  | listContents => exact .read (.inl rfl)
  | itemOfList => exact .read (.inr (.inl rfl))
  | lengthOfList => exact .read (.inr (.inr (.inl rfl)))
  | listContainsItem => exact .read (.inr (.inr (.inr rfl)))

/-- No list grows beyond the limit. -/
theorem Edits.length_le {op : DataOp} {ys : List Value} (h : Edits index item n op xs ys) :
    ys.length ≤ max xs.length listLimit := by
  cases h with
  | add hroom => rw [List.length_append, List.length_singleton]; omega
  | insert hroom _ => simp only [List.length_append, List.length_cons] at hroom ⊢; omega
  | delete _ | replace _ => simp only [List.length_append, List.length_cons]; omega
  | deleteEvery _ | clear => exact Nat.zero_le _
  | _ => exact Nat.le_max_left _ _

/-- What the index of a primitive means for a list of `length` items, if the primitive has one. -/
def meaning? (op : DataOp) (index : Value) (n length : Nat) : Option ListIndex :=
  match op with
  | .deleteOfList => some (index.toListIndex length true n)
  | .insertAtList => some (index.toListIndex (length + 1) false n)
  | .replaceItemOfList | .itemOfList => some (index.toListIndex length false n)
  | _ => none

/-- An index outside the list changes nothing. -/
theorem Edits.eq_of_invalid {op : DataOp} {ys : List Value} (h : Edits index item n op xs ys)
    (hinvalid : meaning? op index n xs.length = some .invalid) : ys = xs := by
  cases h with
  | delete hi => rw [meaning?, hi] at hinvalid; cases hinvalid
  | deleteEvery hi => rw [meaning?, hi] at hinvalid; cases hinvalid
  | insert _ hi => rw [meaning?, hi] at hinvalid; cases hinvalid
  | replace hi => rw [meaning?, hi] at hinvalid; cases hinvalid
  | add _ | clear => cases hinvalid
  | _ => rfl

/-- **Deleting takes an insertion back.** -/
theorem deleteItem_insertItem (hindex : index.Settled) (hroom : xs.length < listLimit)
    (n n' : Nat) : deleteItem index n' (insertItem index item n xs) = xs := by
  have hlen : xs.length + 1 < Nat.pow 2 53 := by
    have : listLimit + 1 < Nat.pow 2 53 := by decide
    omega
  unfold insertItem
  rw [if_neg (Nat.not_le_of_lt hroom)]
  cases hi : index.toListIndex (xs.length + 1) false n with
  | position i =>
    obtain ⟨h1, h2⟩ := Value.position_bounds hlen hi
    have hins : (xs.insertIdx (i - 1) item).length = xs.length + 1 :=
      List.length_insertIdx_of_le_length (by omega) item
    simp only [deleteItem, hins, hindex.toListIndex_eq _ true false n' n, hi,
      List.eraseIdx_insertIdx_self]
  | all => exact absurd hi (Value.toListIndex_ne_all _ _ _)
  | invalid =>
    -- what is no place for an item is none of an item
    have hnone := hindex.invalid_of_succ hlen hi
    simp only [deleteItem, hindex.toListIndex_eq _ true false n' n, hnone]

end Items

/-! ### Blocks for lists -/

variable {σ : Type} {op : DataOp} {site : Site} {s : Scene σ} {place : ActorId × String}

theorem variableAt?_congr {w w' : World σ} (h : w'.actors = w.actors) :
    w'.variableAt? = w.variableAt? := by
  funext q
  rw [variableAt?, actor?, h, variableAt?, actor?]

theorem found_of_list (hop : op.subject.2 = .list) (site : Site) (s : Scene σ) :
    found op site s = found .addToList site s := by
  cases op with
  | «variable» | setVariable | changeVariable => cases hop
  | _ => rfl

/-- Random numbers do not matter for look-ups. -/
theorem found_of_sameCast (op : DataOp) (site : Site) {w : World σ} (hw : SameCast s.world w) :
    (found op site { s with world := w }).1.actors = (found op site s).1.actors ∧
      (found op site { s with world := w }).2 = (found op site s).2 :=
  lookupVariable_of_sameCast hw _ _ _ _

theorem variableAt?_editList (site : Site) (s : Scene σ) (f : List Value → List Value)
    (hplace : (found .addToList site s).2 = some place) (q : ActorId × String) :
    (editList site s f).world.variableAt? q =
      if q = place then ((found .addToList site s).1.variableAt? q).map (·.modifyItems f)
      else (found .addToList site s).1.variableAt? q := by
  have hfound : (lookup site s "LIST" .list).2 = some place := hplace
  unfold editList
  simp only [hfound]
  exact variableAt?_modifyVariable _ place _ q

theorem modifyItems_id (v : Variable) : v.modifyItems (fun xs => xs) = v := by
  obtain ⟨id, name, content, cloud⟩ := v
  cases content <;> rfl

/-- **A block for a list looks its list up and edits that one alone.** -/
theorem variableAt?_data (hop : op.subject.2 = .list) (site : Site) (args : Args) (s : Scene σ)
    (hplace : (found op site s).2 = some place) (q : ActorId × String) :
    (data op site args s).1.world.variableAt? q =
      if q = place then ((found op site s).1.variableAt? q).map
        (·.modifyItems (edited op (args.value "INDEX") (args.value "ITEM") (draw s).2))
      else (found op site s).1.variableAt? q := by
  obtain ⟨w, n, hdraw, hw⟩ := exists_draw s
  obtain ⟨hactors, hsecond⟩ := found_of_sameCast .addToList site hw
  rw [found_of_list hop] at hplace ⊢
  have hedit : ∀ f, (editList site { s with world := w } f).world.variableAt? q =
      if q = place then ((found .addToList site s).1.variableAt? q).map (·.modifyItems f)
      else (found .addToList site s).1.variableAt? q := fun f => by
    rw [variableAt?_editList site _ f (hsecond.trans hplace), variableAt?_congr hactors]
  have hread : ∀ {w' : World σ}, w'.actors = (found .addToList site s).1.actors →
      w'.variableAt? q =
        if q = place then ((found .addToList site s).1.variableAt? q).map
          (·.modifyItems fun xs => xs)
        else (found .addToList site s).1.variableAt? q := fun h => by
    rw [variableAt?_congr h]
    simp [modifyItems_id]
  cases op with
  | «variable» | setVariable | changeVariable => cases hop
  | addToList | deleteAllOfList => exact variableAt?_editList site s _ hplace q
  | deleteOfList | insertAtList | replaceItemOfList =>
    simp only [data, hdraw]
    exact hedit _
  | itemOfList =>
    simp only [data, hdraw]
    exact hread hactors
  | listContents | lengthOfList | listContainsItem => exact hread rfl

/-- The value that the block for an item of a list gives. -/
theorem snd_data_itemOfList (site : Site) (args : Args) (s : Scene σ)
    (hplace : (found .itemOfList site s).2 = some place) {v : Variable} {xs : List Value}
    (hv : (found .itemOfList site s).1.variableAt? place = some v) (hxs : v.items? = some xs) :
    (data .itemOfList site args s).2 = .value (itemAt (args.value "INDEX") (draw s).2 xs) := by
  obtain ⟨w, n, hdraw, hw⟩ := exists_draw s
  obtain ⟨hactors, hsecond⟩ := found_of_sameCast .itemOfList site hw
  have hfound : (lookup site { s with world := w } "LIST" .list).2 = some place :=
    hsecond.trans hplace
  have hget : (lookup site { s with world := w } "LIST" .list).1.world.variableAt? place =
      some v := (congrFun (variableAt?_congr hactors) place).trans hv
  simp only [data, hdraw, readList, hfound, Option.bind_some, hget, hxs, Option.getD_some]

/-- What a block for lists does to its list. -/
structure Bounded (op : DataOp) (site : Site) (args : Args) (s : Scene σ)
    (place : ActorId × String) (v : Variable) (xs : List Value) : Prop where
  /-- Positions of the list, and of the list with one more item, are within their bounds. -/
  position : ∀ (index : Value) (length : Nat) (acceptAll : Bool) (n i : Nat),
    length ≤ xs.length + 1 → index.toListIndex length acceptAll n = .position i →
      1 ≤ i ∧ i ≤ length
  /-- The list is edited at a place of it. -/
  edits : ∃ ys, (data op site args s).1.world.variableAt? place =
      some { v with content := .list ys } ∧
    Edits (args.value "INDEX") (args.value "ITEM") (draw s).2 op xs ys
  /-- Reading gives the item at the position, or the blank value outside the list. -/
  item : op = .itemOfList →
    (∃ before x after, xs = before ++ x :: after ∧
      (args.value "INDEX").toListIndex xs.length false (draw s).2 =
        .position (before.length + 1) ∧ (data op site args s).2 = .value x) ∨
    (args.value "INDEX").toListIndex xs.length false (draw s).2 = .invalid ∧
      (data op site args s).2 = .value .blank
  /-- The list does not grow beyond the limit. -/
  length_le : ∀ v' ys, (data op site args s).1.world.variableAt? place = some v' →
    v'.items? = some ys → ys.length ≤ max xs.length listLimit
  /-- An index outside the list changes nothing. -/
  invalid : meaning? op (args.value "INDEX") (draw s).2 xs.length = some .invalid →
    (data op site args s).1.world.variableAt? place = some v
  /-- Deleting at the index of an insertion takes the insertion back. -/
  restored : op = .insertAtList → (args.value "INDEX").Settled → xs.length < listLimit →
    ∀ (site' : Site) (args' : Args) (s' : Scene σ),
      args'.value "INDEX" = args.value "INDEX" → (found .deleteOfList site' s').2 = some place →
      (found .deleteOfList site' s').1.variableAt? place =
        (data op site args s).1.world.variableAt? place →
      (data .deleteOfList site' args' s').1.world.variableAt? place = some v
  /-- All other variables and lists are as the look-up left them. -/
  others : ∀ q, q ≠ place →
    (data op site args s).1.world.variableAt? q = (found op site s).1.variableAt? q

theorem modifyItems_of_items? {v : Variable} {xs : List Value} (hxs : v.items? = some xs)
    (f : List Value → List Value) : v.modifyItems f = { v with content := .list (f xs) } := by
  obtain ⟨id, name, content, cloud⟩ := v
  cases content with
  | scalar x => cases hxs
  | list items =>
    cases hxs
    rfl

/-- **Lists stay within their bounds.** Take a block for lists, the list that it finds or creates,
and any arguments. Below `2 ^ 53 - 1` items, every position that its index can name is in the list,
or at most one behind it for an insertion, and what the block deletes, inserts, replaces and reads
is at that place. An index outside the list changes nothing, the list does not grow beyond the
limit, and below the limit a deletion at the index of an insertion gives the list back. -/
theorem bounded_of_data (hop : op.subject.2 = .list) (site : Site) (args : Args) (s : Scene σ)
    (hplace : (found op site s).2 = some place) {v : Variable} {xs : List Value}
    (hv : (found op site s).1.variableAt? place = some v) (hxs : v.items? = some xs)
    (hlen : xs.length < Nat.pow 2 53 - 1) : Bounded op site args s place v xs := by
  have hlen' : xs.length + 1 < Nat.pow 2 53 := Nat.add_lt_of_lt_sub hlen
  have hdata := variableAt?_data hop site args s hplace
  have hafter : (data op site args s).1.world.variableAt? place = some { v with
      content := .list (edited op (args.value "INDEX") (args.value "ITEM") (draw s).2 xs) } := by
    rw [hdata, if_pos rfl, hv, Option.map_some, modifyItems_of_items? hxs]
  have hedits : Edits (args.value "INDEX") (args.value "ITEM") (draw s).2 op xs
      (edited op (args.value "INDEX") (args.value "ITEM") (draw s).2 xs) :=
    edits_edited hop hlen'
  have hself : { v with content := .list xs } = v := by
    rw [← modifyItems_of_items? hxs fun xs => xs, modifyItems_id]
  constructor
  · intro index length acceptAll n i hlength h
    exact Value.position_bounds (Nat.lt_of_le_of_lt hlength hlen') h
  · exact ⟨_, hafter, hedits⟩
  · rintro rfl
    rw [snd_data_itemOfList site args s hplace hv hxs]
    rcases itemAt_cases (Nat.lt_of_succ_lt hlen') with ⟨before, x, after, hsplit, hi, hx⟩ | ⟨hi, hx⟩
    · exact .inl ⟨before, x, after, hsplit, hi, by rw [hx]⟩
    · exact .inr ⟨hi, by rw [hx]⟩
  · intro v' ys hv' hys
    rw [hafter] at hv'
    cases hv'
    cases hys
    exact hedits.length_le
  · intro hinvalid
    rw [hafter, hedits.eq_of_invalid hinvalid, hself]
  · rintro rfl hindex hroom site' args' s' hargs hplace' hsame
    rw [variableAt?_data rfl site' args' s' hplace', if_pos rfl, hsame, hafter, Option.map_some,
      modifyItems_of_items? rfl, hargs]
    simp only [edited, deleteItem_insertItem hindex hroom]
    rw [hself]
  · intro q hq
    rw [hdata, if_neg hq]

/-- A program with one block for the list of an errand. -/
def larder (op : DataOp) : Graph :=
  (Graph.empty.create { Block.detached "block" (.data op) with
    fields := .ofList [("LIST", ⟨"items", some "a"⟩)] }).1

/-- That block, when it is run. -/
def shelf (op : DataOp) : Site := ⟨.create Settings.standard, larder op, ⟨0, 0⟩, 0⟩

/-- The world in which the errand has been loaded, and a thread of its sprite. -/
def kitchen : Scene Unit :=
  ⟨((World.blank Settings.standard ()).load World.errand).1, .start 1 0 ⟨0, 0⟩⟩

/-- Put eggs at the second place. -/
def eggs : Args := ⟨[("INDEX", .text "2"), ("ITEM", .text "eggs")]⟩

/-- Eggs are put in before the second item, and deleting the second item gives the list back. -/
theorem bounded_of_data_errand :
    (found .insertAtList (shelf .insertAtList) kitchen).2 = some (0, "a") ∧
      (found .insertAtList (shelf .insertAtList) kitchen).1.variableAt? (0, "a") =
        some ⟨"a", "items", .list [.text "milk", .number 2.0], false⟩ ∧
      [Value.text "milk", Value.number 2.0].length < Nat.pow 2 53 - 1 ∧
      (data .insertAtList (shelf .insertAtList) eggs kitchen).1.world.variableAt? (0, "a") =
        some ⟨"a", "items", .list [.text "milk", .text "eggs", .number 2.0], false⟩ ∧
      (data .deleteOfList (shelf .deleteOfList) eggs
        (data .insertAtList (shelf .insertAtList) eggs kitchen).1).1.world.variableAt? (0, "a") =
          some ⟨"a", "items", .list [.text "milk", .number 2.0], false⟩ := by
  have hplace : (found .insertAtList (shelf .insertAtList) kitchen).2 = some (0, "a") := by
    decide +kernel
  have hv : (found .insertAtList (shelf .insertAtList) kitchen).1.variableAt? (0, "a") =
      some ⟨"a", "items", .list [.text "milk", .number 2.0], false⟩ := by
    decide +kernel
  have hlen : [Value.text "milk", Value.number 2.0].length < Nat.pow 2 53 - 1 := by decide
  have hbounded := bounded_of_data rfl (shelf .insertAtList) eggs kitchen hplace hv rfl hlen
  have hafter : (data .insertAtList (shelf .insertAtList) eggs kitchen).1.world.variableAt?
      (0, "a") = some ⟨"a", "items", .list [.text "milk", .text "eggs", .number 2.0], false⟩ := by
    decide +kernel
  have hplace' : (found .deleteOfList (shelf .deleteOfList)
      (data .insertAtList (shelf .insertAtList) eggs kitchen).1).2 = some (0, "a") := by
    decide +kernel
  have hsame : (found .deleteOfList (shelf .deleteOfList)
      (data .insertAtList (shelf .insertAtList) eggs kitchen).1).1.variableAt? (0, "a") =
        (data .insertAtList (shelf .insertAtList) eggs kitchen).1.world.variableAt? (0, "a") := by
    rw [hafter]
    decide +kernel
  exact ⟨hplace, hv, hlen, hafter,
    hbounded.restored rfl (by decide) (by decide) _ eggs _ rfl hplace' hsame⟩

end Primitive

end Stagecraft
