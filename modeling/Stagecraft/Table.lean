/-!
# Ordered tables

A `Table` maps keys to values and remembers the order in which the keys first came. Writing to a
key that is present keeps its place, a new key goes to the end, and erasing a key closes the gap.
Whatever the library shows in some order (blocks, inputs, fields, variables, actors) is a table,
so the order is part of the data. That no key has two rows is part of the type.

* `Table.get?_eq_some_iff`: a look-up finds exactly what is in the rows;
* `Table.get?_insert_self`, `Table.get?_insert_of_ne`: what a write does to look-ups;
* `Table.get?_modify`: so does a change in place;
* `Table.get?_erase_self`, `Table.get?_erase_of_ne`: what an erasure does to look-ups;
* `Table.keys_insert`: what a write does to the order;
* `Table.entries_insert_perm`: a write is an erasure and a new row, up to order;
* `Table.entries_ofList`: rows with keys of their own are written as they are.
-/

namespace Stagecraft

/-- A table of values by key, in the order in which the keys first came. -/
structure Table (κ : Type) (α : Type) where
  /-- The rows, oldest key first. -/
  entries : List (κ × α)
  /-- No key has two rows. -/
  nodup : (entries.map (·.1)).Nodup
deriving DecidableEq

namespace Table

variable {κ α β : Type} [DecidableEq κ]

/-- The table without rows. -/
def empty : Table κ α := ⟨[], .nil⟩

instance : Inhabited (Table κ α) := ⟨empty⟩

/-- The value under a key. -/
def get? (t : Table κ α) (k : κ) : Option α :=
  (t.entries.find? fun e => e.1 = k).map (·.2)

/-- Whether a key is present. -/
def contains (t : Table κ α) (k : κ) : Bool := t.entries.any fun e => e.1 = k

/-- Write one row into a list of rows: in place if the key is there, else at the end. -/
def insertRow (k : κ) (v : α) : List (κ × α) → List (κ × α)
  | [] => [(k, v)]
  | (k', v') :: rest => if k' = k then (k', v) :: rest else (k', v') :: insertRow k v rest

theorem map_fst_insertRow (k : κ) (v : α) (l : List (κ × α)) :
    (insertRow k v l).map (·.1) =
      if k ∈ l.map (·.1) then l.map (·.1) else l.map (·.1) ++ [k] := by
  induction l with
  | nil => simp [insertRow]
  | cons e r ih =>
    obtain ⟨k', v'⟩ := e
    by_cases h : k' = k
    · simp [insertRow, h]
    · by_cases hm : k ∈ r.map (·.1)
      · simp [insertRow, h, ih, hm]
      · simp [insertRow, h, Ne.symm h, ih, hm]

theorem nodup_insertRow (k : κ) (v : α) {l : List (κ × α)} (hl : (l.map (·.1)).Nodup) :
    ((insertRow k v l).map (·.1)).Nodup := by
  rw [map_fst_insertRow]
  split
  · exact hl
  · rename_i hk
    refine List.pairwise_append.2 ⟨hl, List.pairwise_singleton _ _, fun a ha b hb => ?_⟩
    rw [List.mem_singleton.1 hb]
    exact fun h => hk (h ▸ ha)

/-- Write a value under a key. -/
def insert (t : Table κ α) (k : κ) (v : α) : Table κ α :=
  ⟨insertRow k v t.entries, nodup_insertRow k v t.nodup⟩

omit [DecidableEq κ] in
/-- Keep the rows that satisfy a test. -/
def filter (t : Table κ α) (p : κ → α → Bool) : Table κ α :=
  ⟨t.entries.filter fun e => p e.1 e.2, t.nodup.sublist (List.filter_sublist.map _)⟩

/-- Remove a key, closing the gap. -/
def erase (t : Table κ α) (k : κ) : Table κ α := t.filter fun k' _ => k' ≠ k

/-- Change the value under a key, if it is present. -/
def modify (t : Table κ α) (k : κ) (f : α → α) : Table κ α where
  entries := t.entries.map fun e => if e.1 = k then (e.1, f e.2) else e
  nodup := by
    have h : (Prod.fst ∘ fun e : κ × α => if e.1 = k then (e.1, f e.2) else e) = Prod.fst := by
      funext e
      by_cases he : e.1 = k <;> simp [he]
    simpa [h] using t.nodup

omit [DecidableEq κ] in
/-- The keys, oldest first. -/
def keys (t : Table κ α) : List κ := t.entries.map (·.1)

omit [DecidableEq κ] in
/-- The values in the order of their keys. -/
def values (t : Table κ α) : List α := t.entries.map (·.2)

omit [DecidableEq κ] in
/-- The number of rows. -/
def size (t : Table κ α) : Nat := t.entries.length

omit [DecidableEq κ] in
/-- Change every value. -/
def mapValues (t : Table κ α) (f : α → β) : Table κ β :=
  ⟨t.entries.map fun e => (e.1, f e.2), by simpa [Function.comp_def] using t.nodup⟩

omit [DecidableEq κ] in
theorem map_fst_pick (f : α → Option β) (l : List (κ × α)) :
    ((l.filterMap fun e => (f e.2).map fun v => (e.1, v)).map (·.1)).Sublist (l.map (·.1)) := by
  induction l with
  | nil => exact .slnil
  | cons e r ih =>
    cases h : f e.2 with
    | none => simpa [h] using ih.cons e.1
    | some v => simpa [h] using ih.cons_cons e.1

omit [DecidableEq κ] in
/-- Change every value and drop the rows that get none. -/
def pick (t : Table κ α) (f : α → Option β) : Table κ β :=
  ⟨t.entries.filterMap fun e => (f e.2).map fun v => (e.1, v),
    t.nodup.sublist (map_fst_pick f t.entries)⟩

/-- Write rows one after the other: a repeated key keeps its first place and its last value. -/
def ofList (rows : List (κ × α)) : Table κ α := rows.foldl (fun t e => t.insert e.1 e.2) empty

/-! ### Look-ups -/

theorem find?_eq_some_iff {l : List (κ × α)} (hl : (l.map (·.1)).Nodup) (k : κ) (v : α) :
    (l.find? fun e => e.1 = k).map (·.2) = some v ↔ (k, v) ∈ l := by
  induction l with
  | nil => simp
  | cons e r ih =>
    obtain ⟨k', v'⟩ := e
    rw [List.map_cons, List.nodup_cons] at hl
    by_cases h : k' = k
    · subst h
      have hv : (k', v) ∉ r := fun hm => hl.1 (List.mem_map.2 ⟨_, hm, rfl⟩)
      simp [hv, eq_comm]
    · simpa [h, Ne.symm h] using ih hl.2

/-- A look-up finds exactly what is in the rows. -/
theorem get?_eq_some_iff (t : Table κ α) (k : κ) (v : α) :
    t.get? k = some v ↔ (k, v) ∈ t.entries :=
  find?_eq_some_iff t.nodup k v

@[simp] theorem get?_empty (k : κ) : (empty : Table κ α).get? k = none := rfl

/-! ### Look-ups after a write -/

theorem find?_insertRow_self (k : κ) (v : α) (l : List (κ × α)) :
    ((insertRow k v l).find? fun e => e.1 = k).map (·.2) = some v := by
  induction l with
  | nil => simp [insertRow]
  | cons e r ih =>
    obtain ⟨k', v'⟩ := e
    by_cases h : k' = k
    · simp [insertRow, h]
    · simpa [insertRow, h] using ih

theorem find?_insertRow_of_ne {k k' : κ} (h : k' ≠ k) (v : α) (l : List (κ × α)) :
    ((insertRow k v l).find? fun e => e.1 = k').map (·.2) =
      (l.find? fun e => e.1 = k').map (·.2) := by
  induction l with
  | nil => simp [insertRow, Ne.symm h]
  | cons e r ih =>
    obtain ⟨a, b⟩ := e
    by_cases ha : a = k
    · subst ha
      simp [insertRow, Ne.symm h]
    · by_cases hb : a = k'
      · subst hb
        simp [insertRow, ha]
      · simpa [insertRow, ha, hb] using ih

/-- A new row is the first with a property that no other row has. -/
theorem find?_insertRow_new {p : κ × α → Bool} {k : κ} {v : α}
    (hp : p (k, v) = true) (l : List (κ × α)) (hl : l.find? p = none) :
    (insertRow k v l).find? p = some (k, v) := by
  induction l with
  | nil => simp [insertRow, hp]
  | cons e rest ih =>
    obtain ⟨k', v'⟩ := e
    rw [List.find?_cons] at hl
    split at hl
    · cases hl
    · rename_i hne
      rw [insertRow]
      split
      · rename_i hk
        subst hk
        rw [List.find?_cons_of_pos hp]
      · rw [List.find?_cons_of_neg (by simp [hne]), ih hl]

@[simp] theorem get?_insert_self (t : Table κ α) (k : κ) (v : α) :
    (t.insert k v).get? k = some v :=
  find?_insertRow_self k v t.entries

theorem get?_insert_of_ne (t : Table κ α) {k k' : κ} (h : k' ≠ k) (v : α) :
    (t.insert k v).get? k' = t.get? k' :=
  find?_insertRow_of_ne h v t.entries

theorem get?_filter (t : Table κ α) (p : κ → α → Bool) (k : κ) :
    (t.filter p).get? k = (t.get? k).filter (p k) := by
  apply Option.ext
  intro v
  rw [get?_eq_some_iff, Option.filter_eq_some_iff, get?_eq_some_iff]
  exact List.mem_filter

@[simp] theorem get?_erase_self (t : Table κ α) (k : κ) : (t.erase k).get? k = none := by
  simp [erase, get?_filter]

theorem get?_erase_of_ne (t : Table κ α) {k k' : κ} (h : k' ≠ k) :
    (t.erase k).get? k' = t.get? k' := by
  rw [erase, get?_filter]
  cases t.get? k' <;> simp [h]

theorem find?_map_modify (k k' : κ) (f : α → α) (l : List (κ × α)) :
    ((l.map fun e => if e.1 = k then (e.1, f e.2) else e).find? fun e => e.1 = k').map (·.2) =
      if k' = k then ((l.find? fun e => e.1 = k').map (·.2)).map f
      else (l.find? fun e => e.1 = k').map (·.2) := by
  induction l with
  | nil => simp
  | cons e r ih =>
    obtain ⟨a, b⟩ := e
    by_cases ha : a = k'
    · subst ha
      by_cases hk : a = k <;> simp [hk]
    · by_cases hk : a = k
      · subst hk
        simpa [ha] using ih
      · simpa [hk, ha] using ih

theorem get?_modify (t : Table κ α) (k k' : κ) (f : α → α) :
    (t.modify k f).get? k' = if k' = k then (t.get? k').map f else t.get? k' :=
  find?_map_modify k k' f t.entries

theorem mem_keys_iff (t : Table κ α) (k : κ) : k ∈ t.keys ↔ (t.get? k).isSome = true := by
  rw [Option.isSome_iff_exists, keys, List.mem_map]
  constructor
  · rintro ⟨⟨_, v⟩, hv, rfl⟩
    exact ⟨v, (get?_eq_some_iff t _ v).2 hv⟩
  · rintro ⟨v, hv⟩
    exact ⟨(k, v), (get?_eq_some_iff t k v).1 hv, rfl⟩

omit [DecidableEq κ] in
theorem entries_pick (t : Table κ α) (f : α → Option β) :
    (t.pick f).entries = t.entries.filterMap fun e => (f e.2).map fun v => (e.1, v) := rfl

theorem get?_pick (t : Table κ α) (f : α → Option β) (k : κ) :
    (t.pick f).get? k = (t.get? k).bind f := by
  apply Option.ext
  intro v
  rw [get?_eq_some_iff, pick, List.mem_filterMap, Option.bind_eq_some_iff]
  constructor
  · rintro ⟨⟨k', u⟩, hu, hv⟩
    obtain ⟨v', hf, he⟩ := Option.map_eq_some_iff.1 hv
    cases he
    exact ⟨u, (get?_eq_some_iff t _ u).2 hu, hf⟩
  · rintro ⟨u, hu, hf⟩
    exact ⟨(k, u), (get?_eq_some_iff t k u).1 hu, by rw [hf]; rfl⟩

/-! ### Rows after a write -/

/-- A present key keeps its place and a new key goes to the end. -/
theorem keys_insert (t : Table κ α) (k : κ) (v : α) :
    (t.insert k v).keys = if k ∈ t.keys then t.keys else t.keys ++ [k] :=
  map_fst_insertRow k v t.entries

theorem insertRow_perm (k : κ) (v : α) {l : List (κ × α)} (hl : (l.map (·.1)).Nodup) :
    (insertRow k v l).Perm ((k, v) :: l.filter fun e => e.1 ≠ k) := by
  induction l with
  | nil => exact .refl _
  | cons e r ih =>
    obtain ⟨k', v'⟩ := e
    rw [List.map_cons, List.nodup_cons] at hl
    by_cases h : k' = k
    · subst h
      have hr : (r.filter fun e => e.1 ≠ k') = r := by
        refine List.filter_eq_self.2 fun e he => ?_
        have : e.1 ≠ k' := fun hk => hl.1 (List.mem_map.2 ⟨e, he, hk⟩)
        simpa using this
      rw [insertRow, if_pos rfl, List.filter_cons_of_neg (by simp), hr]
    · rw [insertRow, if_neg h, List.filter_cons_of_pos (by simpa using h)]
      exact ((ih hl.2).cons _).trans (.swap _ _ _)

/-- Up to order, a write erases the key and adds a row. -/
theorem entries_insert_perm (t : Table κ α) (k : κ) (v : α) :
    (t.insert k v).entries.Perm ((k, v) :: (t.erase k).entries) :=
  insertRow_perm k v t.nodup

/-! ### Rows one after the other -/

omit [DecidableEq κ] in
theorem eq_of_entries {t t' : Table κ α} (h : t.entries = t'.entries) : t = t' := by
  cases t
  cases t'
  cases h
  rfl

theorem insertRow_of_notMem {k : κ} (v : α) {l : List (κ × α)} (hk : k ∉ l.map (·.1)) :
    insertRow k v l = l ++ [(k, v)] := by
  induction l with
  | nil => rfl
  | cons e r ih =>
    obtain ⟨k', v'⟩ := e
    rw [List.map_cons, List.mem_cons, not_or] at hk
    rw [insertRow, if_neg (Ne.symm hk.1), ih hk.2, List.cons_append]

/-- A new row that is changed at once. -/
theorem entries_insert_modify (t : Table κ α) {k : κ} (v : α)
    (f : α → α) (hk : k ∉ t.keys) :
    ((t.insert k v).modify k f).entries = t.entries ++ [(k, f v)] := by
  have hinsert : (t.insert k v).entries = t.entries ++ [(k, v)] := insertRow_of_notMem v hk
  have hold : t.entries.map (fun e => if e.1 = k then (e.1, f e.2) else e) = t.entries := by
    refine (List.map_congr_left fun e he => if_neg ?_).trans t.entries.map_id
    rintro rfl
    exact hk (List.mem_map.2 ⟨e, he, rfl⟩)
  have hmodify : ((t.insert k v).modify k f).entries =
      (t.insert k v).entries.map fun e => if e.1 = k then (e.1, f e.2) else e := rfl
  rw [hmodify, hinsert, List.map_append, hold]
  simp

theorem entries_foldl_insert (rows : List (κ × α)) :
    ∀ t : Table κ α, ((t.entries ++ rows).map (·.1)).Nodup →
      (rows.foldl (fun t e => t.insert e.1 e.2) t).entries = t.entries ++ rows := by
  induction rows with
  | nil => exact fun t _ => (List.append_nil _).symm
  | cons e rest ih =>
    intro t hnodup
    have hk : e.1 ∉ t.entries.map (·.1) := by
      rw [List.map_append, List.map_cons] at hnodup
      exact fun hmem => (List.nodup_append.1 hnodup).2.2 _ hmem _ List.mem_cons_self rfl
    have hinsert : (t.insert e.1 e.2).entries = t.entries ++ [e] := insertRow_of_notMem e.2 hk
    rw [List.foldl_cons, ih, hinsert, List.append_assoc]
    · rfl
    · rw [hinsert, List.append_assoc]
      exact hnodup

/-- Look-ups after rows with keys of their own were written. -/
theorem get?_foldl_insert (k : κ) (rows : List (κ × α)) :
    ∀ t : Table κ α, (rows.map (·.1)).Nodup →
      (rows.foldl (fun t e => t.insert e.1 e.2) t).get? k =
        ((rows.find? fun e => e.1 = k).map (·.2)).or (t.get? k) := by
  induction rows with
  | nil => exact fun _ _ => rfl
  | cons e rest ih =>
    intro t hnodup
    obtain ⟨hk, hrest⟩ := List.nodup_cons.1 hnodup
    rw [List.foldl_cons, ih _ hrest]
    by_cases h : e.1 = k
    · subst h
      have hnone : (rest.find? fun e' => e'.1 = e.1) = none := by
        rw [List.find?_eq_none]
        intro e' he' hkey
        exact hk (List.mem_map.2 ⟨e', he', by simpa using hkey⟩)
      simp [hnone]
    · rw [get?_insert_of_ne _ (Ne.symm h), List.find?_cons_of_neg (by simpa using h)]

/-- Rows with keys of their own are written as they are. -/
theorem entries_ofList {rows : List (κ × α)} (h : (rows.map (·.1)).Nodup) :
    (ofList rows).entries = rows :=
  entries_foldl_insert rows empty h

/-- Writing the rows of a table again gives the table back. -/
theorem ofList_entries (t : Table κ α) : ofList t.entries = t :=
  eq_of_entries (entries_ofList t.nodup)

end Table

end Stagecraft
