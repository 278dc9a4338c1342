import Stagecraft.Proofs.Cast.Identity

/-!
# Looking variables up

A look-up finds a variable by its id or its name, on the actor or the stage, and creates one on the
actor if there is none. The new variable stands under the id of the field, or under the name if the
field has no id. Nothing else changes. What the actor has under that id already is replaced, though:
a variable of the other kind, or one that is called something else.

* `World.OnlyAt` : two worlds that differ in the variable at one place at most;
* `World.locate?_created` : what was created is found again;
* `World.spared_iff` : when a look-up replaces nothing;
* `Primitive.writesAt_data` : a primitive looks its variable up and writes that one alone;
* `World.frame_of_lookup` : **what looking a variable up does and what it leaves alone**.
-/

namespace Stagecraft

theorem Variable.kind_ofKind (kind : VariableKind) (id name : String) :
    (Variable.ofKind kind id name).kind = kind := by
  cases kind <;> rfl

theorem Variable.id_ofKind (kind : VariableKind) (id name : String) :
    (Variable.ofKind kind id name).id = id := by
  cases kind <;> rfl

theorem Variable.name_ofKind (kind : VariableKind) (id name : String) :
    (Variable.ofKind kind id name).name = name := by
  cases kind <;> rfl

namespace World

variable {σ : Type} {w w' : World σ}

/-! ### Places -/

theorem actor?_modifyActor (w : World σ) (id id' : ActorId) (f : Actor → Actor) :
    (w.modifyActor id f).actor? id' = if id' = id then (w.actor? id').map f else w.actor? id' :=
  Table.get?_modify _ _ _ _

/-- Two worlds that differ in the variable at one place at most. -/
structure OnlyAt (place : ActorId × String) (w w' : World σ) : Prop where
  rest : w' = { w with actors := w'.actors }
  keys : w'.actors.keys = w.actors.keys
  actor : ∀ id, (w'.actor? id).map (fun a => { a with vars := .empty }) =
    (w.actor? id).map fun a => { a with vars := .empty }
  vars : ∀ q, q ≠ place → w'.variableAt? q = w.variableAt? q

theorem OnlyAt.refl (place : ActorId × String) (w : World σ) : OnlyAt place w w :=
  ⟨rfl, rfl, fun _ => rfl, fun _ _ => rfl⟩

theorem variableAt?_insertVariable {actor : ActorId} {a : Actor} (ha : w.actor? actor = some a)
    (v : Variable) (q : ActorId × String) :
    (w.modifyActor actor (·.insertVariable v)).variableAt? q =
      if q = (actor, v.id) then some v else w.variableAt? q := by
  obtain ⟨owner, key⟩ := q
  rw [variableAt?, actor?_modifyActor]
  by_cases howner : owner = actor
  · subst howner
    simp only [if_true, ha, Option.map_some, Option.bind_some, variableAt?, Actor.insertVariable]
    by_cases hkey : key = v.id
    · subst hkey
      simp
    · rw [Table.get?_insert_of_ne _ hkey, if_neg (by simp [hkey])]
  · rw [if_neg howner, if_neg (by simp [howner]), variableAt?]

theorem onlyAt_insertVariable {actor : ActorId} {a : Actor} (ha : w.actor? actor = some a)
    (v : Variable) : OnlyAt (actor, v.id) w (w.modifyActor actor (·.insertVariable v)) where
  rest := rfl
  keys := by
    rw [modifyActor, Table.keys, Table.modify, Table.keys, List.map_map]
    refine List.map_congr_left fun e _ => ?_
    simp only [Function.comp_apply]
    split <;> rfl
  actor id := by
    rw [actor?_modifyActor]
    split
    · rw [Option.map_map]
      rfl
    · rfl
  vars q hq := by rw [variableAt?_insertVariable ha, if_neg hq]

/-! ### Finding -/

variable {actor : ActorId} {id : Option String} {name : String} {kind : VariableKind}

/-- The three ways of a look-up. -/
theorem lookupVariable_cases (w : World σ) (actor : ActorId) (id : Option String) (name : String)
    (kind : VariableKind) :
    (∃ place, w.lookupVariable actor id name kind = (w, some place) ∧
      w.locate? actor id name kind = some place) ∨
    (w.lookupVariable actor id name kind = (w, none) ∧ w.locate? actor id name kind = none ∧
      w.actor? actor = none) ∨
    ∃ a, w.lookupVariable actor id name kind =
        (w.modifyActor actor (·.insertVariable (.ofKind kind (id.getD name) name)),
          some (actor, id.getD name)) ∧
      w.locate? actor id name kind = none ∧ w.actor? actor = some a := by
  unfold lookupVariable
  cases hfound : w.locate? actor id name kind with
  | some place => exact .inl ⟨place, rfl, rfl⟩
  | none =>
    cases ha : w.actor? actor with
    | none => exact .inr (.inl ⟨rfl, rfl, rfl⟩)
    | some a => exact .inr (.inr ⟨a, rfl, rfl, rfl⟩)

/-- Whatever leaves the cast alone leaves look-ups alone. -/
theorem lookupVariable_of_sameCast (h : SameCast w w') (actor : ActorId) (id : Option String)
    (name : String) (kind : VariableKind) :
    (w'.lookupVariable actor id name kind).1.actors =
        (w.lookupVariable actor id name kind).1.actors ∧
      (w'.lookupVariable actor id name kind).2 = (w.lookupVariable actor id name kind).2 := by
  have hactor : w'.actor? = w.actor? := by
    funext id
    rw [actor?, h.actors, actor?]
  have hlocate : w'.locate? actor id name kind = w.locate? actor id name kind := by
    simp only [locate?, scopes, hactor, h.stage]
  unfold lookupVariable
  rw [hlocate, hactor]
  cases w.locate? actor id name kind with
  | some place => exact ⟨h.actors, rfl⟩
  | none =>
    cases w.actor? actor with
    | none => exact ⟨h.actors, rfl⟩
    | some a => exact ⟨by simp only [modifyActor, h.actors], rfl⟩

/-- The actor itself is looked at first. -/
theorem scopes_of_actor? {a : Actor} (ha : w.actor? actor = some a) :
    w.scopes actor = a :: w.stage.toList.filterMap w.actor? := by
  unfold scopes
  cases w.stage <;> simp [ha]

/-- A variable of the actor is found by its id and kind. -/
theorem locate?_of_findById? {a : Actor} (ha : w.actor? actor = some a) {key : String}
    (h : a.findById? key kind = some key) :
    w.locate? actor (some key) name kind = some (a.id, key) := by
  simp only [locate?, scopes_of_actor? ha, Option.bind_some, List.findSome?_cons, h,
    Option.map_some]

/-- A variable of the actor is found by its name and kind, if no id is given. -/
theorem locate?_of_findByName? {a : Actor} (ha : w.actor? actor = some a) {key : String}
    (h : a.findByName? name kind = some key) :
    w.locate? actor none name kind = some (a.id, key) := by
  simp only [locate?, scopes_of_actor? ha, Option.bind_none, List.findSome?_cons, h,
    Option.map_some]

/-- Nothing of the name and kind is on the actor if nothing was found without an id. -/
theorem findByName?_of_locate? {a : Actor} (ha : w.actor? actor = some a)
    (h : w.locate? actor none name kind = none) : a.findByName? name kind = none := by
  cases hkey : a.findByName? name kind with
  | none => rfl
  | some key =>
    rw [locate?_of_findByName? ha hkey] at h
    cases h

/-- **What was created is found again**, by its id or else by its name. -/
theorem locate?_created (hw : w.Identified) {a : Actor} (ha : w.actor? actor = some a)
    (hnone : w.locate? actor id name kind = none) :
    (w.modifyActor actor (·.insertVariable (.ofKind kind (id.getD name) name))).locate? actor id
      name kind = some (actor, id.getD name) := by
  have ha' : (w.modifyActor actor
      (·.insertVariable (.ofKind kind (id.getD name) name))).actor? actor =
        some (a.insertVariable (.ofKind kind (id.getD name) name)) := by
    rw [actor?_modifyActor, if_pos rfl, ha, Option.map_some]
  have hid : (a.insertVariable (.ofKind kind (id.getD name) name)).id = actor := by
    rw [← hw.actor? ha]
    rfl
  cases id with
  | some key =>
    rw [locate?_of_findById? ha', hid]
    · rfl
    · rw [Actor.findById?, Actor.insertVariable, Option.getD_some, Variable.id_ofKind,
        Table.get?_insert_self]
      simp [Variable.kind_ofKind]
  | none =>
    rw [locate?_of_findByName? ha', hid]
    have hfind := Option.map_eq_none_iff.1 (findByName?_of_locate? ha hnone)
    rw [Option.getD_none, Actor.findByName?, Actor.insertVariable, Variable.id_ofKind, Table.insert,
      Table.find?_insertRow_new _ _ hfind]
    · rfl
    · simp [Variable.kind_ofKind, Variable.name_ofKind]

/-- What one of the actors in scope has is at the place that is given for it. -/
theorem variableAt?_of_scopes (hw : w.Identified) (find : Actor → Option String)
    (hfind : ∀ a key, find a = some key → ∃ v, a.vars.get? key = some v ∧ v.kind = kind)
    {place : ActorId × String}
    (h : (w.scopes actor).findSome? (fun a => (find a).map fun k => (a.id, k)) = some place) :
    ∃ v, w.variableAt? place = some v ∧ v.kind = kind := by
  obtain ⟨a, ha, hkey⟩ := List.exists_of_findSome?_eq_some h
  obtain ⟨key, hk, rfl⟩ := Option.map_eq_some_iff.1 hkey
  obtain ⟨i, -, hi⟩ := List.mem_filterMap.1 ha
  obtain ⟨v, hv, hkind⟩ := hfind a key hk
  refine ⟨v, ?_, hkind⟩
  rw [variableAt?, hw.actor? hi, hi, Option.bind_some, hv]

/-- What is found is there, and it is of the right kind. -/
theorem variableAt?_of_locate? (hw : w.Identified) {place : ActorId × String}
    (h : w.locate? actor id name kind = some place) :
    ∃ v, w.variableAt? place = some v ∧ v.kind = kind := by
  unfold locate? at h
  simp only at h
  split at h
  · rename_i hbyId
    cases h
    obtain ⟨key, -, hsome⟩ := Option.bind_eq_some_iff.1 hbyId
    refine variableAt?_of_scopes hw (·.findById? key kind) (fun a k hk => ?_) hsome
    unfold Actor.findById? at hk
    split at hk
    · rename_i v hv
      split at hk
      · rename_i hkind
        cases hk
        exact ⟨v, hv, hkind⟩
      · cases hk
    · cases hk
  · refine variableAt?_of_scopes hw (·.findByName? name kind) (fun a k hk => ?_) h
    obtain ⟨⟨k', v⟩, hfirst, rfl⟩ := Option.map_eq_some_iff.1 hk
    have hnamed := List.find?_some hfirst
    simp only [Bool.and_eq_true, decide_eq_true_eq] at hnamed
    exact ⟨v, (Table.get?_eq_some_iff _ _ _).2 (List.mem_of_find?_eq_some hfirst), hnamed.2⟩

/-- A variable of the name and kind that stands where a new one would is found. -/
theorem locate?_of_variableAt? {v : Variable} (hv : w.variableAt? (actor, id.getD name) = some v)
    (hname : v.name = name) (hkind : v.kind = kind) : w.locate? actor id name kind ≠ none := by
  obtain ⟨a, ha, hget⟩ := Option.bind_eq_some_iff.1 hv
  cases id with
  | some key =>
    rw [locate?_of_findById? ha]
    · exact Option.some_ne_none _
    · rw [Option.getD_some] at hget
      rw [Actor.findById?, hget]
      exact if_pos hkind
  | none =>
    intro h
    have hfind := Option.map_eq_none_iff.1 (findByName?_of_locate? ha h)
    have hno := List.find?_eq_none.1 hfind _ ((Table.get?_eq_some_iff _ _ _).1 hget)
    simp [hname, hkind] at hno

/-- A variable that was looked up is there, and of the right kind. -/
theorem variableAt?_of_lookup (hw : w.Identified) {place : ActorId × String}
    (h : (w.lookupVariable actor id name kind).2 = some place) :
    ∃ v, (w.lookupVariable actor id name kind).1.variableAt? place = some v ∧ v.kind = kind := by
  rcases w.lookupVariable_cases actor id name kind with
    ⟨found, he, hfound⟩ | ⟨he, -, -⟩ | ⟨a, he, -, ha⟩
  · rw [he] at h ⊢
    cases h
    exact variableAt?_of_locate? hw hfound
  · rw [he] at h
    cases h
  · rw [he] at h ⊢
    cases h
    refine ⟨_, ?_, Variable.kind_ofKind kind (id.getD name) name⟩
    rw [variableAt?_insertVariable ha, Variable.id_ofKind, if_pos rfl]

/-- Changing a variable changes the one at its place. -/
theorem variableAt?_modifyVariable (w : World σ) (place : ActorId × String)
    (f : Variable → Variable) (q : ActorId × String) :
    (w.modifyVariable place f).variableAt? q =
      if q = place then (w.variableAt? q).map f else w.variableAt? q := by
  obtain ⟨owner, key⟩ := q
  rw [variableAt?, modifyVariable, actor?_modifyActor, variableAt?]
  by_cases howner : owner = place.1
  · subst howner
    cases w.actor? place.1 with
    | none => simp
    | some a =>
      by_cases hkey : key = place.2 <;> simp [Table.get?_modify, hkey, Prod.ext_iff]
  · rw [if_neg howner, if_neg fun h => howner (congrArg Prod.fst h)]

/-! ### What is lost -/

/-- **When a look-up replaces nothing**: the variable is found, or nothing stands where a new one is
put. -/
theorem spared_iff (w : World σ) (actor : ActorId) (id : Option String) (name : String)
    (kind : VariableKind) :
    (∀ q v, w.variableAt? q = some v →
      (w.lookupVariable actor id name kind).1.variableAt? q = some v) ↔
    (w.locate? actor id name kind = none → w.variableAt? (actor, id.getD name) = none) := by
  rcases w.lookupVariable_cases actor id name kind with
    ⟨place, he, hfound⟩ | ⟨he, hnone, ha⟩ | ⟨a, he, hnone, ha⟩
  · rw [he, hfound]
    exact ⟨fun _ h => absurd h (Option.some_ne_none place), fun _ _ _ h => h⟩
  · rw [he]
    refine ⟨fun _ _ => ?_, fun _ _ _ h => h⟩
    rw [variableAt?, ha, Option.bind_none]
  · rw [he]
    simp only [variableAt?_insertVariable ha, Variable.id_ofKind]
    constructor
    · intro hspared _
      cases hv : w.variableAt? (actor, id.getD name) with
      | none => rfl
      | some v =>
        -- a variable that was spared is the new one, so it would have been found
        have hnew := hspared _ v hv
        rw [if_pos rfl, Option.some.injEq] at hnew
        subst hnew
        exact absurd hnone (locate?_of_variableAt? hv (Variable.name_ofKind _ _ _)
          (Variable.kind_ofKind _ _ _))
    · intro hfree q v hv
      rw [if_neg, hv]
      rintro rfl
      rw [hfree hnone] at hv
      cases hv

/-- The world and the place after a look-up, with what was then written. -/
def WritesAt (r : World σ × Option (ActorId × String)) (w' : World σ) : Prop :=
  w'.actors = r.1.actors ∨ ∃ place f, r.2 = some place ∧ (∀ v : Variable, v.Rewritten (f v)) ∧
    w'.actors = (r.1.modifyVariable place f).actors

end World

/-! ### Primitives -/

/-- The field and the kind of the variable that a primitive looks up. -/
def DataOp.subject : DataOp → String × VariableKind
  | .variable | .setVariable | .changeVariable => ("VARIABLE", .scalar)
  | _ => ("LIST", .list)

namespace Primitive

open World

variable {σ : Type}

/-- What the look-up of a primitive gives. -/
def found (op : DataOp) (site : Site) (s : Scene σ) : World σ × Option (ActorId × String) :=
  s.world.lookupVariable s.thread.actor (site.fieldId? op.subject.1)
    ((site.field? op.subject.1).getD "") op.subject.2

theorem writesAt_writeVariable (site : Site) (s : Scene σ) (update : Value → Value) :
    WritesAt (found .setVariable site s) (writeVariable site s update).world := by
  unfold writeVariable
  simp only
  split
  · exact .inl rfl
  · rename_i place hplace
    split
    · exact .inl rfl
    · rename_i v _
      refine .inr ⟨place, (·.set (update v.get)), hplace, fun v => v.rewritten_set _, ?_⟩
      split <;> rfl

theorem writesAt_editList (site : Site) (s : Scene σ) (f : List Value → List Value) :
    WritesAt (found .addToList site s) (editList site s f).world := by
  unfold editList
  simp only
  split
  · rename_i place hplace
    exact .inr ⟨place, (·.modifyItems f), hplace, fun v => v.rewritten_modifyItems f, rfl⟩
  · exact .inl rfl

/-- Random numbers have nothing to do with the cast. -/
theorem exists_draw (s : Scene σ) :
    ∃ w n, draw s = ({ s with world := w }, n) ∧ SameCast s.world w :=
  ⟨_, _, rfl, s.world.sameCast_draw⟩

theorem writesAt_of_sameCast {op : DataOp} {site : Site} {s : Scene σ} {w w' : World σ}
    (hs : SameCast s.world w) (h : WritesAt (found op site { s with world := w }) w') :
    WritesAt (found op site s) w' := by
  obtain ⟨hactors, hplace⟩ := lookupVariable_of_sameCast hs s.thread.actor
    (site.fieldId? op.subject.1) ((site.field? op.subject.1).getD "") op.subject.2
  rcases h with he | ⟨place, f, hp, hf, he⟩
  · exact .inl (he.trans hactors)
  · refine .inr ⟨place, f, hplace.symm.trans hp, hf, he.trans ?_⟩
    exact congrArg (fun actors => actors.modify place.1 fun a =>
      { a with vars := a.vars.modify place.2 f }) hactors

/-- **A primitive looks its variable up and writes that one alone.** -/
theorem writesAt_data (op : DataOp) (site : Site) (args : Args) (s : Scene σ) :
    WritesAt (found op site s) (data op site args s).1.world := by
  obtain ⟨w, n, hdraw, hw⟩ := exists_draw s
  unfold data
  cases op with
  | «variable» =>
    refine .inl ?_
    unfold readVariable
    simp only
    split <;> rfl
  | setVariable | changeVariable =>
    simp only
    exact writesAt_writeVariable site s _
  | addToList | deleteAllOfList => exact writesAt_editList site s _
  | deleteOfList | insertAtList | replaceItemOfList =>
    simp only [hdraw]
    exact writesAt_of_sameCast hw (writesAt_editList site { s with world := w } _)
  | itemOfList =>
    simp only [hdraw]
    exact writesAt_of_sameCast hw (.inl rfl)
  | listContents | lengthOfList | listContainsItem => exact .inl rfl

end Primitive

/-! ### What a look-up does -/

namespace World

variable {σ : Type} {w : World σ}

/-- **Looking a variable up.** Two worlds before and after differ in the variable under the id of
the field, or its name, on the running actor at most. A variable that was there is replaced exactly
if none is found and it stands under that id; otherwise all are as they were. The variable that is
found or created is there, of the kind that was asked for, and the same look-up finds it again and
changes nothing. Every primitive for variables and lists makes such a look-up and then writes the
variable that it gave, if anything. -/
theorem frame_of_lookup (hw : w.Identified) (actor : ActorId) (id : Option String) (name : String)
    (kind : VariableKind) :
    OnlyAt (actor, id.getD name) w (w.lookupVariable actor id name kind).1 ∧
      ((∀ q v, w.variableAt? q = some v →
          (w.lookupVariable actor id name kind).1.variableAt? q = some v) ↔
        (w.locate? actor id name kind = none → w.variableAt? (actor, id.getD name) = none)) ∧
      (∀ place, (w.lookupVariable actor id name kind).2 = some place →
        ∃ v, (w.lookupVariable actor id name kind).1.variableAt? place = some v ∧ v.kind = kind) ∧
      (w.lookupVariable actor id name kind).1.lookupVariable actor id name kind =
        w.lookupVariable actor id name kind ∧
      ∀ (op : DataOp) (site : Site) (args : Args) (t : Thread),
        WritesAt (Primitive.found op site ⟨w, t⟩) (Primitive.data op site args ⟨w, t⟩).1.world := by
  have hspared := w.spared_iff actor id name kind
  have hwrites := fun (op : DataOp) site args t => Primitive.writesAt_data op site args ⟨w, t⟩
  -- found, nobody to create it on, created
  rcases w.lookupVariable_cases actor id name kind with
    ⟨place, he, hfound⟩ | ⟨he, -, -⟩ | ⟨a, he, hnone, ha⟩
  · refine ⟨?_, hspared, ?_, ?_, hwrites⟩
    · rw [he]
      exact .refl _ w
    · intro place' hplace'
      rw [he] at hplace' ⊢
      cases hplace'
      exact variableAt?_of_locate? hw hfound
    · rw [he, he]
  · refine ⟨?_, hspared, ?_, ?_, hwrites⟩
    · rw [he]
      exact .refl _ w
    · intro place' hplace'
      rw [he] at hplace'
      cases hplace'
    · rw [he, he]
  · have hcreated := locate?_created hw ha hnone
    have honly := onlyAt_insertVariable ha (.ofKind kind (id.getD name) name)
    have hnew := variableAt?_insertVariable ha (.ofKind kind (id.getD name) name)
    rw [Variable.id_ofKind] at honly hnew
    refine ⟨?_, hspared, ?_, ?_, hwrites⟩
    · rw [he]
      exact honly
    · intro place' hplace'
      rw [he] at hplace' ⊢
      cases hplace'
      exact ⟨_, (hnew _).trans (if_pos rfl), Variable.kind_ofKind _ _ _⟩
    · rw [he]
      simp only [lookupVariable, hcreated]

/-- A sprite with a list. -/
def errand : SavedProject where
  targets :=
    [{ name := "Cat"
       isStage := false
       vars := .empty
       lists := .ofList [("a", ⟨"items", [.text "milk", .number 2.0]⟩)]
       blocks := .empty
       x := 0.0
       y := 0.0
       visible := true }]

/-- A list that is looked up by its id stays. -/
theorem frame_of_lookup_errand : ∃ w, (blank Settings.standard ()).play [.load errand] = some w ∧
    w.Identified ∧ (∀ q v, w.variableAt? q = some v →
      (w.lookupVariable 0 (some "a") "items" .list).1.variableAt? q = some v) ∧
    w.variableAt? (0, "a") = some ⟨"a", "items", .list [.text "milk", .number 2.0], false⟩ := by
  have hrun : ((blank Settings.standard ()).play [.load errand]).map (fun w =>
      (w.locate? 0 (some "a") "items" .list, w.variableAt? (0, "a"))) =
        some (some (0, "a"), some ⟨"a", "items", .list [.text "milk", .number 2.0], false⟩) := by
    decide +kernel
  obtain ⟨w, hw, hfacts⟩ := Option.map_eq_some_iff.1 hrun
  obtain ⟨hfound, hlist⟩ := Prod.mk.inj hfacts
  have hid := identified_of_play hw
  have hframe := frame_of_lookup hid 0 (some "a") "items" .list
  refine ⟨w, hw, hid, hframe.2.1.2 fun hnone => ?_, hlist⟩
  rw [hfound] at hnone
  cases hnone

/-- Looking a scalar up under the id of the list takes the place of the list. -/
theorem lost_of_lookup_errand : ((blank Settings.standard ()).play [.load errand]).map (fun w =>
      (w.variableAt? (0, "a"),
        (w.lookupVariable 0 (some "a") "count" .scalar).1.variableAt? (0, "a"))) =
    some (some ⟨"a", "items", .list [.text "milk", .number 2.0], false⟩,
      some ⟨"a", "count", .scalar (.number 0.0), false⟩) := by
  decide +kernel

end World

end Stagecraft
