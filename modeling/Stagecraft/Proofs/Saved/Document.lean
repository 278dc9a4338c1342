import Stagecraft.Saved.Format
import Stagecraft.Proofs.Json.Text

/-!
# Projects as documents

What reading gives back of a thing that was written. Names, flags, links and tables all come back as
they were; only numbers may not, since the writer spells a double with the fewest digits, which the
reader need not turn into the same double, and writes what is not finite as `null`. So a project is
read again exactly if its numbers are.

* `Json.record?_ofMembers` : a record is read as the members that were written;
* `Json.reread?` : what a number is read as after it was written;
* `Transcribes` : writing and reading agree but for the numbers;
* `transcribes_project` : **writing and reading projects agree but for their numbers**;
* `SavedProject.parse?_text` : the text of a project is read as its document.
-/

namespace Stagecraft

/-! ### Records -/

namespace Json

theorem known?_eq {names : List String} (members : List (String × Json)) :
    ∀ found : List (String × Json), (∀ m ∈ members, m.1 ∈ names) →
      ((members ++ found).map (·.1)).Nodup →
      known? names (members.map fun m => (some m.1, m.2)) found =
        some (members.reverse ++ found) := by
  induction members with
  | nil => exact fun found _ _ => rfl
  | cons m rest ih =>
    intro found hnames hnodup
    have hname : names.contains m.1 = true :=
      List.contains_iff_mem.2 (hnames m List.mem_cons_self)
    rw [List.cons_append, List.map_cons, List.nodup_cons] at hnodup
    -- the member is none of those that were found, so the reader goes on
    have hnew : (found.any fun f => f.1 == m.1) = false := by
      rw [List.any_eq_false]
      intro f hf he
      exact hnodup.1 (List.mem_map.2 ⟨f, List.mem_append_right _ hf, by simpa using he⟩)
    have hrest : ((rest ++ (m.1, m.2) :: found).map (·.1)).Nodup :=
      (List.perm_middle.map _).nodup_iff.2 (List.nodup_cons.2 hnodup)
    rw [List.map_cons, known?, if_pos hname, hnew, if_neg Bool.false_ne_true,
      ih _ (fun m' hm' => hnames m' (List.mem_cons_of_mem _ hm')) hrest, List.reverse_cons,
      List.append_assoc]
    rfl

/-- A record whose members are known and stand in order is read as these members. -/
theorem record?_ofMembers {names : List String} {members : List (String × Json)}
    (h : (members.map (·.1)).Sublist names) (hnames : names.Nodup) :
    record? names (ofMembers members) = some ⟨members.reverse⟩ := by
  have hknown := known?_eq members [] (fun m hm => h.subset (List.mem_map_of_mem hm))
    (by rw [List.append_nil]; exact h.nodup hnames)
  rw [ofMembers, record?, hknown, List.append_nil]
  rfl

/-! ### Lists and rows -/

variable {α γ : Type}

theorem isSome_mapM (read : γ → Option α) (l : List γ) :
    (l.mapM read).isSome ↔ ∀ j ∈ l, (read j).isSome := by
  induction l with
  | nil => simp
  | cons j rest ih =>
    rw [List.mapM_cons, List.forall_mem_cons, ← ih]
    cases read j <;> cases rest.mapM read <;> simp

/-- Items are read back if each of them is. -/
theorem mapM_map_eq_some (write : α → γ) (read : γ → Option α) (l : List α) :
    (l.map write).mapM read = some l ↔ ∀ a ∈ l, read (write a) = some a := by
  induction l with
  | nil => simp
  | cons a rest ih =>
    rw [List.map_cons, List.mapM_cons, List.forall_mem_cons, ← ih]
    simp [Option.bind_eq_some_iff]

/-- A row as it is written. -/
def row (write : α → Json) (e : String × α) : Option String × Json := (some e.1, write e.2)

theorem row?_row (read : Json → Option α) (write : α → Json) (e : String × α) :
    row? read (row write e) = (read (write e.2)).map fun a => (e.1, a) := by
  cases h : read (write e.2) <;> simp [row?, row, h]

/-- Rows keep their keys. -/
theorem keys_of_mapM_row (read : Json → Option α) (write : α → Json) (entries : List (String × α)) :
    ∀ rows, (entries.map (row write)).mapM (row? read) = some rows →
      rows.map (·.1) = entries.map (·.1) := by
  induction entries with
  | nil =>
    intro rows h
    cases h
    rfl
  | cons e rest ih =>
    intro rows h
    rw [List.map_cons, List.mapM_cons, row?_row] at h
    obtain ⟨_, he, h⟩ := Option.bind_eq_some_iff.1 h
    obtain ⟨rest', hrest, h⟩ := Option.bind_eq_some_iff.1 h
    obtain ⟨a, -, rfl⟩ := Option.map_eq_some_iff.1 he
    cases h
    rw [List.map_cons, List.map_cons, ih rest' hrest]

/-! ### Numbers -/

/-- What a number is read as after it was written. -/
def reread? (x : Float) : Option Float := (ofFloat x).float?

/-- What is not finite is written as a document that is no number. -/
theorem reread?_eq_none {x : Float} (h : Double.ofFloat? x = none) : reread? x = none := by
  rw [reread?, ofFloat, h]
  rfl

theorem legible_ofFloat (x : Float) : Legible (ofFloat x) := by
  rw [ofFloat]
  split
  · rename_i d hd
    exact .number (spelling_render hd)
  · exact .null

end Json

/-! ### The numbers of what is saved -/

/-- The numbers of a value. -/
def Value.numbers : Value → List Float
  | .number n => [n]
  | .text _ => []
  | .flag _ => []

/-- The numbers of a saved variable. -/
def SavedVariable.numbers (v : SavedVariable) : List Float := v.value.numbers

/-- The numbers of a saved list. -/
def SavedList.numbers (l : SavedList) : List Float := l.items.flatMap Value.numbers

/-- The numbers of a saved input. -/
def SavedInput.numbers : SavedInput → List Float
  | .literal v => v.numbers
  | .reporter _ => []
  | .branch _ => []

/-- The numbers of a table. -/
def Table.numbers {α : Type} (numbers : α → List Float) (t : Table String α) : List Float :=
  t.entries.flatMap fun e => numbers e.2

/-- The numbers of a saved block. -/
def SavedBlock.numbers (b : SavedBlock) : List Float :=
  b.inputs.numbers SavedInput.numbers ++ [b.x, b.y]

/-- The numbers of a saved actor. -/
def SavedActor.numbers (a : SavedActor) : List Float :=
  a.vars.numbers SavedVariable.numbers ++ a.lists.numbers SavedList.numbers ++
    a.blocks.numbers SavedBlock.numbers ++ [a.x, a.y]

/-- The numbers of a project. -/
def SavedProject.numbers (p : SavedProject) : List Float := p.targets.flatMap SavedActor.numbers

/-! ### Writing and reading -/

/-- Things are written as legible documents. Reading one gives something if its numbers are read as
numbers at all, and the thing that was written if they are read as they were. -/
structure Transcribes {α : Type} (write : α → Json) (read : Json → Option α)
    (numbers : α → List Float) : Prop where
  legible (a : α) : Json.Legible (write a)
  isSome_iff (a : α) : (read (write a)).isSome ↔ ∀ x ∈ numbers a, (Json.reread? x).isSome
  eq_some_iff (a : α) : read (write a) = some a ↔ ∀ x ∈ numbers a, Json.reread? x = some x

theorem transcribes_float : Transcribes Json.ofFloat Json.float? fun x => [x] where
  legible := Json.legible_ofFloat
  isSome_iff x := by rw [List.forall_mem_singleton, Json.reread?]
  eq_some_iff x := by rw [List.forall_mem_singleton, Json.reread?]

variable {α : Type} {write : α → Json} {read : Json → Option α} {numbers : α → List Float}

theorem Table.toJson_eq (write : α → Json) (t : Table String α) :
    t.toJson write = .object (t.entries.map (Json.row write)) := by
  rw [Table.toJson, Json.ofMembers, List.map_map]
  rfl

/-- What has no numbers is read back. -/
theorem Transcribes.of_reads (hlegible : ∀ a, Json.Legible (write a))
    (hread : ∀ a, read (write a) = some a) : Transcribes write read fun _ => [] where
  legible := hlegible
  isSome_iff a := by simp [hread a]
  eq_some_iff a := by simp [hread a]

namespace Transcribes

theorem list (h : Transcribes write read numbers) :
    Transcribes (fun l => .array (l.map write)) (Json.list? read) (·.flatMap numbers) where
  legible l := .array (List.forall_mem_map.2 fun a _ => h.legible a)
  isSome_iff l := by
    simp only [Json.list?, Json.isSome_mapM, List.forall_mem_map, h.isSome_iff,
      List.forall_mem_flatMap]
  eq_some_iff l := by
    simp only [Json.list?, Json.mapM_map_eq_some, h.eq_some_iff, List.forall_mem_flatMap]

/-- A table has the keys of the rows that were written, so none of them overwrites another. -/
theorem table (h : Transcribes write read numbers) :
    Transcribes (Table.toJson write) (Json.table? read) (Table.numbers numbers) where
  legible t := .object (List.forall_mem_map.2 fun e _ => h.legible e.2)
  isSome_iff t := by
    simp only [Table.toJson_eq, Json.table?, Option.isSome_map, Json.isSome_mapM,
      List.forall_mem_map,
      Json.row?_row, h.isSome_iff, Table.numbers, List.forall_mem_flatMap]
  eq_some_iff t := by
    -- rows with the keys of the table make that table only if they are its rows
    have hback : Json.table? read (Table.toJson write t) = some t ↔
        (t.entries.map (Json.row write)).mapM (Json.row? read) = some t.entries := by
      rw [Table.toJson_eq, Json.table?, Option.map_eq_some_iff]
      constructor
      · rintro ⟨rows, hread, ht⟩
        have hkeys := Json.keys_of_mapM_row read write _ rows hread
        have hentries : t.entries = rows := by
          rw [← ht]
          exact Table.entries_ofList (hkeys ▸ t.nodup)
        rw [hread, hentries]
      · exact fun hread => ⟨t.entries, hread, t.ofList_entries⟩
    rw [hback, Json.mapM_map_eq_some]
    simp only [Json.row?_row, Table.numbers, List.forall_mem_flatMap, ← h.eq_some_iff]
    refine forall₂_congr fun e _ => ?_
    cases read (write e.2) <;> simp [Prod.ext_iff]

/-- Something of which one part has numbers and the rest is read back. -/
theorem part {β : Type} {write' : β → Json} {read' : Json → Option β}
    (h : Transcribes write read numbers) (get : β → α) (set : β → α → β)
    (hlegible : ∀ b, Json.Legible (write' b))
    (hread : ∀ b, read' (write' b) = (read (write (get b))).map (set b))
    (hset : ∀ b a, set b a = b ↔ a = get b) :
    Transcribes write' read' fun b => numbers (get b) where
  legible := hlegible
  isSome_iff b := by rw [hread, Option.isSome_map, h.isSome_iff]
  eq_some_iff b := by
    rw [hread, ← h.eq_some_iff]
    cases read (write (get b)) <;> simp [hset]

end Transcribes

/-! ### The kinds of saved things -/

@[simp] theorem Json.string?_ofString (s : String) : (Json.ofString s).string? = some s := rfl

@[simp] theorem Json.bool?_flag (b : Bool) : (Json.flag b).bool? = some b := rfl

@[simp] theorem Json.nullable?_ofString (s : String) :
    (Json.ofString s).nullable? Json.string? = some (some s) := rfl

@[simp] theorem Json.nullable?_keyToJson (key : Option String) :
    (keyToJson key).nullable? Json.string? = some key := by
  cases key <;> rfl

theorem Json.legible_keyToJson (key : Option String) : Json.Legible (keyToJson key) := by
  cases key
  · exact .null
  · exact .text _

theorem any_const (o : Option α) (b : Bool) : (o.any fun _ => b) = (o.isSome && b) := by
  cases o <;> simp

theorem transcribes_string : Transcribes Json.ofString Json.string? fun _ => [] :=
  .of_reads .text fun _ => rfl

theorem Value.ofJson?_toJson (v : Value) : Value.ofJson? v.toJson =
    match v with
    | .number n => (Json.reread? n).map Value.number
    | v => some v := by
  cases v with
  | number n =>
    simp only [Value.toJson, Json.reread?, Json.ofFloat]
    cases Double.ofFloat? n <;> rfl
  | text s => rfl
  | flag b => rfl

theorem transcribes_value : Transcribes Value.toJson Value.ofJson? Value.numbers where
  legible v := by
    cases v with
    | number n => exact Json.legible_ofFloat n
    | text s => exact .text s
    | flag b => exact .flag b
  isSome_iff v := by
    rw [Value.ofJson?_toJson]
    cases v <;> simp [Value.numbers]
  eq_some_iff v := by
    rw [Value.ofJson?_toJson]
    cases v <;> simp [Value.numbers]

theorem transcribes_variable :
    Transcribes SavedVariable.toJson SavedVariable.ofJson? SavedVariable.numbers := by
  refine transcribes_value.part SavedVariable.value (fun v value => { v with value })
    (fun v => .object ?_) (fun v => ?_) fun v value => ?_
  · simp [Json.Legible.text, Json.Legible.flag, transcribes_value.legible]
  · rw [SavedVariable.ofJson?, SavedVariable.toJson, Json.record?_ofMembers (by simp) (by decide)]
    simp [Json.Record.required?, Json.Record.optional?, Option.map_eq_bind]
  · cases v
    simp

theorem transcribes_list : Transcribes SavedList.toJson SavedList.ofJson? SavedList.numbers := by
  refine transcribes_value.list.part SavedList.items (fun l items => { l with items })
    (fun l => .object ?_) (fun l => ?_) fun l items => ?_
  · simp [Json.Legible.text, transcribes_value.list.legible]
  · rw [SavedList.ofJson?, SavedList.toJson, Json.record?_ofMembers (by simp) (by decide)]
    simp [Json.Record.required?, Json.Record.optional?, Option.map_eq_bind]
  · cases l
    simp

theorem transcribes_input :
    Transcribes SavedInput.toJson SavedInput.ofJson? SavedInput.numbers where
  legible
    | .literal v => .object (List.forall_mem_singleton.2 (transcribes_value.legible v))
    | .reporter key => .object (List.forall_mem_singleton.2 (.text key))
    | .branch key => .object (List.forall_mem_singleton.2 (.text key))
  isSome_iff i := by
    cases i <;>
    simp [SavedInput.toJson, Json.ofMembers, SavedInput.ofJson?, SavedInput.numbers,
      transcribes_value.isSome_iff]
  eq_some_iff i := by
    cases i <;>
    simp [SavedInput.toJson, Json.ofMembers, SavedInput.ofJson?, SavedInput.numbers,
      transcribes_value.eq_some_iff]

theorem transcribes_field : Transcribes Field.toJson Field.ofJson? fun _ => [] :=
  .of_reads (fun f => .object (by cases h : f.id <;> simp [Json.Legible.text])) fun f => by
    rw [Field.ofJson?, Field.toJson, Json.record?_ofMembers (by cases f.id <;> simp) (by decide)]
    obtain ⟨value, id⟩ := f
    cases id <;> simp [Json.Record.required?, Json.Record.optional?]

theorem Json.list?_ofString (l : List String) :
    Json.list? Json.string? (.array (l.map Json.ofString)) = some l :=
  (transcribes_string.list.eq_some_iff l).2 (by simp)

theorem transcribes_signature : Transcribes Signature.toJson Signature.ofJson? fun _ => [] :=
  .of_reads
    (fun s => .object (by
      simp [Json.Legible.text, Json.Legible.flag, transcribes_string.list.legible]))
    fun s => by
      rw [Signature.ofJson?, Signature.toJson, Json.record?_ofMembers (by simp) (by decide)]
      simp [Json.Record.required?, Json.Record.optional?, Json.list?_ofString]

theorem Json.nullable?_signature (s : Signature) :
    Json.nullable? Signature.ofJson? s.toJson = some (some s) := by
  have h : Json.nullable? Signature.ofJson? s.toJson = (Signature.ofJson? s.toJson).map some := rfl
  rw [h, (transcribes_signature.eq_some_iff s).2 (by simp)]
  rfl

theorem SavedBlock.ofJson?_toJson (b : SavedBlock) : SavedBlock.ofJson? b.toJson = do
    return { b with
      inputs := ← Json.table? SavedInput.ofJson? (b.inputs.toJson SavedInput.toJson)
      x := ← (Json.ofFloat b.x).float?
      y := ← (Json.ofFloat b.y).float? } := by
  have hfields := (transcribes_field.table.eq_some_iff b.fields).2 (by simp [Table.numbers])
  rw [SavedBlock.ofJson?, SavedBlock.toJson,
    Json.record?_ofMembers (by cases b.signature <;> simp) (by decide)]
  cases h : b.signature <;>
    simp [Json.Record.required?, Json.Record.optional?, Json.nullable?_signature, hfields]

theorem transcribes_block :
    Transcribes SavedBlock.toJson SavedBlock.ofJson? SavedBlock.numbers where
  legible b := .object (by
    cases b.signature <;>
    simp [Json.Legible.text, Json.Legible.flag, Json.legible_keyToJson, Json.legible_ofFloat,
      transcribes_input.table.legible, transcribes_field.table.legible,
      transcribes_signature.legible])
  isSome_iff b := by
    rw [b.ofJson?_toJson]
    simp [Option.isSome_bind, any_const, transcribes_input.table.isSome_iff,
      transcribes_float.isSome_iff, SavedBlock.numbers, or_imp, forall_and]
  eq_some_iff b := by
    rw [b.ofJson?_toJson]
    cases b
    simp [Option.bind_eq_some_iff, transcribes_input.table.eq_some_iff,
      transcribes_float.eq_some_iff, SavedBlock.numbers, or_imp, forall_and]

theorem SavedActor.ofJson?_toJson (a : SavedActor) : SavedActor.ofJson? a.toJson = do
    return { a with
      vars := ← Json.table? SavedVariable.ofJson? (a.vars.toJson SavedVariable.toJson)
      lists := ← Json.table? SavedList.ofJson? (a.lists.toJson SavedList.toJson)
      blocks := ← Json.table? SavedBlock.ofJson? (a.blocks.toJson SavedBlock.toJson)
      x := ← (Json.ofFloat a.x).float?
      y := ← (Json.ofFloat a.y).float? } := by
  rw [SavedActor.ofJson?, SavedActor.toJson, Json.record?_ofMembers (by simp) (by decide)]
  simp [Json.Record.required?, Json.Record.optional?]

theorem transcribes_actor :
    Transcribes SavedActor.toJson SavedActor.ofJson? SavedActor.numbers where
  legible a := .object (by
    simp [Json.Legible.text, Json.Legible.flag, Json.legible_ofFloat,
      transcribes_variable.table.legible, transcribes_list.table.legible,
      transcribes_block.table.legible])
  isSome_iff a := by
    rw [a.ofJson?_toJson]
    simp [Option.isSome_bind, any_const, transcribes_variable.table.isSome_iff,
      transcribes_list.table.isSome_iff, transcribes_block.table.isSome_iff,
      transcribes_float.isSome_iff, SavedActor.numbers, or_imp, forall_and]
  eq_some_iff a := by
    rw [a.ofJson?_toJson]
    cases a
    simp [Option.bind_eq_some_iff, transcribes_variable.table.eq_some_iff,
      transcribes_list.table.eq_some_iff, transcribes_block.table.eq_some_iff,
      transcribes_float.eq_some_iff, SavedActor.numbers, or_imp, forall_and]

/-- **Writing and reading projects agree but for their numbers.** -/
theorem transcribes_project :
    Transcribes SavedProject.toJson SavedProject.ofJson? SavedProject.numbers := by
  refine transcribes_actor.list.part SavedProject.targets (fun _ targets => ⟨targets⟩)
    (fun p => .object ?_) (fun p => ?_) fun p targets => ?_
  · simp [transcribes_actor.list.legible]
  · rw [SavedProject.ofJson?, SavedProject.toJson, Json.record?_ofMembers (by simp) (by decide)]
    simp [Json.Record.required?, Option.map_eq_bind]
  · cases p
    simp

/-- The text of a project is read as its document. -/
theorem SavedProject.parse?_text (p : SavedProject) :
    SavedProject.parse? p.text = SavedProject.ofJson? p.toJson := by
  rw [SavedProject.parse?, SavedProject.text, Json.parse?_indented (transcribes_project.legible p)]
  rfl

end Stagecraft
