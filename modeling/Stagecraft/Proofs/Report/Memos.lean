import Stagecraft.Proofs.Schedule.Makeup

/-!
# Primitives and what frames remember

What a frame remembers of reporters is the business of the evaluation. Primitives push frames, drop
them and keep things on them, but never make a frame remember anything.

* `Thread.Kept` : no frame remembers what it did not remember before;
* `Opcode.reports` : the operations that are there for their value;
* `Extensions.Oblivious` : extensions leave what frames remember alone;
* `Primitive.kept_run` : **so do all primitives**.
-/

namespace Stagecraft

namespace Thread

variable {t t' t'' : Thread}

/-- What the frames remember, counted from the bottom. -/
def memos (t : Thread) : List (Table Handle Value) := (t.stack.map (·.reported)).reverse

/-- No frame remembers what it did not remember before: it is new, it has forgotten, or it is as it
was. -/
def Kept (t t' : Thread) : Prop :=
  ∀ (i : Nat) (memo : Table Handle Value), t'.memos[i]? = some memo →
    memo = .empty ∨ t.memos[i]? = some memo

namespace Kept

theorem trans (h : Kept t t') (h' : Kept t' t'') : Kept t t'' := by
  intro i memo hi
  rcases h' i memo hi with he | hi
  · exact .inl he
  · exact h i memo hi

theorem of_memos (h : t'.memos = t.memos) : Kept t t' := fun _ _ hi => .inr (h ▸ hi)

theorem of_stack (h : t'.stack = t.stack) : Kept t t' := .of_memos (by rw [memos, memos, h])

theorem of_thread (h : t' = t) : Kept t t' := .of_stack (h ▸ rfl)

theorem refl (t : Thread) : Kept t t := .of_thread rfl

/-- Frames are dropped from the top. -/
theorem of_suffix (h : t'.stack <:+ t.stack) : Kept t t' := by
  obtain ⟨above, habove⟩ := h
  intro i memo hi
  have hmemos : t.memos = t'.memos ++ (above.map (·.reported)).reverse := by
    rw [memos, memos, ← habove, List.map_append, List.reverse_append]
  refine .inr ?_
  rw [hmemos, List.getElem?_append_left (List.getElem?_eq_some_iff.1 hi).1]
  exact hi

/-- A frame that remembers nothing is put on top. -/
theorem of_push (h : t'.memos = t.memos ++ [.empty]) : Kept t t' := by
  intro i memo hi
  rw [h] at hi
  rcases Nat.lt_or_ge i t.memos.length with hlt | hge
  · rw [List.getElem?_append_left hlt] at hi
    exact .inr hi
  · rw [List.getElem?_append_right hge] at hi
    exact .inl (List.mem_singleton.1 (List.mem_of_getElem? hi))

end Kept

variable (t)

theorem kept_push (h : Handle) : Kept t (t.push h) :=
  .of_push (by simp [memos, push, Frame.start])

theorem kept_modifyTop {f : Frame → Frame} (hf : ∀ x, (f x).reported = x.reported) :
    Kept t (t.modifyTop f) := by
  refine .of_memos ?_
  unfold modifyTop
  split
  · rename_i top rest hstack
    simp [memos, hstack, hf]
  · rfl

theorem kept_modifyFrame (i : Nat) {f : Frame → Frame} (hf : ∀ x, (f x).reported = x.reported) :
    Kept t (t.modifyFrame i f) := by
  have hmap : ∀ (l : List Frame) (k : Nat),
      (l.modify k f).map (·.reported) = l.map (·.reported) := by
    intro l
    induction l with
    | nil => exact fun k => by simp
    | cons x l ih =>
      intro k
      cases k with
      | zero => simp [hf]
      | succ k => simp [ih]
  refine .of_memos ?_
  unfold modifyFrame
  split
  · rw [memos, memos, hmap]
  · rfl

theorem kept_stopScript (g : Graph) : Kept t (t.stopScript g) :=
  .of_suffix (List.dropWhile_suffix _)

end Thread

/-! ### Primitives -/

/-- Whether a built-in operation is there for its value. -/
def Opcode.reports : Opcode → Bool
  | .operator _ => true
  | .sensing op => op ≠ .resetTimer
  | .data op =>
    (op matches .variable | .listContents | .itemOfList | .lengthOfList | .listContainsItem)
  | .motion op => (op matches .xPosition | .yPosition)
  | .procedure op => (op matches .argumentText | .argumentFlag)
  | _ => false

/-- Extensions leave what frames remember alone. -/
def Extensions.Oblivious {σ : Type} (ext : Extensions σ) : Prop :=
  ∀ {name : String} {handler : Extension σ}, ext.get? name = some handler →
    ∀ site args (s : Scene σ), s.thread.Kept (handler site args s).1.thread

/-- While a thread stays in its script, no frame remembers anything. -/
theorem Thread.Shift.kept {site : Site} {t t' : Thread} (h : t.Shift site t') : t.Kept t' := by
  refine h.told (P := t.Kept)
    ⟨fun ht => ?_, fun ht b => ?_, fun ht hF => ?_, fun ht p => ?_⟩ (.refl t)
  · exact ht.trans (.of_stack rfl)
  · exact ht.trans (kept_push _ b)
  · exact ht.trans (kept_modifyTop _ fun f => (hF f).reported)
  · exact ht.trans (kept_modifyFrame _ _ fun _ => rfl)

namespace Scene

variable {σ : Type} {site : Site} {op : Opcode} {s s' : Scene σ}

theorem Does.kept (h : Does site op s s') : s.thread.Kept s'.thread := by
  cases h with
  | shift ht => exact ht.kept
  | _ => exact .refl _

theorem Quits.kept (h : Quits site s s') : s.thread.Kept s'.thread := by
  cases h with
  | stays => exact .refl _
  | stopScript => exact s.thread.kept_stopScript _
  | retire => exact .of_suffix List.nil_suffix

theorem Works.kept (h : Works site op s s') : s.thread.Kept s'.thread :=
  h.along (R := fun s s' => s.thread.Kept s'.thread) (fun s => .refl s.thread)
    (fun h h' => h.trans h') Does.kept Quits.kept

end Scene

namespace Primitive

open Thread

variable {σ : Type} (site : Site) (args : Args) (s : Scene σ)

/-! Most built-in primitives do not touch the thread. -/

@[simp] theorem thread_lookup (field : String) (kind : VariableKind) :
    (lookup site s field kind).1.thread = s.thread := rfl

@[simp] theorem thread_draw : (draw s).1.thread = s.thread := by
  unfold draw
  rcases s.world.draw with ⟨w, n⟩
  rfl

@[simp] theorem thread_readVariable : (readVariable site s).1.thread = s.thread := by
  unfold readVariable
  simp only
  split <;> exact thread_lookup site s _ _

@[simp] theorem thread_readList : (readList site s).1.thread = s.thread :=
  thread_lookup site s _ _

@[simp] theorem thread_writeVariable (update : Value → Value) :
    (writeVariable site s update).thread = s.thread := by
  unfold writeVariable
  simp only
  split
  · exact thread_lookup site s _ _
  · split <;> exact thread_lookup site s "VARIABLE" .scalar

@[simp] theorem thread_editList (f : List Value → List Value) :
    (editList site s f).thread = s.thread := by
  unfold editList
  simp only
  split <;> exact thread_lookup site s "LIST" .list

theorem thread_data (op : DataOp) : (data op site args s).1.thread = s.thread := by
  unfold data
  cases op <;> simp

theorem thread_operator (op : OperatorOp) : (operator op site args s).1.thread = s.thread := by
  unfold operator
  split
  · exact thread_draw s
  · rfl

@[simp] theorem thread_moveTo (path : Float → Float → Float × Float) :
    (moveTo s path).thread = s.thread := by
  unfold moveTo
  split
  · rfl
  · simp only
    split <;> rfl

theorem thread_motion (op : MotionOp) : (motion op args s).1.thread = s.thread := by
  unfold motion
  cases op <;> simp

@[simp] theorem thread_restyle (f : Actor → Actor) : (restyle s f).thread = s.thread := by
  unfold restyle
  split <;> rfl

theorem thread_looks (op : LooksOp) : (looks op args s).1.thread = s.thread := by
  unfold looks
  cases op <;> simp

theorem thread_sensing (op : SensingOp) : (sensing op site args s).1.thread = s.thread := by
  unfold sensing
  cases op <;> rfl

theorem kept_extended {ext : Extensions σ} (hext : ext.Oblivious) (name : String) :
    s.thread.Kept (extended ext name site args s).1.thread := by
  unfold extended
  split
  · exact .refl _
  · rename_i handler hget
    have hkept := hext hget site args s
    split <;> (rename_i he; rw [he] at hkept; exact hkept)

/-- **A primitive makes no frame remember anything.** -/
theorem kept_run {ext : Extensions σ} (hext : ext.Oblivious) (op : Opcode) :
    s.thread.Kept (run ext op site args s).1.thread := by
  cases op with
  | custom name => exact kept_extended site args s hext name
  | _ =>
    rw [run_of_builtIn site _ args s ext rfl]
    exact (works_run site _ args s).kept

end Primitive

end Stagecraft
