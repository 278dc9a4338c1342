import Stagecraft.Proofs.Graph.Index
import Stagecraft.Proofs.Pace.Evaluate

/-!
# What a call binds

A call of a procedure pushes one frame, with a table of arguments. The names, ids and defaults of
the prototype are lists of their own, which need not be of one length or free of repetitions: an
argument is a position in the list of names, and of two with one name the later one counts. What a
call supplies is looked up under the id at that position, and the default at that position stands in
for it. The nearest frame with a table decides about all names, so a call hides those that the
caller has, and when its frame is gone they are back.

* `Signature.given` : the value of the argument at a position;
* `Scheduler.enterProcedure_eq` : a call as one frame on the stack;
* `Scene.startProcedure_binds` : **a call binds exactly the arguments of the procedure**.
-/

namespace Stagecraft

/-! ### Arguments by position -/

/-- The value of the argument at a position: what is supplied under the id of the position, else the
default of the position as a text, else the empty text. -/
def Signature.given (s : Signature) (supplied : Table String Value) (i : Nat) : Value :=
  ((s.argumentIds[i]?).bind supplied.get?).getD
    (((s.argumentDefaults[i]?).map Value.text).getD (.text ""))

/-- A table with a row for each name, in order, and values by position. -/
def activation (names : List String) (value : Nat → Value) : Table String Value :=
  names.zipIdx.foldl (fun table e => table.insert e.1 (value e.2)) .empty

section Activation

variable {name : String} {names : List String} {value : Nat → Value}

/-- A name that does not come is left alone. -/
theorem get?_foldl_zipIdx_of_notMem (h : name ∉ names) (n : Nat) (table : Table String Value) :
    ((names.zipIdx n).foldl (fun table e => table.insert e.1 (value e.2)) table).get? name =
      table.get? name := by
  induction names generalizing n table with
  | nil => rfl
  | cons m rest ih =>
    obtain ⟨hne, hrest⟩ := not_or.1 (mt List.mem_cons.2 h)
    rw [List.zipIdx_cons, List.foldl_cons, ih hrest, Table.get?_insert_of_ne table hne]

/-- Of the positions of a name the last one counts. -/
theorem get?_foldl_zipIdx {i : Nat} (hi : names[i]? = some name)
    (hlast : ∀ j, i < j → names[j]? ≠ some name) (n : Nat) (table : Table String Value) :
    ((names.zipIdx n).foldl (fun table e => table.insert e.1 (value e.2)) table).get? name =
      some (value (n + i)) := by
  induction names generalizing i n table with
  | nil => cases hi
  | cons m rest ih =>
    rw [List.zipIdx_cons, List.foldl_cons]
    cases i with
    | zero =>
      cases hi
      have hrest : name ∉ rest := fun hm => by
        obtain ⟨j, hj⟩ := List.getElem?_of_mem hm
        exact hlast (j + 1) (Nat.succ_pos j) hj
      rw [get?_foldl_zipIdx_of_notMem hrest, Table.get?_insert_self]
      rfl
    | succ i =>
      rw [ih hi (fun j hj => hlast (j + 1) (Nat.succ_lt_succ hj)), Nat.add_assoc, Nat.add_comm 1]

theorem get?_activation_of_notMem (h : name ∉ names) : (activation names value).get? name = none :=
  get?_foldl_zipIdx_of_notMem h 0 .empty

theorem get?_activation {i : Nat} (hi : names[i]? = some name)
    (hlast : ∀ j, i < j → names[j]? ≠ some name) :
    (activation names value).get? name = some (value i) := by
  rw [activation, get?_foldl_zipIdx hi hlast, Nat.zero_add]

end Activation

/-! ### Entering a procedure -/

namespace Thread

variable {t : Thread}

/-- The arguments of a signature are those of its lists, position by position. -/
theorem argumentValue_eq (s : Signature) (supplied : Table String Value) (i : Nat) :
    argumentValue ⟨s.argumentIds, s.argumentNames, s.argumentDefaults, s.warp⟩ supplied i =
      s.given supplied i := by
  unfold argumentValue Signature.given
  cases s.argumentIds[i]?.bind supplied.get? with
  | some v => rfl
  | none => cases s.argumentDefaults[i]? <;> rfl

end Thread

namespace Scheduler

variable {g : Graph} {t : Thread} {code : String}

/-- How the body of a procedure starts is a matter of its frame's warp and of the status. -/
theorem exists_settleCall {f : Frame} {rest : List Frame} (k : Scheduler) (now : Span)
    (warp recursive : Bool) (hstack : t.stack = f :: rest) :
    ∃ fast status, k.settleCall now t warp recursive =
      { t with stack := { f with warp := fast } :: rest, status := status } := by
  unfold settleCall
  split
  · exact ⟨f.warp, .yielded, by rw [← hstack]⟩
  · split
    · exact ⟨true, t.status, by rw [Thread.modifyTop, hstack]⟩
    · split
      · exact ⟨f.warp, .yielded, by rw [← hstack]⟩
      · exact ⟨f.warp, t.status, by rw [← hstack]⟩

/-- **A call as one frame on the stack.** It stands on the definition and has the arguments; only
the status of the thread may change besides. -/
theorem enterProcedure_eq {k : Scheduler} {h : Handle} {s : Signature}
    (hdef : g.definition? code = some h) (hs : g.DefinedAt code h s)
    (hdepth : t.stack.length < k.maxCallDepth) (now : Span) (supplied : Table String Value) :
    ∃ fast status, k.enterProcedure now g t code supplied =
      ({ t with
          stack := ⟨h, false, fast, some (activation s.argumentNames (s.given supplied)), .empty,
            .fresh⟩ :: t.stack
          status := status }, .entered) := by
  have hparameters : g.parameters? code =
      some ⟨s.argumentIds, s.argumentNames, s.argumentDefaults, s.warp⟩ := by
    rw [Graph.parameters?, hdef, Option.bind_some, hs.prototype?, Option.map_some]
  have hbind : ((t.push h).initArguments).bindArguments
      ⟨s.argumentIds, s.argumentNames, s.argumentDefaults, s.warp⟩ supplied =
      t.enterBody h (activation s.argumentNames (s.given supplied)) := by
    have hgiven := funext (Thread.argumentValue_eq s supplied)
    rw [activation, ← hgiven]
    exact t.bindArguments_enterBody h _ supplied .empty
  obtain ⟨fast, status, hsettle⟩ := exists_settleCall k now s.warp (t.isRecursiveCall g code)
    (t := t.enterBody h (activation s.argumentNames (s.given supplied))) rfl
  refine ⟨fast, status, ?_⟩
  rw [enterProcedure, hdef]
  simp only [hparameters, hbind, hsettle]
  exact if_neg (Nat.not_le_of_lt hdepth)

end Scheduler

/-! ### Calls -/

namespace Thread

/-- A frame with arguments hides those below. -/
theorem argument?_of_frame {t : Thread} {f : Frame} {rest : List Frame}
    {arguments : Table String Value} (hstack : t.stack = f :: rest)
    (hf : f.arguments = some arguments) (name : String) :
    t.argument? name = arguments.get? name := by
  rw [argument?, hstack, List.findSome?_cons, hf]
  rfl

end Thread

namespace Scene

variable {σ : Type}

/-- A call of a procedure that the program does not define, or on a stack that is too deep. -/
theorem startProcedure_of_refused {site : Site} {s : Scene σ} (code : String)
    (h : site.graph.definition? code = none ∨
      site.scheduler.maxCallDepth ≤ s.thread.stack.length) (supplied : Table String Value) :
    (s.startProcedure site code supplied).2 = false ∧
      (s.startProcedure site code supplied).1.thread = s.thread := by
  rw [startProcedure, Scheduler.enterProcedure]
  cases hdef : site.graph.definition? code with
  | none => exact ⟨rfl, rfl⟩
  | some definition =>
    have hdeep : site.scheduler.maxCallDepth ≤ s.thread.depth :=
      h.resolve_left (by rw [hdef]; exact Option.some_ne_none definition)
    simp only [if_pos hdeep, and_self]

/-- A call of a procedure that the program defines, on a stack that is not too deep. -/
theorem startProcedure_of_defined {site : Site} {s : Scene σ} {code : String} {h : Handle}
    {sig : Signature} (hdef : site.graph.definition? code = some h)
    (hsig : site.graph.DefinedAt code h sig)
    (hdepth : s.thread.stack.length < site.scheduler.maxCallDepth)
    (supplied : Table String Value) :
    ∃ fast status, s.startProcedure site code supplied =
      ({ s with thread :=
        { s.thread with
          stack := ⟨h, false, fast, some (activation sig.argumentNames (sig.given supplied)),
            .empty, .fresh⟩ :: s.thread.stack
          status := status } }, true) := by
  obtain ⟨fast, status, henter⟩ := Scheduler.enterProcedure_eq hdef hsig hdepth
    s.world.now supplied
  exact ⟨fast, status, by rw [startProcedure, henter]⟩

/-- **A call binds exactly the arguments of the procedure.** It is entered exactly if the program
defines the procedure and the stack is not too deep, and else the thread is left alone. If it is
entered, one frame is pushed, at the first block that defines the procedure, and nothing else of the
thread changes but its status. Of the positions of a name in the prototype the last one counts: the
value is what is supplied under the id at that position, else the default there, else the empty
text. No other name is bound, whatever the caller has bound; and when the frame is popped, the
caller has its own names back. -/
theorem startProcedure_binds {site : Site} (hl : site.graph.Labelled) (hf : site.graph.Faithful)
    (s : Scene σ) (code : String) (supplied : Table String Value) :
    ((s.startProcedure site code supplied).2 = true ↔
      (∃ h sig, site.graph.DefinedAt code h sig) ∧
        s.thread.stack.length < site.scheduler.maxCallDepth) ∧
    ((s.startProcedure site code supplied).2 = false →
      (s.startProcedure site code supplied).1.thread = s.thread) ∧
    ((s.startProcedure site code supplied).2 = true →
      ∃ h sig f status, site.graph.FirstDefinedAt code h sig ∧ f.block = h ∧
        (s.startProcedure site code supplied).1.thread =
          { s.thread with stack := f :: s.thread.stack, status := status } ∧
        (∀ i name, sig.argumentNames[i]? = some name →
          (∀ j, i < j → sig.argumentNames[j]? ≠ some name) →
          (s.startProcedure site code supplied).1.thread.argument? name =
            some (sig.given supplied i)) ∧
        (∀ name, name ∉ sig.argumentNames →
          (s.startProcedure site code supplied).1.thread.argument? name = none) ∧
        ∀ name, (s.startProcedure site code supplied).1.thread.pop.argument? name =
          s.thread.argument? name) := by
  cases hdef : site.graph.definition? code with
  | none =>
    obtain ⟨hfalse, hthread⟩ := startProcedure_of_refused (s := s) code (.inl hdef) supplied
    have hnot : ¬∃ h sig, site.graph.DefinedAt code h sig := by
      rw [← Graph.isSome_definition?_iff hl hf, hdef]
      exact Bool.false_ne_true
    rw [hfalse]
    exact ⟨⟨fun h => (by cases h), fun h => absurd h.1 hnot⟩, fun _ => hthread, fun h => by cases h⟩
  | some definition =>
    obtain ⟨sig, hfirst⟩ := (Graph.definition?_eq_some_iff hl hf).1 hdef
    rcases Nat.lt_or_ge s.thread.stack.length site.scheduler.maxCallDepth with hdepth | hdepth
    · obtain ⟨fast, status, hstart⟩ :=
        startProcedure_of_defined hdef hfirst.1 hdepth supplied
      rw [hstart]
      refine ⟨⟨fun _ => ⟨⟨definition, sig, hfirst.1⟩, hdepth⟩, fun _ => rfl⟩,
        fun h => (by cases h), fun _ => ⟨definition, sig, _, status, hfirst, rfl, rfl, ?_, ?_, ?_⟩⟩
      · intro i name hi hlast
        rw [Thread.argument?_of_frame rfl rfl]
        exact get?_activation hi hlast
      · intro name hname
        rw [Thread.argument?_of_frame rfl rfl]
        exact get?_activation_of_notMem hname
      · exact fun name => rfl
    · obtain ⟨hfalse, hthread⟩ := startProcedure_of_refused code (.inr hdepth) supplied
      rw [hfalse]
      exact ⟨⟨fun h => (by cases h), fun h => absurd h.2 (Nat.not_lt.2 hdepth)⟩, fun _ => hthread,
        fun h => by cases h⟩

/-- The signature of a procedure with three arguments, two of one name, and two defaults. -/
def mixing : Signature := ⟨"mix %s %s %s", ["a", "b", "c"], ["n", "m", "n"], ["one", "two"], false⟩

/-- The program that defines it. -/
def recipe : Graph :=
  Graph.empty.run
    [.create { Block.detached "define" (.procedure .definition) with
        inputs := Table.empty.insert prototypeInput (.reporter ⟨1, 0⟩)
        topLevel := true },
      .create { Block.detached "prototype" (.procedure .prototype) with
        signature := some mixing
        parent := some ⟨0, 0⟩ }]

/-- Where the procedure is called. -/
def stove : Site := ⟨.create .standard, recipe, ⟨0, 0⟩, 0⟩

/-- A thread in the body of another procedure. -/
def kitchen : Scene Unit :=
  ⟨.blank .standard (), { Thread.start 1 0 ⟨0, 0⟩ with
    stack := [{ Frame.start ⟨0, 0⟩ false with
      arguments := some (Table.empty.insert "k" (.text "old")) }] }⟩

/-- What the call supplies. -/
def spices : Table String Value :=
  (Table.empty.insert "a" (.text "salt")).insert "c" (.text "pepper")

/-- The later position of the name counts, and the default stands in for what is not supplied. The
caller's own name is out of sight until the frame is popped. -/
theorem startProcedure_binds_recipe :
    stove.graph.Labelled ∧ stove.graph.Faithful ∧
      (kitchen.startProcedure stove "mix %s %s %s" spices).2 = true ∧
      ∃ t, (kitchen.startProcedure stove "mix %s %s %s" spices).1.thread = t ∧
        t.argument? "n" = some (.text "pepper") ∧ t.argument? "m" = some (.text "two") ∧
        t.argument? "k" = none ∧ t.pop.argument? "k" = some (.text "old") := by
  have hl : stove.graph.Labelled := Graph.labelled_run (by simp [Operation.KeepsLabels])
  have hf : stove.graph.Faithful := Graph.faithful_run _
  obtain ⟨hentered, -, hbound⟩ := startProcedure_binds hl hf kitchen "mix %s %s %s" spices
  have hmixing : stove.graph.DefinedAt "mix %s %s %s" ⟨0, 0⟩ mixing :=
    ⟨_, ⟨1, 0⟩, _, rfl, rfl, rfl, rfl, rfl, rfl⟩
  have htrue := hentered.2 ⟨⟨_, _, hmixing⟩, by decide⟩
  obtain ⟨h, sig, f, status, hfirst, -, -, hnames, hothers, hcaller⟩ := hbound htrue
  have hdef : stove.graph.definition? "mix %s %s %s" = some ⟨0, 0⟩ := by decide +kernel
  obtain rfl : ⟨0, 0⟩ = h :=
    Option.some.inj (hdef.symm.trans ((Graph.definition?_eq_some_iff hl hf).2 ⟨sig, hfirst⟩))
  obtain rfl := hfirst.1.unique hmixing
  refine ⟨hl, hf, htrue, _, rfl, (hnames 2 "n" rfl fun j hj => ?_).trans rfl,
    (hnames 1 "m" rfl fun j hj => ?_).trans rfl, hothers "k" (by decide), (hcaller "k").trans rfl⟩
  · rw [List.getElem?_eq_none (Nat.succ_le_of_lt hj)]
    exact fun he => by cases he
  · obtain rfl | hge : j = 2 ∨ 3 ≤ j := by omega
    · decide
    · rw [List.getElem?_eq_none hge]
      exact fun he => by cases he

end Scene

end Stagecraft
