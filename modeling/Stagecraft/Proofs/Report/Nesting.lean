import Stagecraft.Proofs.Report.Attempt
import Stagecraft.Proofs.Report.Memos
import Stagecraft.Proofs.Graph.Operation

/-!
# How deep reporters nest

The inputs of a block are evaluated by recursion into the reporters that are plugged into them, and
nothing keeps reporters from being plugged into each other in a circle. The recursion is stated here
without the room that bounds it: a depth is counted up, and a reporter at the limit fails. It still
ends, and its evaluations stand within each other no more than one deeper than the limit.

Reporters that are not shared and not in a circle unfold into a tree. If they would all give values,
then the limit is the only thing that can stop their evaluation, and it does so where a chain of
reporters within each other is longer. Otherwise the evaluation is plain recursion over the tree, in
which nothing is looked up and nothing is counted.

* `Scene.Gathers`, `Scene.Reports` : the recursion, and how deep its evaluations stand;
* `Scene.gathers_iff` : it ends in one way;
* `Unfolding` : reporters as a tree, with `Unfolding.eval` for plain evaluation;
* `Unfolding.exists_eval` : operations that give values are evaluated;
* `Scene.evaluate_exact` : **the nesting is cut exactly at the limit**.
-/

namespace Stagecraft

namespace Scene

variable {σ : Type}

/-! ### The recursion -/

/-- The value of a reporter that need not be run: the frame remembers it, or it is gone or a
menu. -/
def atHand? (site : Site) (s : Scene σ) (h : Handle) : Option Value :=
  match s.remembered? site.frame h with
  | some v => some v
  | none =>
    match site.graph.get? h with
    | none => some .blank
    | some b => if b.opcode.isMenu then some b.menuValue else none

mutual

/-- Inputs are evaluated in order. The first number counts the reporters around them; the second one
says how many evaluations of inputs stand within each other at a time, this one among them. -/
inductive Gathers (ext : Extensions σ) (site : Site) : Nat → Nat → List (String × Input) →
    List (String × Value) → Scene σ → Scene σ × Evaluation Args → Prop
  | done {depth : Nat} {done : List (String × Value)} {s : Scene σ} :
      Gathers ext site depth 1 [] done s (s, .value ⟨done.reverse⟩)
  | literal {depth n : Nat} {name : String} {v : Value} {rest : List (String × Input)}
      {done : List (String × Value)} {s : Scene σ} {r : Scene σ × Evaluation Args} :
      Gathers ext site depth n rest ((name, v) :: done) s r →
      Gathers ext site depth n ((name, .literal v) :: rest) done s r
  | branch {depth n : Nat} {name : String} {h : Handle} {rest : List (String × Input)}
      {done : List (String × Value)} {s : Scene σ} {r : Scene σ × Evaluation Args} :
      Gathers ext site depth n rest done s r →
      Gathers ext site depth n ((name, .branch h) :: rest) done s r
  | value {depth m n : Nat} {name : String} {h : Handle} {v : Value} {rest : List (String × Input)}
      {done : List (String × Value)} {s s' : Scene σ} {r : Scene σ × Evaluation Args} :
      Reports ext site depth m h s (s', .value v) →
      Gathers ext site depth n rest ((name, v) :: done) s' r →
      Gathers ext site depth (max (m + 1) n) ((name, .reporter h) :: rest) done s r
  | parked {depth m : Nat} {name : String} {h : Handle} {rest : List (String × Input)}
      {done : List (String × Value)} {s s' : Scene σ} :
      Reports ext site depth m h s (s', .parked) →
      Gathers ext site depth (m + 1) ((name, .reporter h) :: rest) done s (s', .parked)
  | failed {depth m : Nat} {name : String} {h : Handle} {fault : Fault}
      {rest : List (String × Input)} {done : List (String × Value)} {s s' : Scene σ} :
      Reports ext site depth m h s (s', .failed fault) →
      Gathers ext site depth (m + 1) ((name, .reporter h) :: rest) done s (s', .failed fault)

/-- A reporter that has to be run is evaluated with its inputs, which are at the next depth; at the
limit it fails. -/
inductive Reports (ext : Extensions σ) (site : Site) : Nat → Nat → Handle → Scene σ →
    Scene σ × Evaluation Value → Prop
  | atHand {depth : Nat} {h : Handle} {v : Value} {s : Scene σ} :
      s.atHand? site h = some v → Reports ext site depth 0 h s (s, .value v)
  | tooDeep {depth : Nat} {h : Handle} {s : Scene σ} :
      s.atHand? site h = none → site.scheduler.maxReporterDepth ≤ depth →
      Reports ext site depth 0 h s (s, .failed (.tooDeep depth))
  | nested {depth n : Nat} {h : Handle} {b : Block} {s : Scene σ} {r : Scene σ × Evaluation Args} :
      s.atHand? site h = none → depth < site.scheduler.maxReporterDepth →
      site.graph.get? h = some b → Gathers ext site (depth + 1) n b.inputs.entries [] s r →
      Reports ext site depth n h s (settle ext site h b.opcode r)

end

section Report

variable {ext : Extensions σ} {site : Site} {h : Handle} {b : Block} {v : Value} {s : Scene σ}

/-- Whatever is not at hand is a reporter. -/
theorem atHand?_eq_none_iff : s.atHand? site h = none ↔
    s.remembered? site.frame h = none ∧ ∃ b, site.graph.reporter? h = some b := by
  unfold atHand? Graph.reporter?
  cases s.remembered? site.frame h with
  | some v => simp
  | none =>
    cases site.graph.get? h with
    | none => simp
    | some b => cases hmenu : b.opcode.isMenu <;> simp [Option.filter, hmenu]

theorem get?_of_reporter? {g : Graph} (hb : g.reporter? h = some b) : g.get? h = some b :=
  (Option.filter_eq_some_iff.1 hb).1

theorem report_of_atHand (hv : s.atHand? site h = some v) (room : Nat) :
    report ext site room h s = (s, .value v) := by
  unfold atHand? at hv
  unfold report
  cases hmemo : s.remembered? site.frame h with
  | some value =>
    rw [hmemo] at hv
    cases hv
    rfl
  | none =>
    cases hb : site.graph.get? h with
    | none =>
      rw [hmemo, hb] at hv
      cases hv
      rfl
    | some b =>
      rw [hmemo, hb] at hv
      simp only at hv ⊢
      split at hv
      · rename_i hmenu
        cases hv
        rw [if_pos hmenu]
      · cases hv

theorem report_zero (hrun : s.atHand? site h = none) :
    report ext site 0 h s = (s, .failed (.tooDeep site.scheduler.maxReporterDepth)) := by
  obtain ⟨hmemo, b, hb⟩ := atHand?_eq_none_iff.1 hrun
  obtain ⟨hget, hmenu⟩ := Option.filter_eq_some_iff.1 hb
  have hmenu : b.opcode.isMenu = false := by simpa using hmenu
  unfold report
  simp only [hmemo, hget, hmenu, if_false, Bool.false_eq_true]

theorem report_succ (hrun : s.atHand? site h = none) (hget : site.graph.get? h = some b)
    (room : Nat) : report ext site (room + 1) h s =
      settle ext site h b.opcode (gather (report ext site room) b.inputs.entries [] s) := by
  obtain ⟨hmemo, b', hb⟩ := atHand?_eq_none_iff.1 hrun
  obtain ⟨hget', hmenu⟩ := Option.filter_eq_some_iff.1 hb
  cases hget.symm.trans hget'
  have hmenu : b.opcode.isMenu = false := by simpa using hmenu
  rw [report]
  simp only [hmemo, hget, hmenu, if_false, Bool.false_eq_true]

end Report

section Recursion

variable {ext : Extensions σ} {site : Site} {depth room : Nat}

/-- Inputs are evaluated in one way if each reporter is, and that is one deeper. -/
theorem gathers_iff_of {report : Handle → Scene σ → Scene σ × Evaluation Value}
    (hreport : ∀ h s, ∃ n ≤ room, ∀ m r,
      Reports ext site depth m h s r ↔ m = n ∧ r = report h s) (inputs : List (String × Input)) :
    ∀ done s, ∃ n ≤ room + 1, ∀ m r,
      Gathers ext site depth m inputs done s r ↔ m = n ∧ r = gather report inputs done s := by
  induction inputs with
  | nil =>
    refine fun done s => ⟨1, by omega, fun m r => ⟨fun hr => ?_, ?_⟩⟩
    · cases hr with
      | done => exact ⟨rfl, rfl⟩
    · rintro ⟨rfl, rfl⟩
      exact .done
  | cons e rest ih =>
    intro done s
    obtain ⟨name, input⟩ := e
    cases input with
    | literal v =>
      obtain ⟨n, hn, hrest⟩ := ih ((name, v) :: done) s
      refine ⟨n, hn, fun m r => ⟨fun hr => ?_, fun hr => .literal ((hrest m r).2 hr)⟩⟩
      cases hr with
      | literal hr => exact (hrest m r).1 hr
    | branch h =>
      obtain ⟨n, hn, hrest⟩ := ih done s
      refine ⟨n, hn, fun m r => ⟨fun hr => ?_, fun hr => .branch ((hrest m r).2 hr)⟩⟩
      cases hr with
      | branch hr => exact (hrest m r).1 hr
    | reporter h =>
      -- only a value leads on to the inputs after it
      obtain ⟨n, hn, hfirst⟩ := hreport h s
      rw [gather]
      generalize report h s = first at hfirst ⊢
      obtain ⟨s', e⟩ := first
      cases e with
      | value v =>
        obtain ⟨k, hk, hrest⟩ := ih ((name, v) :: done) s'
        refine ⟨max (n + 1) k, by omega, fun m r => ⟨fun hr => ?_, ?_⟩⟩
        · cases hr with
          | value hv hr =>
            obtain ⟨rfl, he⟩ := (hfirst _ _).1 hv
            cases he
            obtain ⟨rfl, rfl⟩ := (hrest _ _).1 hr
            exact ⟨rfl, rfl⟩
          | parked hv => cases ((hfirst _ _).1 hv).2
          | failed hv => cases ((hfirst _ _).1 hv).2
        · rintro ⟨rfl, rfl⟩
          exact .value ((hfirst _ _).2 ⟨rfl, rfl⟩) ((hrest _ _).2 ⟨rfl, rfl⟩)
      | parked =>
        refine ⟨n + 1, by omega, fun m r => ⟨fun hr => ?_, ?_⟩⟩
        · cases hr with
          | value hv _ => cases ((hfirst _ _).1 hv).2
          | parked hv =>
            obtain ⟨rfl, he⟩ := (hfirst _ _).1 hv
            cases he
            exact ⟨rfl, rfl⟩
          | failed hv => cases ((hfirst _ _).1 hv).2
        · rintro ⟨rfl, rfl⟩
          exact .parked ((hfirst _ _).2 ⟨rfl, rfl⟩)
      | failed fault =>
        refine ⟨n + 1, by omega, fun m r => ⟨fun hr => ?_, ?_⟩⟩
        · cases hr with
          | value hv _ => cases ((hfirst _ _).1 hv).2
          | parked hv => cases ((hfirst _ _).1 hv).2
          | failed hv =>
            obtain ⟨rfl, he⟩ := (hfirst _ _).1 hv
            cases he
            exact ⟨rfl, rfl⟩
        · rintro ⟨rfl, rfl⟩
          exact .failed ((hfirst _ _).2 ⟨rfl, rfl⟩)

theorem reports_iff_of_atHand {h : Handle} {v : Value} {s : Scene σ}
    (hv : s.atHand? site h = some v) {m : Nat} {r : Scene σ × Evaluation Value} :
    Reports ext site depth m h s r ↔ m = 0 ∧ r = (s, .value v) := by
  refine ⟨fun hr => ?_, ?_⟩
  · cases hr with
    | atHand hv' =>
      cases hv.symm.trans hv'
      exact ⟨rfl, rfl⟩
    | tooDeep hrun _ => cases hv.symm.trans hrun
    | nested hrun _ _ _ => cases hv.symm.trans hrun
  · rintro ⟨rfl, rfl⟩
    exact .atHand hv

/-- A reporter is evaluated in one way, and no deeper than there is room for. The room is what the
depth leaves of the limit, and this is an induction on it. -/
theorem reports_iff (room : Nat) : ∀ {depth : Nat},
    depth + room = site.scheduler.maxReporterDepth → ∀ h s, ∃ n ≤ room, ∀ m r,
      Reports ext site depth m h s r ↔ m = n ∧ r = report ext site room h s := by
  induction room with
  | zero =>
    intro depth hroom h s
    refine ⟨0, Nat.le_refl 0, fun m r => ?_⟩
    cases hv : s.atHand? site h with
    | some v =>
      rw [report_of_atHand hv]
      exact reports_iff_of_atHand hv
    | none =>
      rw [report_zero hv, ← hroom, Nat.add_zero]
      refine ⟨fun hr => ?_, ?_⟩
      · cases hr with
        | atHand hv' => cases hv.symm.trans hv'
        | tooDeep _ _ => exact ⟨rfl, rfl⟩
        | nested _ hlt _ _ => omega
      · rintro ⟨rfl, rfl⟩
        exact .tooDeep hv (by omega)
  | succ room ih =>
    intro depth hroom h s
    cases hv : s.atHand? site h with
    | some v =>
      refine ⟨0, Nat.zero_le _, fun m r => ?_⟩
      rw [report_of_atHand hv]
      exact reports_iff_of_atHand hv
    | none =>
      obtain ⟨-, b, hb⟩ := atHand?_eq_none_iff.1 hv
      have hget := get?_of_reporter? hb
      have hroom' : depth + 1 + room = site.scheduler.maxReporterDepth := by omega
      obtain ⟨n, hn, hinputs⟩ := gathers_iff_of (ih hroom') b.inputs.entries [] s
      refine ⟨n, hn, fun m r => ⟨fun hr => ?_, ?_⟩⟩
      · cases hr with
        | atHand hv' => cases hv.symm.trans hv'
        | tooDeep _ hle => omega
        | nested _ _ hget' hr =>
          cases hget.symm.trans hget'
          obtain ⟨rfl, rfl⟩ := (hinputs _ _).1 hr
          exact ⟨rfl, (report_succ hv hget room).symm⟩
      · rintro ⟨rfl, rfl⟩
        rw [report_succ hv hget]
        exact .nested hv (by omega) hget ((hinputs _ _).2 ⟨rfl, rfl⟩)

end Recursion

/-! ### Inputs of a block -/

/-- Evaluate the inputs of a block. -/
def evaluate (ext : Extensions σ) (site : Site) (b : Block) (s : Scene σ) :
    Scene σ × Evaluation Args :=
  gather (report ext site site.scheduler.maxReporterDepth) b.inputs.entries [] s

/-- **The evaluation of inputs ends**, in one way, and with no more evaluations within each other
than one more than the limit. -/
theorem gathers_iff (ext : Extensions σ) (site : Site) (b : Block) (s : Scene σ) :
    ∃ n ≤ site.scheduler.maxReporterDepth + 1, ∀ m r,
      Gathers ext site 0 m b.inputs.entries [] s r ↔ m = n ∧ r = evaluate ext site b s :=
  gathers_iff_of (reports_iff _ (Nat.zero_add _)) b.inputs.entries [] s

/-! ### What the frame remembers -/

section Memo

variable {s s' : Scene σ} {frame : Nat} {h x : Handle} {v w : Value}

theorem remembered?_eq (s : Scene σ) (frame : Nat) (h : Handle) :
    s.remembered? frame h = s.thread.memos[frame]?.bind (·.get? h) := by
  unfold remembered? Thread.frameAt? Thread.memos
  split
  · rename_i hlt
    rw [List.getElem?_reverse (by rwa [List.length_map]), List.length_map, List.getElem?_map,
      Option.bind_map]
    rfl
  · rename_i hge
    rw [List.getElem?_eq_none (by simpa using hge)]
    rfl

theorem remembered?_of_kept (hkept : s.thread.Kept s'.thread)
    (hv : s'.remembered? frame h = some v) : s.remembered? frame h = some v := by
  rw [remembered?_eq] at hv ⊢
  obtain ⟨memo, hmemo, hv⟩ := Option.bind_eq_some_iff.1 hv
  rcases hkept frame memo hmemo with rfl | hmemo
  · cases hv
  · rw [hmemo]
    exact hv

/-- A value that is kept for one reporter is none of the others. -/
theorem remembered?_remember_of_ne (hne : x ≠ h) :
    (s.remember frame h v).remembered? frame x = s.remembered? frame x := by
  unfold remembered? remember Thread.frameAt? Thread.modifyFrame
  by_cases hlt : frame < s.thread.stack.length
  · simp only [hlt, if_true, List.length_modify, List.getElem?_modify_eq]
    cases s.thread.stack[s.thread.stack.length - 1 - frame]? with
    | none => rfl
    | some f => exact Table.get?_insert_of_ne f.reported hne v
  · simp only [hlt, if_false]

end Memo

end Scene

/-! ### Trees of reporters -/

/-- The values for inputs as a tree: each is there already, or a reporter gives it once there are
values for its own inputs. -/
inductive Unfolding where
  | nil
  | value (name : String) (v : Value) (rest : Unfolding)
  | call (name : String) (h : Handle) (op : Opcode) (inputs rest : Unfolding)

namespace Unfolding

/-- How many reporters there are within each other. -/
def depth : Unfolding → Nat
  | nil => 0
  | value _ _ rest => rest.depth
  | call _ _ _ inputs rest => max (inputs.depth + 1) rest.depth

/-- The reporters, each after the ones plugged into it. -/
def handles : Unfolding → List Handle
  | nil => []
  | value _ _ rest => rest.handles
  | call _ h _ inputs rest => inputs.handles ++ h :: rest.handles

/-- The operations of the reporters. -/
def ops : Unfolding → List Opcode
  | nil => []
  | value _ _ rest => rest.ops
  | call _ _ op inputs rest => op :: (inputs.ops ++ rest.ops)

/-- Plain evaluation: each reporter is run with the values of its inputs, and what it gave is noted
on the frame. There is none if some reporter gives no value. -/
def eval {σ : Type} (ext : Extensions σ) (site : Site) :
    Unfolding → Scene σ → Option (Scene σ × List (String × Value))
  | nil, s => some (s, [])
  | value name v rest, s => (rest.eval ext site s).map fun r => (r.1, (name, v) :: r.2)
  | call name h op inputs rest, s =>
    (inputs.eval ext site s).bind fun given =>
      match Primitive.run ext op { site with block := h } ⟨given.2⟩ given.1 with
      | (s, .value v) =>
        (rest.eval ext site (s.remember site.frame h v)).map fun r => (r.1, (name, v) :: r.2)
      | (_, .done) => none
      | (_, .deferred _) => none
      | (_, .failed _) => none

end Unfolding

namespace Graph

/-- The tree of the reporters plugged into inputs. Blocks that are gone and menus are its leaves,
and so are literals; stacks do not come in it. -/
inductive Unfolds (g : Graph) : List (String × Input) → Unfolding → Prop
  | nil : g.Unfolds [] .nil
  | literal {name : String} {v : Value} {rest : List (String × Input)} {u : Unfolding} :
      g.Unfolds rest u → g.Unfolds ((name, .literal v) :: rest) (.value name v u)
  | branch {name : String} {h : Handle} {rest : List (String × Input)} {u : Unfolding} :
      g.Unfolds rest u → g.Unfolds ((name, .branch h) :: rest) u
  | missing {name : String} {h : Handle} {rest : List (String × Input)} {u : Unfolding} :
      g.get? h = none → g.Unfolds rest u →
      g.Unfolds ((name, .reporter h) :: rest) (.value name .blank u)
  | menu {name : String} {h : Handle} {b : Block} {rest : List (String × Input)} {u : Unfolding} :
      g.get? h = some b → b.opcode.isMenu = true → g.Unfolds rest u →
      g.Unfolds ((name, .reporter h) :: rest) (.value name b.menuValue u)
  | call {name : String} {h : Handle} {b : Block} {rest : List (String × Input)}
      {inputs u : Unfolding} :
      g.reporter? h = some b → g.Unfolds b.inputs.entries inputs → g.Unfolds rest u →
      g.Unfolds ((name, .reporter h) :: rest) (.call name h b.opcode inputs u)

/-- Reporters of which each is plugged into the one before, and the first one is among those
given. -/
inductive Chain (g : Graph) : List Handle → List Handle → Prop
  | nil {l : List Handle} : g.Chain l []
  | cons {l c : List Handle} {h : Handle} {b : Block} : h ∈ l → g.reporter? h = some b →
      g.Chain (plugged b.inputs.entries) c → g.Chain l (h :: c)

section Unfolds

variable {g : Graph} {h : Handle} {b : Block} {inputs : List (String × Input)} {u : Unfolding}

@[simp] theorem plugged_reporter (name : String) (h : Handle) (rest : List (String × Input)) :
    plugged ((name, .reporter h) :: rest) = h :: plugged rest := rfl

theorem reporter?_of_missing (hget : g.get? h = none) : g.reporter? h = none := by
  rw [reporter?, hget, Option.filter_none]

theorem reporter?_of_menu (hget : g.get? h = some b) (hmenu : b.opcode.isMenu = true) :
    g.reporter? h = none := by
  simp [reporter?, hget, hmenu]

/-- A reporter in the tree has a tree of its own. -/
theorem Unfolds.exists_below (hu : g.Unfolds inputs u) (hh : h ∈ plugged inputs)
    (hb : g.reporter? h = some b) : ∃ v, g.Unfolds b.inputs.entries v ∧ v.depth < u.depth := by
  -- a leaf is not this reporter, so it is further on
  have hleaf : ∀ {c : Handle} {rest : List Handle}, g.reporter? c = none → h ∈ c :: rest →
      h ∈ rest := by
    intro c rest hc hh
    rcases List.mem_cons.1 hh with rfl | hh
    · cases hb.symm.trans hc
    · exact hh
  induction hu with
  | nil => cases hh
  | literal _ ih => exact ih hh
  | branch _ ih => exact ih hh
  | missing hget _ ih => exact ih (hleaf (reporter?_of_missing hget) hh)
  | menu hget hmenu _ ih => exact ih (hleaf (reporter?_of_menu hget hmenu) hh)
  | call hb' hbelow _ _ ih =>
    rw [Unfolding.depth]
    rcases List.mem_cons.1 hh with rfl | hh
    · cases hb.symm.trans hb'
      exact ⟨_, hbelow, by omega⟩
    · obtain ⟨v, hv, hlt⟩ := ih hh
      exact ⟨v, hv, by omega⟩

theorem Chain.subset {l l' c : List Handle} (hc : g.Chain l c) (hl : l ⊆ l') : g.Chain l' c := by
  cases hc with
  | nil => exact .nil
  | cons hh hb hrest => exact .cons (hl hh) hb hrest

theorem Unfolds.call_of_eq {name : String} {op : Opcode} {rest below : List (String × Input)}
    {v : Unfolding} (hb : (g.reporter? h).map (fun b => (b.opcode, b.inputs.entries)) =
      some (op, below)) (hv : g.Unfolds below v) (hu : g.Unfolds rest u) :
    g.Unfolds ((name, .reporter h) :: rest) (.call name h op v u) := by
  obtain ⟨b, hb', he⟩ := Option.map_eq_some_iff.1 hb
  cases he
  exact .call hb' hv hu

/-- No chain is longer than the tree is deep. -/
theorem Chain.length_le {c l : List Handle} (hc : g.Chain l c) :
    ∀ {inputs : List (String × Input)} {u : Unfolding}, l = plugged inputs → g.Unfolds inputs u →
      c.length ≤ u.depth := by
  induction hc with
  | nil => exact fun _ _ => Nat.zero_le _
  | cons hh hb _ ih =>
    intro inputs u hl hu
    subst hl
    obtain ⟨v, hv, hlt⟩ := hu.exists_below hh hb
    exact Nat.lt_of_le_of_lt (ih rfl hv) hlt

/-- Some chain is as long. -/
theorem Unfolds.exists_chain (hu : g.Unfolds inputs u) :
    ∃ c, g.Chain (plugged inputs) c ∧ c.length = u.depth := by
  induction hu with
  | nil => exact ⟨[], .nil, rfl⟩
  | literal _ ih => exact ih
  | branch _ ih => exact ih
  | missing _ _ ih | menu _ _ _ ih =>
    obtain ⟨c, hc, hlen⟩ := ih
    exact ⟨c, hc.subset (List.subset_cons_self _ _), hlen⟩
  | @call name h b rest inputs u hb _ _ ihb ih =>
    rw [Unfolding.depth]
    rcases Nat.le_total (inputs.depth + 1) u.depth with hle | hle
    · obtain ⟨c, hc, hlen⟩ := ih
      exact ⟨c, hc.subset (List.subset_cons_self _ _), by omega⟩
    · obtain ⟨c, hc, hlen⟩ := ihb
      exact ⟨h :: c, .cons List.mem_cons_self hb hc, by rw [List.length_cons]; omega⟩

/-- The tree is deeper than a limit if some chain is longer. -/
theorem Unfolds.lt_depth_iff (hu : g.Unfolds inputs u) {limit : Nat} :
    limit < u.depth ↔ ∃ c, g.Chain (plugged inputs) c ∧ limit < c.length := by
  refine ⟨fun hlt => ?_, fun ⟨c, hc, hlt⟩ => Nat.lt_of_lt_of_le hlt (hc.length_le rfl hu)⟩
  obtain ⟨c, hc, hlen⟩ := hu.exists_chain
  exact ⟨c, hc, hlen ▸ hlt⟩

theorem exists_unfolds_of {limit : Nat}
    (hbelow : ∀ {h : Handle} {b : Block}, g.nests limit h = true → g.reporter? h = some b →
      ∃ u, g.Unfolds b.inputs.entries u ∧ u.depth < limit ∧
        u.handles ++ [h] = g.postorder limit h) (inputs : List (String × Input))
    (hnests : ∀ h ∈ plugged inputs, g.nests limit h = true) :
    ∃ u, g.Unfolds inputs u ∧ u.depth ≤ limit ∧
      u.handles = (plugged inputs).flatMap (g.postorder limit) := by
  induction inputs with
  | nil => exact ⟨.nil, .nil, Nat.zero_le _, rfl⟩
  | cons e rest ih =>
    obtain ⟨name, input⟩ := e
    cases input with
    | literal v =>
      obtain ⟨u, hu, hdepth, hhandles⟩ := ih hnests
      exact ⟨.value name v u, .literal hu, hdepth, hhandles⟩
    | branch h =>
      obtain ⟨u, hu, hdepth, hhandles⟩ := ih hnests
      exact ⟨u, .branch hu, hdepth, hhandles⟩
    | reporter h =>
      obtain ⟨u, hu, hdepth, hhandles⟩ := ih fun c hc => hnests c (List.mem_cons_of_mem _ hc)
      rw [plugged_reporter, List.flatMap_cons, ← hhandles]
      cases hb : g.reporter? h with
      | some b =>
        obtain ⟨v, hv, hlt, hown⟩ := hbelow (hnests h List.mem_cons_self) hb
        refine ⟨.call name h b.opcode v u, .call hb hv hu, Nat.max_le.2 ⟨hlt, hdepth⟩, ?_⟩
        rw [Unfolding.handles, ← hown, List.append_assoc, List.singleton_append]
      | none =>
        rw [postorder_of_none hb, List.nil_append]
        cases hget : g.get? h with
        | none => exact ⟨.value name .blank u, .missing hget hu, hdepth, rfl⟩
        | some b =>
          have hmenu : b.opcode.isMenu = true := by simpa [reporter?, hget] using hb
          exact ⟨.value name b.menuValue u, .menu hget hmenu hu, hdepth, rfl⟩

/-- Reporters that nest within a limit are a tree that is no deeper. -/
theorem exists_unfolds (limit : Nat) : ∀ inputs : List (String × Input),
    (∀ h ∈ plugged inputs, g.nests limit h = true) →
    ∃ u, g.Unfolds inputs u ∧ u.depth ≤ limit ∧
      u.handles = (plugged inputs).flatMap (g.postorder limit) := by
  induction limit with
  | zero =>
    refine exists_unfolds_of fun hn hb => ?_
    obtain ⟨room, hroom⟩ := room_of_nests hn hb
    cases hroom
  | succ limit ih =>
    refine exists_unfolds_of fun hn hb => ?_
    obtain ⟨u, hu, hdepth, hhandles⟩ := ih _ fun c hc => nests_of_plugged hn hb hc
    exact ⟨u, hu, Nat.lt_succ_of_le hdepth, by rw [hhandles, postorder_of_some hb]⟩

end Unfolds

end Graph

/-! ### Evaluation of a tree -/

namespace Unfolding

variable {σ : Type} {ext : Extensions σ} {site : Site} {s s' : Scene σ}

/-- What plain evaluation of a reporter and what follows it came to. -/
theorem eval_call {name : String} {h : Handle} {op : Opcode} {inputs rest : Unfolding}
    {args : List (String × Value)}
    (he : (call name h op inputs rest).eval ext site s = some (s', args)) :
    ∃ s₁ given s₂ v later, inputs.eval ext site s = some (s₁, given) ∧
      Primitive.run ext op { site with block := h } ⟨given⟩ s₁ = (s₂, .value v) ∧
      rest.eval ext site (s₂.remember site.frame h v) = some (s', later) ∧
      args = (name, v) :: later := by
  rw [eval] at he
  obtain ⟨⟨s₁, given⟩, hgiven, he⟩ := Option.bind_eq_some_iff.1 he
  rcases hrun : Primitive.run ext op { site with block := h } ⟨given⟩ s₁ with ⟨s₂, o⟩
  simp only [hrun] at he
  cases o with
  | value v =>
    obtain ⟨⟨s₃, later⟩, hlater, he⟩ := Option.map_eq_some_iff.1 he
    cases he
    exact ⟨s₁, given, s₂, v, later, hgiven, hrun, hlater, rfl⟩
  | done => cases he
  | deferred channel => cases he
  | failed fault => cases he

/-- Operations that give values make a tree that is evaluated. -/
theorem exists_eval (u : Unfolding) (hops : ∀ op ∈ u.ops, ∀ site args (s : Scene σ),
    ∃ v, (Primitive.run ext op site args s).2 = .value v) :
    ∀ s, ∃ r, u.eval ext site s = some r := by
  induction u with
  | nil => exact fun s => ⟨(s, []), rfl⟩
  | value name v rest ih =>
    intro s
    obtain ⟨r, hr⟩ := ih hops s
    exact ⟨_, Option.map_eq_some_iff.2 ⟨r, hr, rfl⟩⟩
  | call name h op inputs rest ihb ih =>
    intro s
    obtain ⟨hop, hrest⟩ := List.forall_mem_cons.1 hops
    obtain ⟨hinputs, hrest⟩ := List.forall_mem_append.1 hrest
    obtain ⟨⟨s₁, given⟩, hgiven⟩ := ihb hinputs s
    obtain ⟨v, hv⟩ := hop { site with block := h } ⟨given⟩ s₁
    rcases hrun : Primitive.run ext op { site with block := h } ⟨given⟩ s₁ with ⟨s₂, o⟩
    rw [hrun] at hv
    cases hv
    obtain ⟨r, hr⟩ := ih hrest (s₂.remember site.frame h v)
    refine ⟨(r.1, (name, v) :: r.2), Option.bind_eq_some_iff.2 ⟨_, hgiven, ?_⟩⟩
    simp only [hrun, hr, Option.map_some]

end Unfolding

namespace Scene

variable {σ : Type} {ext : Extensions σ} {site : Site} {s s' : Scene σ} {l l' : List Handle}

/-- The frame remembers reporters only, and none of these. -/
def Unnoted (site : Site) (l : List Handle) (s : Scene σ) : Prop :=
  ∀ h v, s.remembered? site.frame h = some v → (site.graph.reporter? h).isSome = true ∧ h ∉ l

namespace Unnoted

theorem subset (hs : Unnoted site l s) (hl : l' ⊆ l) : Unnoted site l' s :=
  fun h v hv => ⟨(hs h v hv).1, fun hh => (hs h v hv).2 (hl hh)⟩

theorem atHand? (hs : Unnoted site l s) {h : Handle} (hh : h ∈ l) {b : Block}
    (hb : site.graph.reporter? h = some b) : s.atHand? site h = none := by
  refine atHand?_eq_none_iff.2 ⟨Option.eq_none_iff_forall_ne_some.2 fun v hv => ?_, b, hb⟩
  exact (hs h v hv).2 hh

/-- Nothing is remembered of a leaf. -/
theorem remembered?_eq_none (hs : Unnoted site l s) {h : Handle}
    (hb : site.graph.reporter? h = none) : s.remembered? site.frame h = none := by
  refine Option.eq_none_iff_forall_ne_some.2 fun v hv => ?_
  have hrun := (hs h v hv).1
  rw [hb] at hrun
  cases hrun

/-- A reporter is run, and its value noted. -/
theorem remember (hext : ext.Oblivious) {h : Handle} {b : Block} {op : Opcode} {args : Args}
    {o : Outcome} {v : Value} (hs : Unnoted site (h :: l) s) (hh : h ∉ l)
    (hb : site.graph.reporter? h = some b)
    (hrun : Primitive.run ext op { site with block := h } args s = (s', o)) :
    Unnoted site l (s'.remember site.frame h v) := by
  intro x w hx
  by_cases hne : x = h
  · subst hne
    exact ⟨by rw [hb]; rfl, hh⟩
  · rw [remembered?_remember_of_ne hne] at hx
    have hkept := Primitive.kept_run { site with block := h } args s hext op
    rw [hrun] at hkept
    obtain ⟨hreporter, hnot⟩ := hs x w (remembered?_of_kept hkept hx)
    exact ⟨hreporter, fun hx => hnot (List.mem_cons_of_mem _ hx)⟩

/-- Plain evaluation notes values of the reporters in the tree only. -/
theorem eval (hext : ext.Oblivious) {inputs : List (String × Input)} {u : Unfolding}
    (hu : site.graph.Unfolds inputs u) : ∀ {l : List Handle} {s s' : Scene σ}
      {args : List (String × Value)}, Unnoted site (u.handles ++ l) s → (u.handles ++ l).Nodup →
      u.eval ext site s = some (s', args) → Unnoted site l s' := by
  induction hu with
  | nil =>
    intro l s s' args hs _ he
    cases he
    exact hs
  | literal _ ih | missing _ _ ih | menu _ _ _ ih =>
    intro l s s' args hs hnodup he
    obtain ⟨r, hr, he⟩ := Option.map_eq_some_iff.1 he
    cases he
    exact ih hs hnodup hr
  | branch _ ih => exact ih
  | call hb _ _ ihb ih =>
    intro l s s' args hs hnodup he
    obtain ⟨s₁, given, s₂, v, later, hgiven, hrun, hlater, -⟩ := Unfolding.eval_call he
    rw [Unfolding.handles, List.append_assoc, List.cons_append] at hs hnodup
    have hs₁ := ihb hs hnodup hgiven
    obtain ⟨hh, hnodup⟩ := List.nodup_cons.1 hnodup.of_append_right
    exact ih (hs₁.remember hext hh hb hrun) hnodup hlater

end Unnoted

section Gather

variable {report : Handle → Scene σ → Scene σ × Evaluation Value} {name : String} {h : Handle}
  {rest : List (String × Input)} {done : List (String × Value)}

theorem gather_of_value {v : Value} (hr : report h s = (s', .value v)) :
    gather report ((name, .reporter h) :: rest) done s =
      gather report rest ((name, v) :: done) s' := by
  rw [gather, hr]

theorem gather_of_failed {fault : Fault} (hr : (report h s).2 = .failed fault) :
    (gather report ((name, .reporter h) :: rest) done s).2 = .failed fault := by
  rw [gather]
  rcases hs : report h s with ⟨s', e⟩
  rw [hs] at hr
  cases hr
  rfl

theorem settle_of_failed {op : Opcode} {fault : Fault} {r : Scene σ × Evaluation Args}
    (hr : r.2 = .failed fault) : (settle ext site h op r).2 = .failed fault := by
  obtain ⟨s, e⟩ := r
  cases hr
  rfl

end Gather

/-- **A tree of reporters is evaluated plainly, or cut at the limit.** -/
theorem gather_of_unfolds (hext : ext.Oblivious) {inputs : List (String × Input)} {u : Unfolding}
    (hu : site.graph.Unfolds inputs u) : ∀ (room : Nat) (done : List (String × Value))
      {s s' : Scene σ} {args : List (String × Value)}, Unnoted site u.handles s →
      u.handles.Nodup → u.eval ext site s = some (s', args) →
      (u.depth ≤ room →
        gather (report ext site room) inputs done s = (s', .value ⟨done.reverse ++ args⟩)) ∧
      (room < u.depth → (gather (report ext site room) inputs done s).2 =
        .failed (.tooDeep site.scheduler.maxReporterDepth)) := by
  induction hu with
  | nil =>
    intro room done s s' args _ _ he
    cases he
    exact ⟨fun _ => by rw [gather, List.append_nil], fun hlt => by cases hlt⟩
  | @literal name v rest u _ ih =>
    intro room done s s' args hs hnodup he
    obtain ⟨r, hr, he⟩ := Option.map_eq_some_iff.1 he
    cases he
    obtain ⟨hvalue, hdeep⟩ := ih room ((name, v) :: done) hs hnodup hr
    refine ⟨fun hle => ?_, hdeep⟩
    rw [gather, hvalue hle, List.reverse_cons, List.append_assoc, List.singleton_append]
  | branch _ ih => exact ih
  | @missing name h rest u hget _ ih =>
    intro room done s s' args hs hnodup he
    obtain ⟨r, hr, he⟩ := Option.map_eq_some_iff.1 he
    cases he
    obtain ⟨hvalue, hdeep⟩ := ih room ((name, .blank) :: done) hs hnodup hr
    have hleaf : s.atHand? site h = some .blank := by
      simp [Scene.atHand?, hs.remembered?_eq_none (Graph.reporter?_of_missing hget), hget]
    rw [gather_of_value (report_of_atHand hleaf room)]
    refine ⟨fun hle => ?_, hdeep⟩
    rw [hvalue hle, List.reverse_cons, List.append_assoc, List.singleton_append]
  | @menu name h b rest u hget hmenu _ ih =>
    intro room done s s' args hs hnodup he
    obtain ⟨r, hr, he⟩ := Option.map_eq_some_iff.1 he
    cases he
    obtain ⟨hvalue, hdeep⟩ := ih room ((name, b.menuValue) :: done) hs hnodup hr
    have hleaf : s.atHand? site h = some b.menuValue := by
      simp [Scene.atHand?, hs.remembered?_eq_none (Graph.reporter?_of_menu hget hmenu), hget, hmenu]
    rw [gather_of_value (report_of_atHand hleaf room)]
    refine ⟨fun hle => ?_, hdeep⟩
    rw [hvalue hle, List.reverse_cons, List.append_assoc, List.singleton_append]
  | @call name h b rest inputs u hb hbelow _ ihb ih =>
    intro room done s s' args hs hnodup he
    obtain ⟨s₁, given, s₂, v, later, hgiven, hrun, hlater, rfl⟩ := Unfolding.eval_call he
    rw [Unfolding.handles] at hs hnodup
    rw [Unfolding.depth]
    have hat : s.atHand? site h = none :=
      hs.atHand? (List.mem_append_right _ List.mem_cons_self) hb
    have hget := get?_of_reporter? hb
    cases room with
    | zero =>
      -- there is no room for the reporter itself
      refine ⟨fun hle => by omega, fun _ => gather_of_failed ?_⟩
      rw [report_zero hat]
    | succ room =>
      obtain ⟨hvalue, hdeep⟩ := ihb room [] (hs.subset (List.subset_append_left _ _))
        hnodup.of_append_left hgiven
      by_cases hle : inputs.depth ≤ room
      · -- the reporter gives its value, and the inputs after it decide
        have hreport : report ext site (room + 1) h s = (s₂.remember site.frame h v, .value v) := by
          rw [report_succ hat hget, hvalue hle, List.reverse_nil, List.nil_append, settle]
          simp only [hrun]
        obtain ⟨hh, hnodup'⟩ := List.nodup_cons.1 hnodup.of_append_right
        have hs₂ : Unnoted site u.handles (s₂.remember site.frame h v) :=
          (hs.eval hext hbelow hnodup hgiven).remember hext hh hb hrun
        obtain ⟨hvalue', hdeep'⟩ := ih (room + 1) ((name, v) :: done) hs₂ hnodup' hlater
        rw [gather_of_value hreport]
        refine ⟨fun hle' => ?_, fun hlt => hdeep' (by omega)⟩
        rw [hvalue' (by omega), List.reverse_cons, List.append_assoc, List.singleton_append]
      · -- the limit is reached further in
        refine ⟨fun hle' => by omega, fun _ => gather_of_failed ?_⟩
        rw [report_succ hat hget]
        exact settle_of_failed (hdeep (by omega))

end Scene

/-- The site in a pass under these settings. -/
def Site.tuned (site : Site) (settings : Settings) : Site :=
  { site with scheduler := site.scheduler.configure settings }

namespace Scene

variable {σ : Type}

/-- **The nesting is cut exactly at the limit.** However the reporters are plugged into each other,
evaluating the inputs of a block ends, and no more evaluations stand within each other than one more
than the limit. Now let the reporters be a tree, none of them remembered, and all give values in
plain evaluation: then it fails for being too deep if and only if some chain of reporters within
each other is longer than the limit, and otherwise comes to what plain evaluation comes to. -/
theorem evaluate_exact (ext : Extensions σ) (settings : Settings) (site : Site) (b : Block)
    (s : Scene σ) :
    (∃ n ≤ settings.reporterDepth + 1, ∀ m r,
      Gathers ext (site.tuned settings) 0 m b.inputs.entries [] s r ↔
        m = n ∧ r = evaluate ext (site.tuned settings) b s) ∧
    ∀ u, site.graph.Unfolds b.inputs.entries u → u.handles.Nodup →
      (∀ h, s.remembered? site.frame h = none) → ext.Oblivious →
      ∀ s' args, u.eval ext (site.tuned settings) s = some (s', args) →
        ((evaluate ext (site.tuned settings) b s).2 = .failed (.tooDeep settings.reporterDepth) ↔
          ∃ c, site.graph.Chain (plugged b.inputs.entries) c ∧ settings.reporterDepth < c.length) ∧
        ((¬∃ c, site.graph.Chain (plugged b.inputs.entries) c ∧
            settings.reporterDepth < c.length) →
          evaluate ext (site.tuned settings) b s = (s', .value ⟨args⟩)) := by
  refine ⟨gathers_iff ext (site.tuned settings) b s, ?_⟩
  intro u hu hnodup hnew hext s' args he
  have hs : Unnoted (site.tuned settings) u.handles s := fun h v hv => by
    cases (hnew h).symm.trans hv
  have hu' : (site.tuned settings).graph.Unfolds b.inputs.entries u := hu
  obtain ⟨hvalue, hdeep⟩ := gather_of_unfolds hext hu' settings.reporterDepth [] hs hnodup he
  rw [← hu.lt_depth_iff]
  refine ⟨⟨fun hfailed => ?_, hdeep⟩, fun hle => hvalue (Nat.le_of_not_lt hle)⟩
  refine Nat.lt_of_not_le fun hle => ?_
  have heval : evaluate ext (site.tuned settings) b s = (s', .value ⟨args⟩) := hvalue hle
  rw [heval] at hfailed
  cases hfailed

/-! One negation after the other is plugged into a command, where two of them are allowed. -/

/-- A command that is given what a reporter gives. -/
def taking (label : String) (h : Handle) : Block :=
  { Block.detached label (.data .setVariable) with
    inputs := Table.empty.insert "VALUE" (.reporter h) }

/-- A negation of what is plugged into it. -/
def negating (label : String) (i : Input) : Block :=
  { Block.detached label (.operator .not) with inputs := Table.empty.insert "OPERAND" i }

/-- Three negations within each other, the innermost one last, and commands that take the outermost
one and the next. -/
def negations : Graph :=
  Graph.empty.run
    [.create (taking "outer" ⟨2, 0⟩), .create (taking "inner" ⟨3, 0⟩),
      .create (negating "third" (.reporter ⟨3, 0⟩)),
      .create (negating "second" (.reporter ⟨4, 0⟩)),
      .create (negating "first" (.literal (.flag true)))]

/-- So many negations as a tree. -/
def negated (name : String) : Nat → Unfolding
  | 0 => .value name (.flag true) .nil
  | n + 1 => .call name ⟨4 - n, 0⟩ (.operator .not) (negated "OPERAND" n) .nil

/-- Two reporters may be within each other. -/
def shallow : Settings := { Settings.standard with maxReporterDepth := 2 }

/-- Where the commands are executed. -/
def negationSite : Site := ⟨.create .standard, negations, ⟨0, 0⟩, 0⟩

/-- The scene they are executed in. -/
def negationScene : Scene Unit := ⟨.blank shallow (), Thread.start 0 0 ⟨0, 0⟩⟩

theorem unfolds_negated (name : String) :
    negations.Unfolds [(name, .reporter ⟨3, 0⟩)] (negated name 2) := by
  have hlast : negations.Unfolds [("OPERAND", .reporter ⟨4, 0⟩)] (negated "OPERAND" 1) :=
    .call_of_eq (by decide +kernel) (.literal .nil) .nil
  exact .call_of_eq (by decide +kernel) hlast .nil

/-- Two negations are evaluated, and three are too deep. -/
theorem evaluate_exact_negations :
    (evaluate .empty (negationSite.tuned shallow) (taking "inner" ⟨3, 0⟩) negationScene).2 =
      .value ⟨[("VALUE", .flag true)]⟩ ∧
    (evaluate .empty (negationSite.tuned shallow) (taking "outer" ⟨2, 0⟩) negationScene).2 =
      .failed (.tooDeep 2) := by
  have hext : Extensions.Oblivious (.empty : Extensions Unit) := fun h => by cases h
  have hinner : negations.Unfolds (taking "inner" ⟨3, 0⟩).inputs.entries (negated "VALUE" 2) :=
    unfolds_negated "VALUE"
  have houter : negations.Unfolds (taking "outer" ⟨2, 0⟩).inputs.entries (negated "VALUE" 3) :=
    .call_of_eq (by decide +kernel) (unfolds_negated "OPERAND") .nil
  have hvalue : ((negated "VALUE" 2).eval .empty (negationSite.tuned shallow) negationScene).map
      (·.2) = some [("VALUE", .flag true)] := by decide +kernel
  have hvalue' : ((negated "VALUE" 3).eval .empty (negationSite.tuned shallow) negationScene).map
      (·.2) = some [("VALUE", .flag false)] := by decide +kernel
  obtain ⟨⟨s, args⟩, hs, rfl⟩ := Option.map_eq_some_iff.1 hvalue
  obtain ⟨⟨s', args'⟩, hs', -⟩ := Option.map_eq_some_iff.1 hvalue'
  refine ⟨?_, ?_⟩
  · obtain ⟨-, hexact⟩ :=
      evaluate_exact .empty shallow negationSite (taking "inner" ⟨3, 0⟩) negationScene
    obtain ⟨-, hplain⟩ := hexact _ hinner (by decide) (fun _ => rfl) hext s _ hs
    rw [hplain (mt hinner.lt_depth_iff.2 (by decide))]
  · obtain ⟨-, hexact⟩ :=
      evaluate_exact .empty shallow negationSite (taking "outer" ⟨2, 0⟩) negationScene
    obtain ⟨hdeep, -⟩ := hexact _ houter (by decide) (fun _ => rfl) hext s' args' hs'
    exact hdeep.2 (houter.lt_depth_iff.1 (by decide))

end Scene

end Stagecraft
