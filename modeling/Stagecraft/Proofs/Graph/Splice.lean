import Stagecraft.Proofs.Graph.Attach

/-!
# A move splices

In a program whose links fit together a move takes a block out of its place, with the blocks after
it and all that is plugged into it, and puts it somewhere else. No block is lost and no block is
changed but for links. The rest of the chain that it is put into is hung behind the last of the
moved blocks, and what it pushes out of an input starts a script of its own.

* `Graph.Fitting` : links lead to live blocks, each block is referred to in one place, parents fit
  and end;
* `Graph.Fitting.next?_cutOff`, `Graph.Fitting.input?_cutOff` : cutting a block off cuts all links
  to it;
* `Graph.splice_of_move` : **where every link leads after a move**, wherever the block came from.
-/

namespace Stagecraft

namespace Block

variable {b : Block} {c h : Handle}

theorem not_doubled_of_nodup (hn : b.children.Nodup) : ¬(b.next = some h ∧ h ∈ b.inputBlocks) := by
  rintro ⟨hnext, hin⟩
  rw [children, hnext] at hn
  exact (List.nodup_cons.1 hn).1 hin

/-- A block is in one input at most. -/
theorem input_unique (hn : b.inputBlocks.Nodup) {name name' : String} {input input' : Input}
    (hi : b.inputs.get? name = some input) (hi' : b.inputs.get? name' = some input')
    (hb : input.block? = some c) (hb' : input'.block? = some c) : name = name' := by
  rw [inputBlocks, Table.values, List.filterMap_map, List.Nodup, List.pairwise_filterMap] at hn
  let Apart (e e' : String × Input) : Prop :=
    ∀ x, e.2.block? = some x → ∀ x', e'.2.block? = some x' → x ≠ x'
  have hrows : b.inputs.entries.Pairwise Apart := hn
  have : Std.Symm Apart := ⟨fun _ _ h x hx x' hx' => (h x' hx' x hx).symm⟩
  have hrow := (Table.get?_eq_some_iff b.inputs name input).1 hi
  have hrow' := (Table.get?_eq_some_iff b.inputs name' input').1 hi'
  by_contra hne
  exact hrows.forall hrow hrow' (fun he => hne (congrArg Prod.fst he)) c hb c hb' rfl

end Block

namespace Graph

/-- The links of a program fit together. The first block of a script may still have a parent. -/
structure Fitting (g : Graph) : Prop where
  /-- Every reference leads to a live block. -/
  live : ∀ p, ∀ c ∈ g.children p, g.contains c = true
  /-- No block refers to a block in two places. -/
  once : ∀ p, (g.children p).Nodup
  /-- A block is the parent of exactly the blocks that it refers to. -/
  parent_iff : ∀ c p, g.parent? c = some p ↔ c ∈ g.children p
  /-- Chains of parents end. -/
  rooted : ∀ x, g.Rooted x

variable {g g' : Graph} {h p c d n e x y : Handle} {b : Block} {l r : List Handle}
  {name m : String}

theorem WellFormed.fitting (hw : g.WellFormed) : g.Fitting := by
  have hf := wellFormed_iff_forest.1 hw
  exact ⟨fun _ _ => hf.live, hf.nodup, fun _ _ => hf.parent_iff, hf.rooted⟩

namespace Fitting

/-- What is reached from a block is below it. -/
theorem below_of_reaches (hf : g.Fitting) (hr : g.Reaches h x) : g.Below x h := by
  induction hr with
  | refl => exact Below.refl g h
  | tail _ hc ih => exact Below.parent ((hf.parent_iff _ _).2 hc) ih

theorem acyclic (hf : g.Fitting) : g.Acyclic := by
  intro x hcycle
  obtain ⟨p, hp, hc⟩ := Relation.TransGen.tail'_iff.1 hcycle
  exact (hf.rooted x).not_below p ((hf.parent_iff x p).2 hc) (hf.below_of_reaches hp)

theorem parent?_of_next? (hf : g.Fitting) (hn : g.next? x = some n) : g.parent? n = some x :=
  (hf.parent_iff n x).2 (mem_children_of_next? hn)

/-- Every walk along successors comes to an end, also where some links are cut. -/
theorem exists_strand (hf : g.Fitting) {g' : Graph}
    (hsub : ∀ x n, g'.next? x = some n → g.next? x = some n) (h : Handle) : ∃ l, g'.Strand h l := by
  refine exists_trail (g := g) (fun y z hz => contains_of_next? (hsub y z hz)) fun y _ hcycle => ?_
  refine hf.acyclic y (Relation.TransGen.mono (fun x n hn => ?_) _ _ hcycle)
  exact mem_children_of_next? (hsub x n hn)

/-- A block that comes after another one is below it. -/
theorem below_of_strand (hf : g.Fitting) (hs : g.Strand h l) (hx : x ∈ l) : g.Below x h :=
  hf.below_of_reaches (hs.reflTransGen (fun _ _ _ hn => mem_children_of_next? hn) hx)

/-! ### Cutting a block off -/

/-- No successor is left that leads to the block. -/
theorem next?_cutOff (hf : g.Fitting) (h x : Handle) :
    (g.cutOff h).next? x = (g.next? x).filter (· ≠ h) := by
  rw [Graph.next?_cutOff]
  cases hn : g.next? x with
  | none => simp
  | some n =>
    by_cases hnh : n = h
    · subst hnh
      simp [hf.parent?_of_next? hn, Option.filter]
    · simp [hnh, Option.filter]

theorem next?_of_cutOff (hf : g.Fitting) (hn : (g.cutOff h).next? x = some n) :
    g.next? x = some n ∧ n ≠ h := by
  rw [hf.next?_cutOff, Option.filter_eq_some_iff] at hn
  exact ⟨hn.1, by simpa using hn.2⟩

/-- Nor an input. -/
theorem input?_cutOff (hf : g.Fitting) (h x : Handle) (m : String) :
    (g.cutOff h).input? x m = (g.input? x m).filter (·.block? ≠ some h) := by
  rw [Graph.input?_cutOff]
  split
  · rfl
  · rename_i hcut
    -- only the parent refers to the block, and in one way
    have hne : ∀ i, g.input? x m = some i → i.block? ≠ some h := fun i hi hih => by
      have hchild : h ∈ g.children x := mem_children_iff.2 (.inr ⟨m, i, hi, hih⟩)
      refine hcut ⟨(hf.parent_iff h x).2 hchild, fun hn => ?_⟩
      obtain ⟨b, hb, hget⟩ := Option.bind_eq_some_iff.1 hi
      have hrow := (Table.get?_eq_some_iff b.inputs m i).1 hget
      exact Block.not_doubled_of_nodup (children_of_get? hb ▸ hf.once x)
        ⟨next?_of_get? hb ▸ hn, List.mem_filterMap.2 ⟨i, List.mem_map.2 ⟨_, hrow, rfl⟩, hih⟩⟩
    cases hi : g.input? x m with
    | none => rfl
    | some i => simp [Option.filter, hne i hi]

/-- The blocks after the one that is cut off stay with it, since none of them leads back to it. -/
theorem strand_cutOff (hf : g.Fitting) (hl : g.Strand h l) : (g.cutOff h).Strand h l :=
  hl.congr fun y hy => by
    rw [hf.next?_cutOff]
    cases hn : g.next? y with
    | none => rfl
    | some n =>
      have hne : n ≠ h := by
        rintro rfl
        exact (hf.rooted n).not_below y (hf.parent?_of_next? hn) (hf.below_of_strand hl hy)
      simp [hne]

/-- What a block holds in an input is not its successor, and it is in no other input. -/
theorem sole_of_held (hf : g.Fitting) (hd : (g.input? p name).bind Input.block? = some d) :
    g.contains d = true ∧ g.next? p ≠ some d ∧
      ∀ m i, g.input? p m = some i → i.block? = some d → m = name := by
  obtain ⟨input, hinput, hblock⟩ := Option.bind_eq_some_iff.1 hd
  obtain ⟨b, hb, hget⟩ := Option.bind_eq_some_iff.1 hinput
  have hmem : d ∈ b.inputBlocks := List.mem_filterMap.2
    ⟨input, List.mem_map.2 ⟨_, (Table.get?_eq_some_iff _ _ _).1 hget, rfl⟩, hblock⟩
  have honce : b.children.Nodup := children_of_get? hb ▸ hf.once p
  refine ⟨hf.live p d (children_of_get? hb ▸ List.mem_append_right _ hmem), fun hn => ?_,
    fun m i hi hid => ?_⟩
  · rw [next?_of_get? hb] at hn
    exact Block.not_doubled_of_nodup honce ⟨hn, hmem⟩
  · obtain ⟨b', hb', hget'⟩ := Option.bind_eq_some_iff.1 hi
    cases hb.symm.trans hb'
    exact Block.input_unique (List.nodup_append.1 honce).2.1 hget' hget hid hblock

/-- What an input holds once a block is cut off is what it held, unless that was the block. -/
theorem held_cutOff (hf : g.Fitting) (h p : Handle) (name : String) :
    (((g.cutOff h).input? p name).bind Input.block?).filter (· ≠ h) =
      ((g.input? p name).bind Input.block?).filter (· ≠ h) := by
  rw [hf.input?_cutOff]
  cases g.input? p name with
  | none => rfl
  | some input =>
    cases hb : input.block? with
    | none => simp [hb, Option.filter]
    | some d => by_cases hd : d = h <;> simp [hb, hd, Option.filter]

end Fitting

/-! ### Where the links lead -/

/-- One program is another one with a block moved behind `p`: `l` are the moved blocks, `e` the
last of them, and `r` what came after `p` once the moved block was cut off. -/
structure MovedAfter (g : Graph) (h p : Handle) (l r : List Handle) (e : Handle) (g' : Graph) :
    Prop where
  moved : g.Strand h l
  last : l.getLast? = some e
  rest : (g.cutOff h).Strand p (p :: r)
  /-- After `p` come the moved blocks, then what came there before. -/
  strand : g'.Strand p (p :: (l ++ r))
  next? : ∀ x, g'.next? x =
    if x = p then some h else if x = e then r.head? else (g.next? x).filter (· ≠ h)
  input? : ∀ x m, g'.input? x m = (g.input? x m).filter (·.block? ≠ some h)
  parent? : ∀ x, g'.parent? x =
    if x = h then some p else if r.head? = some x then some e else g.parent? x
  starts? : ∀ x, g'.starts? x =
    if x = h ∨ r.head? = some x then some false else g.starts? x

/-- One program is another one with a block moved into an input of `p`, which may have held another
block. -/
structure MovedInto (g : Graph) (h p : Handle) (name : String) (branch : Bool) (g' : Graph) :
    Prop where
  next? : ∀ x, g'.next? x = (g.next? x).filter (· ≠ h)
  /-- The input holds the moved block as it was asked for. -/
  input? : ∀ x m, g'.input? x m =
    if x = p ∧ m = name then some (if branch then .branch h else .reporter h)
    else (g.input? x m).filter (·.block? ≠ some h)
  parent? : ∀ x, g'.parent? x =
    if x = h then some p
    else if (g.input? p name).bind Input.block? = some x then none else g.parent? x
  /-- What was there starts a script. -/
  starts? : ∀ x, g'.starts? x =
    if x = h then some false
    else if (g.input? p name).bind Input.block? = some x then some true else g.starts? x
  /-- The blocks after it are those that were left there when the moved block was cut off. -/
  strand : ∀ d, (g.input? p name).bind Input.block? = some d → d ≠ h →
    ∃ l, (g.cutOff h).Strand d l ∧ g'.Strand d l

/-- One program is another one with a block moved to the top of a script of its own. -/
structure MovedToTop (g : Graph) (h : Handle) (x y : Float) (g' : Graph) : Prop where
  next? : ∀ z, g'.next? z = (g.next? z).filter (· ≠ h)
  input? : ∀ z m, g'.input? z m = (g.input? z m).filter (·.block? ≠ some h)
  parent? : ∀ z, g'.parent? z = if z = h then none else g.parent? z
  starts? : ∀ z, g'.starts? z = if z = h then some true else g.starts? z
  place : (g'.get? h).map (fun b => (b.x, b.y)) = some (x, y)

namespace Fitting

/-- A block comes after the moved one or after the place it is moved to, but not after both. -/
theorem notMem_rest (hf : g.Fitting) (hph : ¬g.Below p h) (hs : (g.cutOff h).Strand h l)
    (hn : (g.cutOff h).next? p = some n) (hr : (g.cutOff h).Strand n r) (hx : x ∈ l) : x ∉ r := by
  intro hxr
  have hparent : ∀ y z, (g.cutOff h).parent? y = some z → g.parent? y = some z := by
    intro y z hyz
    rw [parent?_cutOff_eq] at hyz
    split at hyz
    · cases hyz
    · exact hyz
  have hnh : n ≠ h := (hf.next?_of_cutOff hn).2
  have hup : ∀ {y z}, (g.cutOff h).next? y = some z → (g.cutOff h).parent? z = some y := by
    intro y z hyz
    rw [parent?_cutOff_eq, if_neg (hf.next?_of_cutOff hyz).2]
    exact hf.parent?_of_next? (hf.next?_of_cutOff hyz).1
  have hbelow : ∀ {y l'}, (g.cutOff h).Strand y l' → x ∈ l' → (g.cutOff h).Below x y := by
    intro y l' hs' hx'
    exact Relation.reflTransGen_swap.1 (hs'.reflTransGen (fun _ _ _ hyz => hup hyz) hx')
  -- the chain of parents of `x` passes both `h`, where it ends, and `n`, after which it passes `p`
  rcases (hbelow hs hx).total (hbelow hr hxr) with hb | hb
  · exact hnh (hb.eq_of_parent?_eq_none ((g.parent?_cutOff_eq h h).trans (if_pos rfl))).symm
  · rcases Relation.ReflTransGen.cases_head hb with he | ⟨q, hq, hqh⟩
    · exact hnh he
    · rw [hup hn] at hq
      cases hq
      exact hph (Relation.ReflTransGen.mono hparent _ _ hqh)

/-- The new chain: first the moved blocks, then what came after the place they are moved to. -/
theorem strand_after (hf : g.Fitting) (hph : ¬g.Below p h) (hl : (g.cutOff h).Strand h l)
    (hpl : p ∉ l) (he : l.getLast? = some e) (hr : (g.cutOff h).Strand p (p :: r))
    (hnext : ∀ x, g'.next? x =
      if x = p then some h else if x = e then r.head? else (g.cutOff h).next? x) :
    g'.Strand p (p :: (l ++ r)) := by
  have hep : e ≠ p := fun hep => hpl (hep ▸ List.mem_of_getLast? he)
  have hstay : ∀ y, y ≠ p → y ≠ e → g'.next? y = (g.cutOff h).next? y := fun y hyp hye => by
    rw [hnext, if_neg hyp, if_neg hye]
  refine .cons ((hnext p).trans (if_pos rfl)) ?_
  cases hr with
  | last hn =>
    rw [List.append_nil]
    refine hl.congr fun y hy => ?_
    by_cases hye : y = e
    · rw [hnext, hye, if_neg hep, if_pos rfl, hl.eq_none_of_getLast? he]
      rfl
    · exact hstay y (fun hyp => hpl (hyp ▸ hy)) hye
  | cons hn hr =>
    have hnotMem := (List.nodup_cons.1 (Trail.cons hn hr).nodup).1
    refine hl.append (hr.congr fun y hy => ?_) (fun e' he' => ?_) fun y hy hye => ?_
    · refine hstay y (fun hyp => hnotMem (hyp ▸ hy)) ?_
      rintro rfl
      exact hf.notMem_rest hph hl hn hr (List.mem_of_getLast? he) hy
    · cases he.symm.trans he'
      rw [hnext, if_neg hep, if_pos rfl, hr.head?_eq]
    · exact hstay y (fun hyp => hpl (hyp ▸ hy)) fun hye' => hye (hye' ▸ he)

/-- **A block is put behind another one.** -/
theorem movedAfter (hf : g.Fitting) (hc : g.Consistent) (hh : g.contains h = true)
    (hp : g.contains p = true) (hph : ¬g.Below p h) :
    ∃ l r e, g.MovedAfter h p l r e ((g.cutOff h).attach h (.after p)) := by
  have hc' := hc.cutOff h
  obtain ⟨l, hl⟩ := hf.exists_strand (fun _ _ hn => hn) h
  obtain ⟨r₀, hr₀⟩ := hf.exists_strand (fun _ _ hn => (hf.next?_of_cutOff hn).1) p
  obtain ⟨r, rfl⟩ : ∃ r, r₀ = p :: r := by cases hr₀ <;> exact ⟨_, rfl⟩
  obtain ⟨e, he⟩ : ∃ e, l.getLast? = some e := ⟨_, List.getLast?_eq_some_getLast hl.ne_nil⟩
  have hpl : p ∉ l := fun hpl => hph (hf.below_of_strand hl hpl)
  have hl' := hf.strand_cutOff hl
  have hph' : (g.cutOff h).next? p ≠ some h := fun hn => (hf.next?_of_cutOff hn).2 rfl
  have hhead : (g.cutOff h).next? p = r.head? := by
    cases hr₀ with
    | last hn => exact hn
    | cons hn hr => rw [hn, hr.head?_eq]
  have hlive : ∀ x, (g.cutOff h).contains x = g.contains x := contains_cutOff g h
  have hp' := (hlive p).trans hp
  have hh' := (hlive h).trans hh
  have hlast : (g.cutOff h).contains e = true := by
    rw [hlive]
    have hbelow := hf.below_of_strand hl (List.mem_of_getLast? he)
    rcases Relation.ReflTransGen.cases_head hbelow with rfl | ⟨q, hq, -⟩
    · exact hh
    · obtain ⟨b, hb, -⟩ := exists_of_parent? hq
      exact contains_of_get? hb
  have hnext : ∀ x, ((g.cutOff h).attach h (.after p)).next? x =
      if x = p then some h else if x = e then r.head? else (g.cutOff h).next? x := fun x => by
    rw [next?_attach_after hc' hp' hl' hpl he hph', hhead]
    simp only [hlast, and_true]
  have hheadLive : ∀ x, (r.head? = some x ∧ (g.cutOff h).contains x = true) ↔ r.head? = some x :=
    fun x => and_iff_left_of_imp fun hx => by
      rw [hlive]
      exact hf.live p x (mem_children_of_next? (hf.next?_of_cutOff (hhead.trans hx)).1)
  refine ⟨l, r, e, hl, he, hr₀, hf.strand_after hph hl' hpl he hr₀ hnext, fun x => ?_,
    fun x m => ?_, fun x => ?_, fun x => ?_⟩
  · rw [hnext, hf.next?_cutOff]
  · rw [input?_attach_after hc' hl' hpl he hph', hf.input?_cutOff]
  · rw [parent?_attach_after hc' hl' hpl he hph' hh', hhead, parent?_cutOff_eq]
    simp only [hheadLive]
    by_cases hx : x = h <;> simp [hx]
  · rw [starts?_attach_after hc' hl' hpl he hph' hh', hhead, Graph.starts?_cutOff]
    simp only [hheadLive]

/-- A block is put into an input that holds no other one. -/
theorem movedInto_plug (hf : g.Fitting) (hh : g.contains h = true) (hp : g.contains p = true)
    (hnone : ∀ x, (g.input? p name).bind Input.block? = some x → x = h) (branch : Bool) :
    g.MovedInto h p name branch
      ((g.cutOff h).plug p h name (if branch then .branch h else .reporter h)) := by
  have hlive : ∀ x, (g.cutOff h).contains x = g.contains x := contains_cutOff g h
  refine ⟨fun x => ?_, fun x m => ?_, fun x => ?_, fun x => ?_,
    fun d hd hne => absurd (hnone d hd) hne⟩
  · rw [next?_plug, hf.next?_cutOff]
  · rw [input?_plug, hf.input?_cutOff, hlive]
    simp only [hp, and_true]
  · rw [parent?_plug, parent?_cutOff_eq, hlive]
    by_cases hx : x = h
    · simp [hx, hh]
    · simp [hx, mt (hnone x) hx]
  · rw [starts?_plug, Graph.starts?_cutOff, hlive]
    by_cases hx : x = h
    · simp [hx, hh]
    · simp [hx, mt (hnone x) hx]

/-- A block is put into an input, and another one makes way for it. -/
theorem movedInto_displace (hf : g.Fitting) (hh : g.contains h = true) (hp : g.contains p = true)
    (hd : (g.input? p name).bind Input.block? = some d) (branch : Bool) :
    g.MovedInto h p name branch (((g.cutOff h).displace p d).plug p h name
      (if branch then .branch h else .reporter h)) := by
  have hlive : ∀ x, (g.cutOff h).contains x = g.contains x := contains_cutOff g h
  obtain ⟨hdlive, hdnext, hdsole⟩ := hf.sole_of_held hd
  -- it is no successor, so it is cut out of the inputs
  have hnext : (g.cutOff h).next? p ≠ some d := fun hn => hdnext (hf.next?_of_cutOff hn).1
  have hcut : ∀ x, ¬(x = p ∧ (g.cutOff h).next? x = some d) := fun x hx => hnext (hx.1 ▸ hx.2)
  have hcut' : ∀ x, (x = p ∧ (g.cutOff h).next? x ≠ some d) ↔ x = p := fun x =>
    and_iff_left_of_imp fun hx => hx ▸ hnext
  have hcontains : ∀ x, ((g.cutOff h).displace p d).contains x = g.contains x := fun x => by
    rw [contains_displace, hlive]
  have hnext' : ∀ x, (((g.cutOff h).displace p d).plug p h name
      (if branch then .branch h else .reporter h)).next? x =
        (g.next? x).filter (· ≠ h) := fun x => by
    rw [next?_plug, next?_displace, if_neg (hcut x), hf.next?_cutOff]
  refine ⟨hnext', fun x m => ?_, fun x => ?_, fun x => ?_, fun d' _ _ => ?_⟩
  · rw [input?_plug, input?_displace, hf.input?_cutOff, hcontains]
    simp only [hp, and_true, hcut']
    by_cases hx : x = p
    · subst hx
      by_cases hm : m = name
      · simp [hm]
      · simp only [hm, and_false, if_false, if_true]
        cases hi : g.input? x m with
        | none => rfl
        | some i =>
          have hother : i.block? ≠ some d := mt (hdsole m i hi) hm
          by_cases hih : i.block? = some h <;> simp [Option.filter, hih, hother]
    · simp [hx]
  · rw [parent?_plug, parent?_displace, parent?_cutOff_eq, hcontains, hd]
    by_cases hx : x = h
    · simp [hx, hh]
    · simp [hx, @eq_comm _ d x]
  · rw [starts?_plug, starts?_displace, Graph.starts?_cutOff, hcontains,
      (hlive d).trans hdlive, hd]
    by_cases hx : x = h
    · simp [hx, hh]
    · simp [hx, @eq_comm _ d x]
  · obtain ⟨l, hl⟩ := hf.exists_strand (fun _ _ hn => (hf.next?_of_cutOff hn).1) d'
    exact ⟨l, hl, hl.congr fun y _ => (hnext' y).trans (hf.next?_cutOff h y).symm⟩

/-- **A block is put into an input.** -/
theorem movedInto (hf : g.Fitting) (hh : g.contains h = true) (hp : g.contains p = true)
    (name : String) (branch : Bool) :
    g.MovedInto h p name branch ((g.cutOff h).attach h (.input p name branch)) := by
  rw [attach_input_eq, hf.held_cutOff]
  cases hd : ((g.input? p name).bind Input.block?).filter (· ≠ h) with
  | none =>
    refine hf.movedInto_plug hh hp (fun x hx => ?_) branch
    by_contra hne
    rw [hx, Option.filter_some, if_pos (by simpa using hne)] at hd
    cases hd
  | some d => exact hf.movedInto_displace hh hp (Option.filter_eq_some_iff.1 hd).1 branch

/-- **A block starts a script of its own.** -/
theorem movedToTop (hf : g.Fitting) (hh : g.contains h = true) (x y : Float) :
    g.MovedToTop h x y ((g.cutOff h).attach h (.topLevel x y)) := by
  have hget : ∀ z, ((g.cutOff h).attach h (.topLevel x y)).get? z =
      ((g.cutOff h).get? z).map fun b =>
        if z = h then { b with topLevel := true, x := x, y := y } else b := fun z => by
    rw [attach, get?_modify]
    split
    · rfl
    · simp
  obtain ⟨b, hb⟩ := contains_iff.1 ((contains_cutOff g h h).trans hh)
  refine ⟨fun z => ?_, fun z m => ?_, fun z => ?_, fun z => ?_, ?_⟩
  · rw [← hf.next?_cutOff, Graph.next?, Graph.next?, hget, Option.bind_map]
    congr 1
    funext b
    simp only [Function.comp_apply]
    split <;> rfl
  · rw [← hf.input?_cutOff, Graph.input?, Graph.input?, hget, Option.bind_map]
    congr 1
    funext b
    simp only [Function.comp_apply]
    split <;> rfl
  · rw [← parent?_cutOff_eq, Graph.parent?, Graph.parent?, hget, Option.bind_map]
    congr 1
    funext b
    simp only [Function.comp_apply]
    split <;> rfl
  · rw [Graph.starts?, hget, Option.map_map]
    by_cases hz : z = h
    · subst hz
      simp [hb]
    · rw [if_neg hz, ← Graph.starts?_cutOff g h z, Graph.starts?]
      simp [Function.comp_def, hz]
  · rw [hget, hb]
    simp

end Fitting

/-! ### Moves -/

/-- A move keeps the blocks, and all of a block but its links. -/
theorem rewired_move (g : Graph) (h : Handle) (place : Destination) (x : Handle) :
    Option.Rel Block.Rewired (g.get? x) ((g.move h place).1.get? x) := by
  refine move_induction (P := fun g' => Option.Rel Block.Rewired (g.get? x) (g'.get? x))
    (fun g' y f hf hg' => ?_) ?_ h place
  · rw [get?_modify]
    split
    · generalize g.get? x = b₀, g'.get? x = b₁ at hg'
      cases hg' with
      | none => exact .none
      | @some b b' hb =>
        refine .some ?_
        unfold Block.Rewired at hb ⊢
        rw [hf b', hb]
    · exact hg'
  · cases g.get? x with
    | none => exact .none
    | some b => exact .some rfl

theorem keyOf?_move (g : Graph) (h : Handle) (place : Destination) (x : Handle) :
    (g.move h place).1.keyOf? x = g.keyOf? x :=
  move_induction (P := fun g' => g'.keyOf? x = g.keyOf? x)
    (fun g' y f _ hg' => (keyOf?_modify g' y f x).trans hg') rfl h place

/-- **A move splices, it loses nothing.** In a program whose links fit together, whatever block is
moved wherever: the same blocks are live under the same keys, and nothing in them is changed but
links and whether and where they start a script. Behind another block come the moved block and
those after it, and then what came there before, less what was moved. An input holds the moved
block as it was asked for, and what it held before starts a script with all that is left below it.
Successors, inputs and parents that have no part in this are as they were. -/
theorem splice_of_move (hc : g.Consistent) (hf : g.Fitting) {place : Destination}
    (hm : (g.move h place).2 = true) :
    (∀ x, (g.move h place).1.keyOf? x = g.keyOf? x) ∧
      (∀ x, Option.Rel Block.Rewired (g.get? x) ((g.move h place).1.get? x)) ∧
      (∀ p, place = .after p → ∃ l r e, g.MovedAfter h p l r e (g.move h place).1) ∧
      (∀ p name branch, place = .input p name branch →
        g.MovedInto h p name branch (g.move h place).1) ∧
      ∀ x y, place = .topLevel x y → g.MovedToTop h x y (g.move h place).1 := by
  obtain ⟨hh, -, hmove⟩ := exists_of_moved hm
  refine ⟨keyOf?_move g h place, rewired_move g h place, ?_, ?_, ?_⟩
  · rintro p rfl
    obtain ⟨hp, hph⟩ := not_below_of_moved hc hm rfl
    rw [hmove]
    exact hf.movedAfter hc hh hp hph
  · rintro p name branch rfl
    obtain ⟨hp, -⟩ := not_below_of_moved hc hm rfl
    rw [hmove]
    exact hf.movedInto hh hp name branch
  · rintro x y rfl
    rw [hmove]
    exact hf.movedToTop hh x y

/-- A loop around two blocks and a block after it. -/
def nest : List Operation :=
  [.create (.detached "loop" (.control .repeatTimes)), .create (.detached "first" (.control .wait)),
    .create (.detached "second" (.control .wait)), .create (.detached "last" (.control .wait)),
    .move ⟨1, 0⟩ (.input ⟨0, 0⟩ "SUBSTACK" true), .move ⟨2, 0⟩ (.after ⟨1, 0⟩),
    .move ⟨3, 0⟩ (.after ⟨0, 0⟩)]

theorem fitting_nest : (empty.run nest).Fitting := by
  refine (wellFormed_run fun op hop => ?_).fitting
  simp only [nest, List.mem_cons, List.not_mem_nil, or_false] at hop
  rcases hop with rfl | rfl | rfl | rfl | rfl | rfl | rfl
  iterate 4 exact ⟨rfl, rfl, rfl⟩
  all_goals trivial

/-- The body of the loop is moved behind it, before the last block. -/
theorem splice_of_move_nest :
    (empty.run nest).Consistent ∧ (empty.run nest).Fitting ∧
      ((empty.run nest).move ⟨1, 0⟩ (.after ⟨0, 0⟩)).2 = true ∧
      ((empty.run nest).move ⟨1, 0⟩ (.after ⟨0, 0⟩)).1.Strand ⟨0, 0⟩
        [⟨0, 0⟩, ⟨1, 0⟩, ⟨2, 0⟩, ⟨3, 0⟩] := by
  have hc := consistent_run nest
  have hmoved : ((empty.run nest).move ⟨1, 0⟩ (.after ⟨0, 0⟩)).2 = true := by decide +kernel
  obtain ⟨l, r, e, hafter⟩ := (splice_of_move hc fitting_nest hmoved).2.2.1 _ rfl
  have hl : (empty.run nest).Strand ⟨1, 0⟩ [⟨1, 0⟩, ⟨2, 0⟩] :=
    .cons (by decide +kernel) (.last (by decide +kernel))
  have hr : ((empty.run nest).cutOff ⟨1, 0⟩).Strand ⟨0, 0⟩ [⟨0, 0⟩, ⟨3, 0⟩] :=
    .cons (by decide +kernel) (.last (by decide +kernel))
  cases hafter.moved.unique hl
  cases hafter.rest.unique hr
  exact ⟨hc, fitting_nest, hmoved, hafter.strand⟩

end Graph

end Stagecraft
