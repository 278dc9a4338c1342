import Stagecraft.Proofs.Graph.Attach

/-!
# Blocks that scripts lead to

A program can name blocks that it does not have. If parents agree with successors and inputs all
the same, and every live block is reached from the top of a script, then every live block is still
reached after a move, with two exceptions. A block that is put behind another one pushes that one's
successor to the end of the moved blocks. If they end in a handle without block there is nothing to
hang the successor on, but it no longer starts a script and names that handle as its parent. And if
the successor itself was the top of the script that leads around to it, that circle has no top any
more. In both cases it is lost, with all that only it led to.

* `Graph.Agreeing` : the parent of a live block is the block that refers to it;
* `Graph.Covered` : every live block is reached from the top of a script;
* `Graph.Covered.attach_topLevel`, `Graph.Agreeing.covered_input` : moves to the top and into inputs
  lose nothing;
* `Graph.Agreeing.covered_after` : **a move behind another block loses nothing unless it drops or
  uproots the successor**;
* `Graph.Agreeing.not_onScript_after`, `Graph.Agreeing.not_onScript_of_uproots` : then no script
  leads to it any more;
* `Graph.covered_move_iff` : so these are the only two ways to lose a block.
-/

namespace Stagecraft.Graph

variable {g g' : Graph} {h p q c n e x y t d : Handle} {l : List Handle} {name m : String}

/-- The parent of a live block is the block that refers to it. -/
def Agreeing (g : Graph) : Prop :=
  ∀ c, g.contains c = true → ∀ p, g.parent? c = some p ↔ c ∈ g.children p

/-- It is enough to look at the live blocks. -/
theorem agreeing_iff : g.Agreeing ↔ ∀ c ∈ g.handles, g.contains c = true →
    (∀ p ∈ g.parent? c, c ∈ g.children p) ∧
      ∀ p ∈ g.handles, c ∈ g.children p → g.parent? c = some p := by
  refine ⟨fun ha c _ hc => ⟨fun p => (ha c hc p).1, fun p _ => (ha c hc p).2⟩,
    fun h c hc p => ?_⟩
  obtain ⟨b, hb⟩ := contains_iff.1 hc
  obtain ⟨hparent, hchild⟩ := h c (mem_handles hb) hc
  refine ⟨hparent p, fun hmem => ?_⟩
  obtain ⟨a, ha, -⟩ := exists_of_mem_children hmem
  exact hchild p (mem_handles ha) hmem

instance (g : Graph) : Decidable g.Agreeing := decidable_of_iff _ agreeing_iff.symm

/-- The top of some script leads to a block. -/
def OnScript (g : Graph) (x : Handle) : Prop := ∃ t, g.starts? t = some true ∧ g.Reaches t x

/-- Every live block is reached from the top of a script. -/
def Covered (g : Graph) : Prop := ∀ x, g.contains x = true → g.OnScript x

/-- A move of `h` behind `p` drops the successor `n` of that: the moved blocks end in a handle
without block, and `n` is not in an input of `p` as well. -/
structure Drops (g : Graph) (h p n : Handle) : Prop where
  next : (g.cutOff h).next? p = some n
  live : g.contains n = true
  ends : ∃ l e, (g.cutOff h).Strand h l ∧ l.getLast? = some e ∧ g.contains e = false
  nowhere : ∀ m i, (g.cutOff h).input? p m = some i → i.block? ≠ some n

/-- A move of `h` behind `p` uproots the successor `n` of that: only the script that `n` starts
leads to `p`, and to the last of the moved blocks only that one and the one that `h` starts. -/
structure Uproots (g : Graph) (h p n : Handle) : Prop where
  next : (g.cutOff h).next? p = some n
  only : ∀ t, g.starts? t = some true → (g.cutOff h).Reaches t p → t = n
  moved : ∀ l e, (g.cutOff h).Strand h l → l.getLast? = some e → g.contains e = true →
    ∀ t, g.starts? t = some true → (g.cutOff h).Reaches t e → t = h ∨ t = n

/-! ### Scripts -/

theorem contains_of_starts? {b : Bool} (ht : g.starts? t = some b) : g.contains t = true := by
  obtain ⟨b, hb, -⟩ := Option.map_eq_some_iff.1 ht
  exact contains_of_get? hb

theorem contains_of_mem_children (hc : c ∈ g.children p) : g.contains p = true := by
  obtain ⟨b, hb, -⟩ := exists_of_mem_children hc
  exact contains_of_get? hb

theorem OnScript.top (ht : g.starts? t = some true) : g.OnScript t := ⟨t, ht, .refl⟩

theorem OnScript.child (hp : g.OnScript p) (hc : c ∈ g.children p) : g.OnScript c := by
  obtain ⟨t, ht, hr⟩ := hp
  exact ⟨t, ht, hr.tail hc⟩

/-- What scripts lead to they still lead to, if their tops and what is no longer referred to are
led to in some way. -/
theorem OnScript.mono (hx : g.OnScript x) (hlive : g.contains x = true)
    (htop : ∀ t, g.starts? t = some true → g'.OnScript t)
    (hchild : ∀ p c, g.contains c = true → c ∈ g.children p →
      c ∈ g'.children p ∨ g'.OnScript c) : g'.OnScript x := by
  obtain ⟨t, ht, hr⟩ := hx
  induction hr with
  | refl => exact htop t ht
  | @tail p c _ hc ih =>
    rcases hchild p c hlive hc with hc' | hc'
    · exact (ih (contains_of_mem_children hc)).child hc'
    · exact hc'

/-- A block that starts no script and that no block refers to is on no script. -/
theorem not_onScript (hstart : g.starts? x ≠ some true) (hchild : ∀ p, x ∉ g.children p) :
    ¬g.OnScript x := by
  rintro ⟨t, ht, hr⟩
  rcases Relation.ReflTransGen.cases_tail hr with rfl | ⟨p, -, hp⟩
  · exact hstart ht
  · exact hchild p hp

/-! ### Cutting a block off -/

theorem mem_children_of_cutOff (hc : c ∈ (g.cutOff h).children p) : c ∈ g.children p := by
  rcases mem_children_iff.1 hc with hn | ⟨m, i, hi, hic⟩
  · rw [next?_cutOff] at hn
    split at hn
    · cases hn
    · exact mem_children_of_next? hn
  · rw [input?_cutOff] at hi
    refine mem_children_iff.2 (.inr ⟨m, i, ?_, hic⟩)
    split at hi
    · exact (Option.filter_eq_some_iff.1 hi).1
    · exact hi

namespace Agreeing

/-- No two blocks refer to the same live block. -/
theorem sole (ha : g.Agreeing) (hlive : g.contains c = true) (hp : c ∈ g.children p)
    (hq : c ∈ g.children q) : p = q :=
  Option.some.inj (((ha c hlive p).2 hp).symm.trans ((ha c hlive q).2 hq))

/-- What is reached from a block is below it. -/
theorem below_of_reaches (ha : g.Agreeing) (hlive : g.contains x = true) (hr : g.Reaches h x) :
    g.Below x h := by
  induction hr with
  | refl => exact Below.refl g h
  | tail _ hc ih => exact Below.parent ((ha _ hlive _).2 hc) (ih (contains_of_mem_children hc))

/-- A block that is cut off is the successor of none. -/
theorem next?_cutOff_ne (ha : g.Agreeing) (hh : g.contains h = true) (x : Handle) :
    (g.cutOff h).next? x ≠ some h := by
  intro hn
  rw [next?_cutOff] at hn
  split at hn
  · cases hn
  · rename_i hcut
    exact hcut ⟨(ha h hh x).2 (mem_children_of_next? hn), hn⟩

/-- **The moved blocks come to an end**: each block comes after one other, and nothing comes
before the first one. -/
theorem exists_strand (ha : g.Agreeing) (hh : g.contains h = true) :
    ∃ l, (g.cutOff h).Strand h l := by
  refine exists_trail (g := g.cutOff h) (fun _ _ => contains_of_next?) fun y hy => ?_
  induction hy with
  | refl =>
    intro hcycle
    obtain ⟨w, -, hw⟩ := Relation.TransGen.tail'_iff.1 hcycle
    exact ha.next?_cutOff_ne hh w hw
  | @tail z y _ hz ih =>
    intro hcycle
    obtain ⟨w, hyw, hw⟩ := Relation.TransGen.tail'_iff.1 hcycle
    have hlive : g.contains y = true := by
      obtain ⟨v, hv, -⟩ := Relation.TransGen.head'_iff.1 hcycle
      rw [← contains_cutOff g h y]
      exact contains_of_next? hv
    have hchild : ∀ {v}, (g.cutOff h).next? v = some y → y ∈ g.children v := fun hv =>
      mem_children_of_cutOff (mem_children_of_next? hv)
    have hzw := ha.sole hlive (hchild hz) (hchild hw)
    subst hzw
    exact ih (.head' hz hyw)

end Agreeing

/-- What holds of the top of a script holds of all that it leads to without passing the moved
block. -/
theorem induction_above {P : Handle → Prop}
    (hstep : ∀ y c, g.contains c = true → c ∈ g.children y → ¬g.Reaches h c → P y → P c)
    (hr : g.Reaches t x) (hlive : g.contains x = true) (hx : ¬g.Reaches h x) (ht : P t) : P x := by
  induction hr with
  | refl => exact ht
  | @tail y c _ hc ih =>
    exact hstep y c hlive hc hx (ih (contains_of_mem_children hc) fun hy => hx (hy.tail hc))

/-- A successor that is uprooted starts the script that leads around to it. -/
theorem Uproots.round (hup : g.Uproots h p n) (ha : g.Agreeing) (hcov : g.Covered)
    (hp : g.contains p = true) (hph : ¬g.Below p h) :
    g.starts? n = some true ∧ (g.cutOff h).Reaches n p := by
  have hpreach : ¬g.Reaches h p := fun hr => hph (ha.below_of_reaches hp hr)
  obtain ⟨t, ht, hr⟩ := hcov p hp
  have hround : (g.cutOff h).Reaches t p :=
    induction_above (P := (g.cutOff h).Reaches t) (fun y c _ hyc hhc hy => hy.tail
      (mem_children_cutOff (fun he => hhc (he ▸ .refl)) hyc)) hr hp hpreach .refl
  obtain rfl := hup.only t ht hround
  exact ⟨ht, hround⟩

/-! ### To the top of a script -/

/-- **A block that starts a script of its own loses nothing.** -/
theorem Covered.attach_topLevel (hcov : g.Covered) (hh : g.contains h = true) (x y : Float) :
    ((g.cutOff h).attach h (.topLevel x y)).Covered := by
  have hget : ∀ z, ((g.cutOff h).attach h (.topLevel x y)).starts? z =
      if z = h then some true else g.starts? z := fun z => by
    obtain ⟨b, hb⟩ := contains_iff.1 ((contains_cutOff g h h).trans hh)
    rw [attach, Graph.starts?, get?_modify]
    split
    · rename_i hz
      rw [hz, hb]
      rfl
    · exact starts?_cutOff g h z
  have hself : ((g.cutOff h).attach h (.topLevel x y)).OnScript h :=
    .top ((hget h).trans (if_pos rfl))
  intro z hz
  have hz' : g.contains z = true := by
    rwa [attach, contains_modify, contains_cutOff] at hz
  refine (hcov z hz').mono hz' (fun t ht => ?_) fun p c _ hc => ?_
  · refine .top ((hget t).trans ?_)
    split
    · rfl
    · exact ht
  · by_cases hch : c = h
    · exact .inr (hch ▸ hself)
    · exact .inl (mem_children_modify (fun _ hmem => hmem) (mem_children_cutOff hch hc))

/-! ### Below another block -/

/-- One program is another one with `h` attached to `p`. Links to other blocks are kept, but for
those to a block that had to make way. -/
structure Attached (g : Graph) (h p : Handle) (aside : Option Handle) (g' : Graph) : Prop where
  contains : ∀ x, g'.contains x = g.contains x
  self : h ∈ g'.children p
  child : ∀ q c, c ∈ g.children q → c ≠ h → aside ≠ some c → c ∈ g'.children q
  top : ∀ t, g.starts? t = some true → t ≠ h → aside ≠ some t → g'.starts? t = some true

section Below

variable {aside : Option Handle} (ha : g.Agreeing) (hcov : g.Covered) (hp : g.contains p = true)
  (hph : ¬g.Below p h) (hatt : g.Attached h p aside g')
  (htop : ∀ n, aside = some n → g.starts? n = some true → g.Reaches n p → g'.OnScript n)
  (hway : ∀ y n, aside = some n → g.contains n = true → n ∈ g.children y → g'.OnScript y →
    g'.OnScript n ∨ g'.OnScript p)

include ha hcov hp hph hatt htop hway

/-- A script leads to the new parent without passing the moved block, so it still does. -/
theorem onScript_parent : g'.OnScript p := by
  have hpreach : ¬g.Reaches h p := fun hr => hph (ha.below_of_reaches hp hr)
  obtain ⟨t, ht, hr⟩ := hcov p hp
  have hor : g'.OnScript p ∨ g'.OnScript p := by
    refine induction_above (P := fun y => g'.OnScript y ∨ g'.OnScript p)
      (fun y c hc hyc hhc hy => ?_) hr hp hpreach (.inl ?_)
    · have hch : c ≠ h := fun he => hhc (he ▸ .refl)
      rcases hy with hy | hy
      · by_cases hca : aside = some c
        · exact hway y c hca hc hyc hy
        · exact .inl (hy.child (hatt.child y c hyc hch hca))
      · exact .inr hy
    · by_cases hta : aside = some t
      · exact htop t hta ht hr
      · exact .top (hatt.top t ht (fun he => hpreach (he ▸ hr)) hta)
  exact hor.elim id id

/-- **Nothing is lost if the block that made way is not.** -/
theorem covered_of_attached
    (haside : ∀ n, aside = some n → g.contains n = true → g'.OnScript p → g'.OnScript n) :
    g'.Covered := by
  have habove := onScript_parent ha hcov hp hph hatt htop hway
  have hself := habove.child hatt.self
  intro x hx
  rw [hatt.contains] at hx
  refine (hcov x hx).mono hx (fun t ht => ?_) fun q c hc hqc => ?_
  · by_cases hth : t = h
    · exact hth ▸ hself
    · by_cases hta : aside = some t
      · exact haside t hta (contains_of_starts? ht) habove
      · exact .top (hatt.top t ht hth hta)
  · by_cases hch : c = h
    · exact .inr (hch ▸ hself)
    · by_cases hca : aside = some c
      · exact .inr (haside c hca hc habove)
      · exact .inl (hatt.child q c hqc hch hca)

end Below

/-! ### Into an input -/

/-- What an input of a block refers to after a block was cut off, unless that is the block. -/
theorem attached_input (hp : g.contains p = true) (name : String) (branch : Bool) :
    g.Attached h p ((((g.cutOff h).input? p name).bind Input.block?).filter (· ≠ h))
      ((g.cutOff h).attach h (.input p name branch)) := by
  rw [attach_input_eq]
  generalize hinput : (if branch then Input.branch h else Input.reporter h) = input
  have hblock : input.block? = some h := by rw [← hinput]; cases branch <;> rfl
  generalize hheld : (((g.cutOff h).input? p name).bind Input.block?).filter (· ≠ h) = held
  -- the program with what was in the input displaced
  generalize hg' : held.elim (g.cutOff h) ((g.cutOff h).displace p) = g'
  have hlive : ∀ x, g'.contains x = g.contains x := fun x => by
    rw [← hg']
    cases held with
    | none => exact contains_cutOff g h x
    | some d => rw [Option.elim_some, contains_displace, contains_cutOff]
  refine ⟨fun x => (contains_plug g' p h name input x).trans (hlive x), ?_,
    fun q c hqc hch hcd => ?_,
    fun t ht hth hta => ?_⟩
  · refine mem_children_iff.2 (.inr ⟨name, input, ?_, hblock⟩)
    rw [input?_plug, if_pos ⟨rfl, rfl, (hlive p).trans hp⟩]
  · have hc' := mem_children_cutOff hch hqc
    have hc : c ∈ g'.children q := by
      rw [← hg']
      cases held with
      | none => exact hc'
      | some d =>
        have hne : c ≠ d := fun he => hcd (he ▸ rfl)
        exact mem_children_modify (fun _ hmem => hmem) (mem_children_detach hne hc' p)
    rcases mem_children_iff.1 hc with hn | ⟨m, i, hi, hic⟩
    · exact mem_children_iff.2 (.inl ((next?_plug g' p h name input q).trans hn))
    · refine mem_children_iff.2 (.inr ⟨m, i, ?_, hic⟩)
      rw [input?_plug, if_neg, hi]
      -- the input that is filled held no other block than the two
      rintro ⟨rfl, rfl, -⟩
      have hi' : (g.cutOff h).input? q m = some i := by
        rw [← hg'] at hi
        cases held with
        | none => exact hi
        | some d =>
          rw [Option.elim_some, input?_displace] at hi
          split at hi
          · exact (Option.filter_eq_some_iff.1 hi).1
          · exact hi
      rw [hi', Option.bind_some, hic, Option.filter_some, if_pos (by simpa using hch)] at hheld
      exact hcd hheld.symm
  · rw [starts?_plug, if_neg fun he => hth he.1, ← hg']
    cases held with
    | none => rwa [Option.elim_none, starts?_cutOff]
    | some d =>
      rw [Option.elim_some, starts?_displace, if_neg, starts?_cutOff, ht]
      rintro ⟨rfl, -⟩
      exact hta rfl

/-- What was in the input starts a script. -/
theorem starts?_attach_input {branch : Bool}
    (hd : (((g.cutOff h).input? p name).bind Input.block?).filter (· ≠ h) = some d)
    (hlive : g.contains d = true) :
    ((g.cutOff h).attach h (.input p name branch)).starts? d = some true := by
  have hdh : d ≠ h := by simpa using (Option.filter_eq_some_iff.1 hd).2
  rw [attach_input_eq, hd, Option.elim_some, starts?_plug, if_neg fun he => hdh he.1,
    starts?_displace, if_pos ⟨rfl, (contains_cutOff g h d).trans hlive⟩]

/-- **A block that is put into an input loses nothing.** -/
theorem Agreeing.covered_input (ha : g.Agreeing) (hcov : g.Covered) (hp : g.contains p = true)
    (hph : ¬g.Below p h) (name : String) (branch : Bool) :
    ((g.cutOff h).attach h (.input p name branch)).Covered := by
  have htop : ∀ n, (((g.cutOff h).input? p name).bind Input.block?).filter (· ≠ h) = some n →
      g.contains n = true → ((g.cutOff h).attach h (.input p name branch)).OnScript n :=
    fun n hn hlive => .top (starts?_attach_input hn hlive)
  exact covered_of_attached ha hcov hp hph (attached_input hp name branch)
    (fun n hn ht _ => htop n hn (contains_of_starts? ht))
    (fun _ n hn hlive _ _ => .inl (htop n hn hlive))
    fun n hn hlive _ => htop n hn hlive

/-! ### Behind a block -/

section After

variable (ha : g.Agreeing) (hc : g.Consistent) (hh : g.contains h = true) (hp : g.contains p = true)
  (hph : ¬g.Below p h)

include ha hc hh hp hph

/-- The links of a program whose parents agree, after a block is put behind another one. -/
theorem exists_attach_after : ∃ l e, (g.cutOff h).Strand h l ∧ l.getLast? = some e ∧ p ∉ l ∧
    (∀ x, ((g.cutOff h).attach h (.after p)).next? x = if x = p then some h
      else if x = e ∧ g.contains e = true then (g.cutOff h).next? p else (g.cutOff h).next? x) ∧
    (∀ x m, ((g.cutOff h).attach h (.after p)).input? x m = (g.cutOff h).input? x m) ∧
    ∀ x, ((g.cutOff h).attach h (.after p)).starts? x =
      if x = h ∨ (g.cutOff h).next? p = some x ∧ g.contains x = true then some false
      else g.starts? x := by
  obtain ⟨l, hl⟩ := ha.exists_strand hh
  obtain ⟨e, he⟩ : ∃ e, l.getLast? = some e := ⟨_, List.getLast?_eq_some_getLast hl.ne_nil⟩
  have hc' := hc.cutOff h
  have hpl : p ∉ l := fun hpl => hph (ha.below_of_reaches hp
    (hl.reflTransGen (fun _ _ _ hn => mem_children_of_cutOff (mem_children_of_next? hn)) hpl))
  have hne := ha.next?_cutOff_ne hh p
  have hlive := contains_cutOff g h
  refine ⟨l, e, hl, he, hpl, fun x => ?_, fun x m => ?_, fun x => ?_⟩
  · rw [next?_attach_after hc' ((hlive p).trans hp) hl hpl he hne, hlive]
  · exact input?_attach_after hc' hl hpl he hne
  · rw [starts?_attach_after hc' hl hpl he hne ((hlive h).trans hh), hlive, starts?_cutOff]

theorem attached_after :
    g.Attached h p ((g.cutOff h).next? p) ((g.cutOff h).attach h (.after p)) := by
  obtain ⟨l, e, hl, he, hpl, hnext, hinput, hstarts⟩ := exists_attach_after ha hc hh hp hph
  have hend : (g.cutOff h).next? e = none := hl.eq_none_of_getLast? he
  refine ⟨fun x => ?_, mem_children_iff.2 (.inl ((hnext p).trans (if_pos rfl))),
    fun q c hqc hch hcn => ?_, fun t ht hth htn => ?_⟩
  · rw [← contains_cutOff g h x]
    exact attach_induction (P := fun g' => g'.contains x = (g.cutOff h).contains x)
      (fun g' y f _ hg' => (contains_modify g' y f x).trans hg') rfl h (.after p)
  · rcases mem_children_iff.1 (mem_children_cutOff hch hqc) with hn | ⟨m, i, hi, hic⟩
    · refine mem_children_iff.2 (.inl ?_)
      have hqp : q ≠ p := fun hqp => hcn (hqp ▸ hn)
      have hqe : q ≠ e := by
        rintro rfl
        rw [hend] at hn
        cases hn
      rw [hnext, if_neg hqp, if_neg fun hq => hqe hq.1, hn]
    · exact mem_children_iff.2 (.inr ⟨m, i, (hinput q m).trans hi, hic⟩)
  · rw [hstarts, if_neg, ht]
    rintro (he | ⟨hn, -⟩)
    · exact hth he
    · exact htn hn

/-- The old successor of the new parent comes after the last of the moved blocks, if that is live.
-/
theorem mem_children_last (hl : (g.cutOff h).Strand h l) (he : l.getLast? = some e)
    (helive : g.contains e = true) (hn : (g.cutOff h).next? p = some n) :
    n ∈ ((g.cutOff h).attach h (.after p)).children e := by
  obtain ⟨l', e', hl', he', hpl, hnext, -⟩ := exists_attach_after ha hc hh hp hph
  cases hl.unique hl'
  cases he.symm.trans he'
  have hep : e ≠ p := fun hep => hpl (hep ▸ List.mem_of_getLast? he)
  refine mem_children_iff.2 (.inl ?_)
  rw [hnext, if_neg hep, if_pos ⟨rfl, helive⟩, hn]

/-- Where successors and inputs led, they lead still or else by way of the new parent. -/
theorem reaches_after (hr : (g.cutOff h).Reaches t x) :
    ((g.cutOff h).attach h (.after p)).Reaches t x ∨
      ((g.cutOff h).attach h (.after p)).Reaches t p := by
  obtain ⟨l, e, hl, he, -, hnext, hinput, -⟩ := exists_attach_after ha hc hh hp hph
  have hend : (g.cutOff h).next? e = none := hl.eq_none_of_getLast? he
  induction hr with
  | refl => exact .inl .refl
  | @tail y c _ hyc ih =>
    refine ih.elim (fun hy => ?_) .inr
    rcases mem_children_iff.1 hyc with hn | ⟨m, i, hi, hic⟩
    · by_cases hyp : y = p
      · exact .inr (hyp ▸ hy)
      · refine .inl (hy.tail (mem_children_iff.2 (.inl ?_)))
        have hye : y ≠ e := by
          rintro rfl
          rw [hend] at hn
          cases hn
        rw [hnext, if_neg hyp, if_neg fun hy' => hye hy'.1, hn]
    · exact .inl (hy.tail (mem_children_iff.2 (.inr ⟨m, i, (hinput y m).trans hi, hic⟩)))

/-- The old successor comes after the moved blocks, unless it is dropped. -/
theorem onScript_rest (hn : (g.cutOff h).next? p = some n) (hlive : g.contains n = true)
    (hdrops : ¬g.Drops h p n) (habove : ((g.cutOff h).attach h (.after p)).OnScript p) :
    ((g.cutOff h).attach h (.after p)).OnScript n := by
  obtain ⟨l, e, hl, he, hpl, hnext, hinput, -⟩ := exists_attach_after ha hc hh hp hph
  have hend : (g.cutOff h).next? e = none := hl.eq_none_of_getLast? he
  by_cases hin : ∃ m i, (g.cutOff h).input? p m = some i ∧ i.block? = some n
  · obtain ⟨m, i, hi, hic⟩ := hin
    exact habove.child (mem_children_iff.2 (.inr ⟨m, i, (hinput p m).trans hi, hic⟩))
  · have helive : g.contains e = true := by
      by_contra hdead
      exact hdrops ⟨hn, hlive, ⟨l, e, hl, he, Bool.eq_false_iff.2 hdead⟩,
        fun m i hi hic => hin ⟨m, i, hi, hic⟩⟩
    have hmoved : ((g.cutOff h).attach h (.after p)).Reaches h e := by
      refine hl.reflTransGen (fun y z hy hyz => mem_children_iff.2 (.inl ?_))
        (List.mem_of_getLast? he)
      have hyp : y ≠ p := fun hyp => hpl (hyp ▸ hy)
      have hye : y ≠ e := by
        rintro rfl
        rw [hend] at hyz
        cases hyz
      rw [hnext, if_neg hyp, if_neg fun hy' => hye hy'.1, hyz]
    have hfirst := habove.child (attached_after ha hc hh hp hph).self
    obtain ⟨t, ht, hr⟩ := hfirst
    exact OnScript.child (p := e) ⟨t, ht, hr.trans hmoved⟩
      (mem_children_last ha hc hh hp hph hl he helive hn)

/-- **A block that is put behind another one loses nothing**, unless the successor of that is
dropped or uprooted. -/
theorem Agreeing.covered_after (hcov : g.Covered) (hdrops : ∀ n, ¬g.Drops h p n)
    (huproots : ∀ n, ¬g.Uproots h p n) : ((g.cutOff h).attach h (.after p)).Covered := by
  have hatt := attached_after ha hc hh hp hph
  refine covered_of_attached ha hcov hp hph hatt (fun n hn ht _ => ?_)
    (fun y n hn hlive hyn hy => .inr ?_)
    fun n hn hlive => onScript_rest ha hc hh hp hph hn hlive (hdrops n)
  · -- another script leads to the new parent or to the last of the moved blocks
    by_contra hlost
    have hlive := contains_of_starts? ht
    have hp' : ∀ t, g.starts? t = some true → t ≠ h → t ≠ n →
        ¬((g.cutOff h).attach h (.after p)).Reaches t p := fun t ht hth htn hr =>
      hlost (onScript_rest ha hc hh hp hph hn hlive (hdrops n)
        ⟨t, hatt.top t ht hth fun hn' => htn (Option.some.inj (hn'.symm.trans hn)), hr⟩)
    refine huproots n ⟨hn, fun t ht hr => ?_, fun l e hl he helive t ht hr => ?_⟩
    · by_contra htn
      have hth : t ≠ h := fun hth => hph (ha.below_of_reaches hp
        (Relation.ReflTransGen.mono (fun _ _ => mem_children_of_cutOff) _ _ (hth ▸ hr)))
      exact hp' t ht hth htn ((reaches_after ha hc hh hp hph hr).elim id id)
    · by_contra hne
      obtain ⟨hth, htn⟩ := not_or.1 hne
      rcases reaches_after ha hc hh hp hph hr with hr | hr
      · exact hlost ⟨t, hatt.top t ht hth fun hn' => htn (Option.some.inj (hn'.symm.trans hn)),
          hr.tail (mem_children_last ha hc hh hp hph hl he helive hn)⟩
      · exact hp' t ht hth htn hr
  · -- only the block in front refers to its successor
    have hpn := mem_children_of_cutOff (mem_children_of_next? hn)
    exact ha.sole hlive hpn hyn ▸ hy

/-- **A successor that is dropped is on no script any more.** -/
theorem Agreeing.not_onScript_after (hdrops : g.Drops h p n) :
    ¬((g.cutOff h).attach h (.after p)).OnScript n := by
  obtain ⟨l, e, hl, he, -, hnext, hinput, hstarts⟩ := exists_attach_after ha hc hh hp hph
  obtain ⟨l', e', hl', he', hdead⟩ := hdrops.ends
  cases hl.unique hl'
  cases he.symm.trans he'
  have hne := ha.next?_cutOff_ne hh p
  have hsole : ∀ q, n ∈ (g.cutOff h).children q → q = p := fun q hq =>
    ha.sole hdrops.live (mem_children_of_cutOff hq)
      (mem_children_of_cutOff (mem_children_of_next? hdrops.next))
  refine not_onScript ?_ fun q hq => ?_
  · rw [hstarts, if_pos (.inr ⟨hdrops.next, hdrops.live⟩)]
    exact fun hf => Bool.false_ne_true (Option.some.inj hf)
  · rcases mem_children_iff.1 hq with hn | ⟨m, i, hi, hic⟩
    · rw [hnext, hdead] at hn
      by_cases hqp : q = p
      · rw [if_pos hqp] at hn
        exact hne (hdrops.next.trans hn.symm)
      · rw [if_neg hqp, if_neg fun hf => Bool.false_ne_true hf.2] at hn
        exact hqp (hsole q (mem_children_of_next? hn))
    · rw [hinput] at hi
      have hqp := hsole q (mem_children_iff.2 (.inr ⟨m, i, hi, hic⟩))
      exact hdrops.nowhere m i (hqp ▸ hi) hic

/-- **A successor that is uprooted is on no script any more.** -/
theorem Agreeing.not_onScript_of_uproots (hcov : g.Covered) (hup : g.Uproots h p n) :
    ¬((g.cutOff h).attach h (.after p)).OnScript n := by
  obtain ⟨l, e, hl, he, -, hnext, hinput, hstarts⟩ := exists_attach_after ha hc hh hp hph
  obtain ⟨htop, hround⟩ := hup.round ha hcov hp hph
  -- whatever leads to the successor after the move led to `p` or to the last of the moved blocks
  have hback : ∀ y, ((g.cutOff h).attach h (.after p)).Reaches y n → (g.cutOff h).Reaches y p ∨
      g.contains e = true ∧ (g.cutOff h).Reaches y e := fun y hy => by
    induction hy using Relation.ReflTransGen.head_induction_on with
    | refl => exact .inl hround
    | @head y c hyc _ ih =>
      have hlink : c ∈ (g.cutOff h).children y ∨ y = p ∨ y = e ∧ g.contains e = true := by
        rcases mem_children_iff.1 hyc with hn | ⟨m, i, hi, hic⟩
        · rw [hnext] at hn
          split at hn
          · rename_i hyp
            exact .inr (.inl hyp)
          · split at hn
            · rename_i hye
              exact .inr (.inr hye)
            · exact .inl (mem_children_of_next? hn)
        · exact .inl (mem_children_iff.2 (.inr ⟨m, i, (hinput y m).symm.trans hi, hic⟩))
      rcases hlink with hmem | rfl | ⟨rfl, helive⟩
      · exact ih.imp (.head hmem) fun hr => ⟨hr.1, .head hmem hr.2⟩
      · exact .inl .refl
      · exact .inr ⟨helive, .refl⟩
  rintro ⟨u, hu, hr⟩
  rw [hstarts] at hu
  split at hu
  · exact Bool.false_ne_true (Option.some.inj hu)
  · rename_i hkept
    have hun : u ≠ n := fun hun => hkept (.inr (hun ▸ ⟨hup.next, contains_of_starts? htop⟩))
    rcases hback u hr with hr | ⟨helive, hr⟩
    · exact hun (hup.only u hu hr)
    · exact (hup.moved l e hl he helive u hu hr).elim (fun huh => hkept (.inl huh)) hun

end After

/-! ### Moves -/

/-- **A move loses nothing unless it drops or uproots a block.** -/
theorem covered_move_iff (hc : g.Consistent) (ha : g.Agreeing) (hcov : g.Covered)
    {place : Destination} (hm : (g.move h place).2 = true) :
    (g.move h place).1.Covered ↔
      ∀ p n, place = .after p → ¬g.Drops h p n ∧ ¬g.Uproots h p n := by
  obtain ⟨hh, -, hmove⟩ := exists_of_moved hm
  rw [hmove]
  cases place with
  | topLevel x y =>
    refine iff_of_true (hcov.attach_topLevel hh x y) ?_
    intro p n hplace
    cases hplace
  | input p name branch =>
    obtain ⟨hp, hph⟩ := not_below_of_moved hc hm rfl
    refine iff_of_true (ha.covered_input hcov hp hph name branch) ?_
    intro p n hplace
    cases hplace
  | after p =>
    obtain ⟨hp, hph⟩ := not_below_of_moved hc hm rfl
    constructor
    · rintro hafter q n ⟨⟩
      have hon : g.contains n = true → ((g.cutOff h).attach h (.after p)).OnScript n := fun hlive =>
        hafter n (((attached_after ha hc hh hp hph).contains n).trans hlive)
      exact ⟨fun hdrops => ha.not_onScript_after hc hh hp hph hdrops (hon hdrops.live),
        fun hup => ha.not_onScript_of_uproots hc hh hp hph hcov hup
          (hon (contains_of_starts? (hup.round ha hcov hp hph).1))⟩
    · exact fun hkept => ha.covered_after hc hh hp hph hcov (fun n => (hkept p n rfl).1)
        fun n => (hkept p n rfl).2

/-- A block that is dropped or uprooted is live and on no script. -/
theorem lost_of_move (hc : g.Consistent) (ha : g.Agreeing) (hcov : g.Covered)
    (hm : (g.move h (.after p)).2 = true) (hlost : g.Drops h p n ∨ g.Uproots h p n) :
    (g.move h (.after p)).1.contains n = true ∧ ¬(g.move h (.after p)).1.OnScript n := by
  obtain ⟨hh, -, hmove⟩ := exists_of_moved hm
  obtain ⟨hp, hph⟩ := not_below_of_moved hc hm rfl
  rw [hmove, (attached_after ha hc hh hp hph).contains]
  rcases hlost with hdrops | hup
  · exact ⟨hdrops.live, ha.not_onScript_after hc hh hp hph hdrops⟩
  · exact ⟨contains_of_starts? (hup.round ha hcov hp hph).1,
      ha.not_onScript_of_uproots hc hh hp hph hcov hup⟩

end Stagecraft.Graph
