import Stagecraft.Proofs.Schedule.Effects
import Mathlib.Algebra.BigOperators.Group.Finset.Basic
import Mathlib.Algebra.Order.BigOperators.Ring.Finset

/-!
# The book of actors

Who the actors are is kept in four places: the table of actors, the roster of clones of each sprite,
the ids given out so far, and the number of clones. Actors are entered and taken out in three ways
only: an original is added, an actor that is no stage is cloned below the limit, and a clone is
deleted. The book agrees with itself after each of them.

* `Book`, `Book.Entry` : the book and what is done to it;
* `Book.Sound` : the places agree;
* `Book.Sound.entry` : **they do after every entry**;
* `Book.Follows` : originals stay, and no id is given out twice;
* `Book.Sound.sum_rosters` : the rosters have as many rows as there are clones.
-/

namespace Stagecraft

/-- Who the actors are, and the clones of every sprite. -/
structure Book where
  /-- The actors by id. -/
  roles : Table ActorId Role
  /-- The clones of every sprite. -/
  rosters : Table SpriteId (List ActorId)
  /-- The id of the next actor. -/
  nextActor : ActorId
  /-- The id of the next sprite. -/
  nextSprite : SpriteId
  /-- The number of clones. -/
  cloneCount : Nat
  /-- The most clones that there may be. -/
  maxClones : Nat

namespace Book

variable {b b' b'' : Book}

/-! ### Entries -/

/-- Add an original with a sprite of its own. -/
def add (b : Book) (isStage : Bool) : Book :=
  { b with
    roles := b.roles.insert b.nextActor ⟨b.nextActor, b.nextSprite, isStage, false⟩
    rosters := b.rosters.insert b.nextSprite []
    nextActor := b.nextActor + 1
    nextSprite := b.nextSprite + 1 }

/-- Add a clone of an actor. -/
def clone (b : Book) (r : Role) : Book :=
  { b with
    roles := b.roles.insert b.nextActor { r with id := b.nextActor, isClone := true }
    rosters := b.rosters.modify r.sprite (· ++ [b.nextActor])
    nextActor := b.nextActor + 1
    cloneCount := b.cloneCount + 1 }

/-- Take an actor out. -/
def delete (b : Book) (id : ActorId) (r : Role) : Book :=
  { b with
    roles := b.roles.erase id
    rosters := b.rosters.modify r.sprite (·.filter (· ≠ id))
    cloneCount := b.cloneCount - 1 }

/-- What is done to the book. -/
inductive Entry (b : Book) : Book → Prop
  | add (isStage : Bool) : Entry b (b.add isStage)
  | clone {source : ActorId} {r : Role} : b.roles.get? source = some r → r.isStage = false →
      b.cloneCount < b.maxClones → Entry b (b.clone r)
  | delete {id : ActorId} {r : Role} : b.roles.get? id = some r → r.isClone = true →
      Entry b (b.delete id r)

/-- One entry after the other. -/
def Entries : Book → Book → Prop := Relation.ReflTransGen Entry

/-! ### The places agree -/

/-- The clones. -/
def clones (b : Book) : List (ActorId × Role) := b.roles.entries.filter (·.2.isClone)

/-- The clones of a sprite. -/
def clonesOf (b : Book) (sprite : SpriteId) : List ActorId :=
  (b.clones.filter (·.2.sprite == sprite)).map (·.1)

/-- Every actor carries its id, its sprite exists, and no id is left to be given out; the roster
of a sprite lists its clones, oldest first; the number of clones is right and within the limit;
and no clone is a stage. -/
structure Sound (b : Book) : Prop where
  identified : ∀ e ∈ b.roles.entries, e.2.id = e.1
  below : ∀ e ∈ b.roles.entries, e.1 < b.nextActor
  spriteBelow : ∀ e ∈ b.rosters.entries, e.1 < b.nextSprite
  sprite : ∀ e ∈ b.roles.entries, e.2.sprite ∈ b.rosters.keys
  roster : ∀ e ∈ b.rosters.entries, e.2 = b.clonesOf e.1
  count : b.cloneCount = b.clones.length
  limit : b.cloneCount ≤ b.maxClones
  stage : ∀ e ∈ b.roles.entries, e.2.isClone = true → e.2.isStage = false

theorem nodup_clonesOf (b : Book) (sprite : SpriteId) : (b.clonesOf sprite).Nodup :=
  b.roles.nodup.sublist ((List.filter_sublist.trans List.filter_sublist).map _)

theorem mem_clonesOf {id : ActorId} {sprite : SpriteId} :
    id ∈ b.clonesOf sprite ↔
      ∃ r, b.roles.get? id = some r ∧ r.isClone = true ∧ r.sprite = sprite := by
  constructor
  · intro h
    obtain ⟨e, he, rfl⟩ := List.mem_map.1 h
    obtain ⟨he, hsprite⟩ := List.mem_filter.1 he
    obtain ⟨he, hclone⟩ := List.mem_filter.1 he
    exact ⟨e.2, (Table.get?_eq_some_iff _ _ _).2 he, hclone, beq_iff_eq.1 hsprite⟩
  · rintro ⟨r, hr, hclone, rfl⟩
    have he : (id, r) ∈ b.clones :=
      List.mem_filter.2 ⟨(Table.get?_eq_some_iff _ _ _).1 hr, hclone⟩
    exact List.mem_map.2 ⟨(id, r), List.mem_filter.2 ⟨he, beq_self_eq_true _⟩, rfl⟩

/-- A clone stands once with its sprite, and with no other. -/
theorem count_clonesOf {id : ActorId} {r : Role} (hr : b.roles.get? id = some r)
    (hclone : r.isClone = true) (sprite : SpriteId) :
    (b.clonesOf sprite).count id = if sprite = r.sprite then 1 else 0 := by
  split
  · rename_i hs
    exact List.count_eq_one_of_mem (b.nodup_clonesOf sprite)
      (mem_clonesOf.2 ⟨r, hr, hclone, hs.symm⟩)
  · rename_i hs
    refine List.count_eq_zero_of_not_mem fun hm => ?_
    obtain ⟨r', hr', _, hsprite⟩ := mem_clonesOf.1 hm
    rw [hr] at hr'
    cases hr'
    exact hs hsprite.symm

namespace Sound

theorem nextActor_notMem (h : b.Sound) : b.nextActor ∉ b.roles.keys := by
  intro hm
  obtain ⟨e, he, hkey⟩ := List.mem_map.1 hm
  exact Nat.ne_of_lt (h.below e he) hkey

theorem nextSprite_notMem (h : b.Sound) : b.nextSprite ∉ b.rosters.keys := by
  intro hm
  obtain ⟨e, he, hkey⟩ := List.mem_map.1 hm
  exact Nat.ne_of_lt (h.spriteBelow e he) hkey

/-- A sprite that is still to come has no clones. -/
theorem clonesOf_nextSprite (h : b.Sound) : b.clonesOf b.nextSprite = [] := by
  refine List.map_eq_nil_iff.2 (List.filter_eq_nil_iff.2 fun e he hs => ?_)
  have hsprite := h.sprite e (List.mem_of_mem_filter he)
  rw [beq_iff_eq.1 hs] at hsprite
  exact h.nextSprite_notMem hsprite

end Sound

theorem entries_insert_new {α : Type} {t : Table Nat α} {k : Nat} (hk : k ∉ t.keys) (v : α) :
    (t.insert k v).entries = t.entries ++ [(k, v)] :=
  Table.insertRow_of_notMem v hk

theorem keys_modify {α : Type} (t : Table Nat α) (k : Nat) (f : α → α) :
    (t.modify k f).keys = t.keys := by
  simp only [Table.keys, Table.modify, List.map_map]
  refine List.map_congr_left fun e _ => ?_
  by_cases he : e.1 = k <;> simp [he]

/-- What holds of all rows and of a new one holds when that one is at the end. -/
theorem forall_of_entered {α : Type} {l l' : List (Nat × α)} {e : Nat × α} (hl : l' = l ++ [e])
    {P : Nat × α → Prop} (hold : ∀ x ∈ l, P x) (hnew : P e) : ∀ x ∈ l', P x := by
  rw [hl]
  exact List.forall_mem_append.2 ⟨hold, List.forall_mem_singleton.2 hnew⟩

/-- **An original is added.** -/
theorem Sound.add (h : b.Sound) (isStage : Bool) : (b.add isStage).Sound := by
  have hroles : (b.add isStage).roles.entries =
      b.roles.entries ++ [(b.nextActor, ⟨b.nextActor, b.nextSprite, isStage, false⟩)] :=
    entries_insert_new h.nextActor_notMem _
  have hrosters : (b.add isStage).rosters.entries = b.rosters.entries ++ [(b.nextSprite, [])] :=
    entries_insert_new h.nextSprite_notMem _
  have hkeys : (b.add isStage).rosters.keys = b.rosters.keys ++ [b.nextSprite] := by
    simp only [Table.keys, hrosters, List.map_append, List.map_cons, List.map_nil]
  have hclones : (b.add isStage).clones = b.clones := by
    simp [clones, hroles]
  have hof : ∀ s, (b.add isStage).clonesOf s = b.clonesOf s := fun s => by
    rw [clonesOf, hclones, clonesOf]
  refine ⟨forall_of_entered hroles h.identified rfl,
    forall_of_entered hroles (fun e he => Nat.lt_succ_of_lt (h.below e he)) (Nat.lt_succ_self _),
    forall_of_entered hrosters (fun e he => Nat.lt_succ_of_lt (h.spriteBelow e he))
      (Nat.lt_succ_self _),
    forall_of_entered hroles (fun e he => ?_) ?_, forall_of_entered hrosters (fun e he => ?_) ?_,
    ?_, h.limit, forall_of_entered hroles h.stage fun hc => by cases hc⟩
  · rw [hkeys]
    exact List.mem_append_left _ (h.sprite e he)
  · rw [hkeys]
    exact List.mem_append_right _ (List.mem_singleton_self _)
  · rw [hof]
    exact h.roster e he
  · exact ((hof b.nextSprite).trans h.clonesOf_nextSprite).symm
  · rw [hclones]
    exact h.count

/-- The roster of one sprite is changed. -/
theorem forall_of_modify (h : b.Sound) {sprite : SpriteId} {f : List ActorId → List ActorId}
    {P : SpriteId → List ActorId → Prop} (hthis : P sprite (f (b.clonesOf sprite)))
    (hother : ∀ s, s ≠ sprite → P s (b.clonesOf s)) :
    ∀ e ∈ (b.rosters.modify sprite f).entries, P e.1 e.2 := by
  intro e he
  obtain ⟨e', he', rfl⟩ := List.mem_map.1 he
  have hroster := h.roster e' he'
  split
  · rename_i hs
    subst hs
    exact hroster ▸ hthis
  · rename_i hs
    exact hroster ▸ hother e'.1 hs

theorem spriteBelow_modify (h : b.Sound) (sprite : SpriteId) (f : List ActorId → List ActorId) :
    ∀ e ∈ (b.rosters.modify sprite f).entries, e.1 < b.nextSprite := by
  intro e he
  obtain ⟨e', he', rfl⟩ := List.mem_map.1 he
  split <;> exact h.spriteBelow e' he'

/-- **An actor is cloned.** -/
theorem Sound.clone (h : b.Sound) {source : ActorId} {r : Role}
    (hr : b.roles.get? source = some r) (hstage : r.isStage = false)
    (hlimit : b.cloneCount < b.maxClones) : (b.clone r).Sound := by
  have hmem : (source, r) ∈ b.roles.entries := (Table.get?_eq_some_iff _ _ _).1 hr
  have hroles : (b.clone r).roles.entries =
      b.roles.entries ++ [(b.nextActor, { r with id := b.nextActor, isClone := true })] :=
    entries_insert_new h.nextActor_notMem _
  have hkeys : (b.clone r).rosters.keys = b.rosters.keys := keys_modify _ _ _
  have hclones : (b.clone r).clones =
      b.clones ++ [(b.nextActor, { r with id := b.nextActor, isClone := true })] := by
    simp [clones, hroles]
  refine ⟨forall_of_entered hroles h.identified rfl,
    forall_of_entered hroles (fun e he => Nat.lt_succ_of_lt (h.below e he)) (Nat.lt_succ_self _),
    spriteBelow_modify h _ _,
    forall_of_entered hroles (fun e he => hkeys ▸ h.sprite e he) ?_,
    forall_of_modify h (P := fun s l => l = (b.clone r).clonesOf s) ?_ (fun s hs => ?_), ?_, hlimit,
    forall_of_entered hroles h.stage fun _ => hstage⟩
  · rw [hkeys]
    exact h.sprite (source, r) hmem
  · simp [clonesOf, hclones]
  · simp [clonesOf, hclones, Ne.symm hs]
  · rw [hclones, List.length_append]
    exact congrArg (· + 1) h.count

/-- Taking out one row of a table leaves one row less. -/
theorem length_filter_ne {l : List (ActorId × Role)} (hl : (l.map (·.1)).Nodup)
    {e : ActorId × Role} (he : e ∈ l) : (l.filter (·.1 ≠ e.1)).length = l.length - 1 := by
  have hcount : l.countP (fun x => x.1 = e.1) = 1 := by
    have hone := List.count_eq_one_of_mem hl (List.mem_map.2 ⟨e, he, rfl⟩)
    rw [List.count, List.countP_map] at hone
    rw [← hone]
    exact List.countP_congr fun x _ => by simp
  have hsplit := List.length_eq_countP_add_countP (fun x : ActorId × Role => x.1 = e.1) (l := l)
  have hrest : l.countP (fun x => ¬x.1 = e.1) = (l.filter (·.1 ≠ e.1)).length :=
    List.countP_eq_length_filter ..
  simp only [decide_eq_true_eq] at hsplit
  omega

/-- **A clone is deleted.** -/
theorem Sound.delete (h : b.Sound) {id : ActorId} {r : Role} (hr : b.roles.get? id = some r)
    (hclone : r.isClone = true) : (b.delete id r).Sound := by
  have hmem : (id, r) ∈ b.roles.entries := (Table.get?_eq_some_iff _ _ _).1 hr
  have hroles : (b.delete id r).roles.entries = b.roles.entries.filter (·.1 ≠ id) := rfl
  have hkeys : (b.delete id r).rosters.keys = b.rosters.keys := keys_modify _ _ _
  have hclones : (b.delete id r).clones = b.clones.filter (·.1 ≠ id) := by
    rw [clones, clones, hroles, List.filter_filter, List.filter_filter]
    exact List.filter_congr fun _ _ => Bool.and_comm _ _
  have hof : ∀ s, (b.delete id r).clonesOf s = (b.clonesOf s).filter (· ≠ id) := by
    intro s
    rw [clonesOf, clonesOf, hclones, List.filter_map, List.filter_filter, List.filter_filter]
    congr 1
    exact List.filter_congr fun _ _ => Bool.and_comm _ _
  have hsub : ∀ e ∈ (b.delete id r).roles.entries, e ∈ b.roles.entries := fun e he =>
    List.mem_of_mem_filter (hroles ▸ he)
  refine ⟨fun e he => h.identified e (hsub e he), fun e he => h.below e (hsub e he),
    spriteBelow_modify h _ _, fun e he => hkeys ▸ h.sprite e (hsub e he),
    forall_of_modify h (P := fun s l => l = (b.delete id r).clonesOf s) (hof r.sprite).symm
      (fun s hs => ?_), ?_, Nat.le_trans (Nat.sub_le _ _) h.limit,
    fun e he => h.stage e (hsub e he)⟩
  · -- the clone is in no other roster
    rw [hof, List.filter_eq_self.2]
    intro id' hid'
    obtain ⟨e, he, rfl⟩ := List.mem_map.1 hid'
    obtain ⟨he, hsprite⟩ := List.mem_filter.1 he
    refine decide_eq_true fun hkey => hs ?_
    have hsame : e = (id, r) :=
      List.inj_on_of_nodup_map b.roles.nodup (List.mem_of_mem_filter he) hmem hkey
    rw [hsame] at hsprite
    exact (beq_iff_eq.1 hsprite).symm
  · have hnodup : (b.clones.map (·.1)).Nodup := b.roles.nodup.sublist (List.filter_sublist.map _)
    have hin : (id, r) ∈ b.clones := List.mem_filter.2 ⟨hmem, hclone⟩
    rw [hclones, length_filter_ne hnodup hin, ← h.count]
    rfl

/-- **After every entry the places agree.** -/
theorem Sound.entry (h : b.Sound) (he : Entry b b') : b'.Sound := by
  cases he with
  | add isStage => exact h.add isStage
  | clone hr hstage hlimit => exact h.clone hr hstage hlimit
  | delete hr hclone => exact h.delete hr hclone

theorem Sound.entries (h : b.Sound) (he : Entries b b') : b'.Sound := by
  induction he with
  | refl => exact h
  | tail _ he ih => exact ih.entry he

/-! ### What stays -/

/-- Originals stay who they are, whoever has an id that was given out before had it before, and the
limit stands. -/
structure Follows (b b' : Book) : Prop where
  next_le : b.nextActor ≤ b'.nextActor
  original : ∀ id r, b.roles.get? id = some r → r.isClone = false → b'.roles.get? id = some r
  old : ∀ id r, b'.roles.get? id = some r → id < b.nextActor → b.roles.get? id = some r
  maxClones : b'.maxClones = b.maxClones

theorem Follows.refl (b : Book) : Follows b b :=
  ⟨Nat.le_refl _, fun _ _ h _ => h, fun _ _ h _ => h, rfl⟩

theorem Follows.trans (h : Follows b b') (h' : Follows b' b'') : Follows b b'' :=
  ⟨Nat.le_trans h.next_le h'.next_le,
    fun id r hr hc => h'.original id r (h.original id r hr hc) hc,
    fun id r hr hlt => h.old id r (h'.old id r hr (Nat.lt_of_lt_of_le hlt h.next_le)) hlt,
    h'.maxClones.trans h.maxClones⟩

/-- An actor is added under a new id. -/
theorem Follows.of_insert (h : b.Sound) {r : Role} (hn : b'.nextActor = b.nextActor + 1)
    (hroles : b'.roles = b.roles.insert b.nextActor r) (hmax : b'.maxClones = b.maxClones) :
    Follows b b' := by
  refine ⟨hn ▸ Nat.le_succ _, fun id r hr _ => ?_, fun id r hr hlt => ?_, hmax⟩
  · have hlt := h.below _ ((Table.get?_eq_some_iff _ _ _).1 hr)
    rw [hroles, Table.get?_insert_of_ne _ (Nat.ne_of_lt hlt)]
    exact hr
  · rwa [hroles, Table.get?_insert_of_ne _ (Nat.ne_of_lt hlt)] at hr

theorem Sound.follows (h : b.Sound) (he : Entry b b') : Follows b b' := by
  cases he with
  | add isStage => exact .of_insert h rfl rfl rfl
  | clone _ _ _ => exact .of_insert h rfl rfl rfl
  | @delete id r hr hclone =>
    refine ⟨Nat.le_refl _, fun id' r' hr' hc => ?_, fun id' r' hr' _ => ?_, rfl⟩
    · have hne : id' ≠ id := by
        rintro rfl
        rw [hr] at hr'
        cases hr'
        rw [hclone] at hc
        cases hc
      exact (Table.get?_erase_of_ne _ hne).trans hr'
    · by_cases hid : id' = id
      · subst hid
        rw [show (b.delete id' r).roles = b.roles.erase id' from rfl, Table.get?_erase_self] at hr'
        cases hr'
      · exact (Table.get?_erase_of_ne _ hid).symm.trans hr'

/-- **Originals stay, and no id is given out twice.** This is an induction on the entries. -/
theorem Sound.follows_of_entries (h : b.Sound) (he : Entries b b') : Follows b b' := by
  induction he with
  | refl => exact .refl b
  | tail hes he ih => exact ih.trans ((h.entries hes).follows he)

/-! ### The rosters together -/

/-- **The rosters have as many rows as there are clones.** -/
theorem Sound.sum_rosters (h : b.Sound) :
    (b.rosters.entries.map fun e => e.2.length).sum = b.cloneCount := by
  have hlength : ∀ e ∈ b.rosters.entries,
      e.2.length = (b.clones.map (·.2.sprite)).count e.1 := by
    intro e he
    rw [h.roster e he, clonesOf, List.length_map, List.count, List.countP_map,
      List.countP_eq_length_filter]
    rfl
  have hin : ∀ s ∈ (b.clones.map (·.2.sprite) : Multiset SpriteId),
      s ∈ b.rosters.keys.toFinset := by
    intro s hs
    obtain ⟨e, he, rfl⟩ := List.mem_map.1 (Multiset.mem_coe.1 hs)
    exact List.mem_toFinset.2 (h.sprite e (List.mem_of_mem_filter he))
  have hnodup : b.rosters.keys.Nodup := b.rosters.nodup
  calc (b.rosters.entries.map fun e => e.2.length).sum
      = (b.rosters.keys.map fun s => (b.clones.map (·.2.sprite)).count s).sum := by
        rw [Table.keys, List.map_map]
        exact congrArg List.sum (List.map_congr_left hlength)
    _ = ∑ s ∈ b.rosters.keys.toFinset, (b.clones.map (·.2.sprite) : Multiset SpriteId).count s := by
        rw [List.sum_toFinset _ hnodup]
        simp only [Multiset.coe_count]
    _ = b.clones.length := by
        rw [Multiset.sum_count_eq_card hin, Multiset.coe_card, List.length_map]
    _ = b.cloneCount := h.count.symm

end Book

end Stagecraft
