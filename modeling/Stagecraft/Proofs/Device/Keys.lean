import Stagecraft.Primitive.Run
import Mathlib.Data.List.Induction

/-!
# Keys that are held

The host tells the keyboard of one stroke after the other, and scripts ask whether a key is held.
Both give the key by a character or a word, and each has its own way to make a name of that:
`keyName?` for strokes and `keyOfValue?` for questions. On a single character the two agree, but for
the blank: its strokes are strokes of `space`, whereas a question with a blank asks for a key that
is called like the blank itself, and no stroke is one of such a key.

* `Keyboard.mem_held_after` : a name is held exactly if the last stroke of it was a press;
* `Keyboard.nodup_held_after` : no name is held twice;
* `keyName?_singleton`, `keyOfValue?_singleton` : the names that strokes of a character and
  questions with it have, which are the same but for the blank;
* `Keyboard.held_of_strokes` : **what questions are answered** after every sequence of strokes.
-/

namespace Stagecraft

/-- A key of the host goes down or up. -/
structure Stroke where
  /-- The key, by a character or a word of the host. -/
  key : String
  /-- Whether it goes down. -/
  down : Bool
deriving DecidableEq

/-- The last stroke of a key with a name, if there is one, went down. -/
def LastDown (name : Option String) (strokes : List Stroke) : Prop :=
  ((strokes.filter fun s => keyName? s.key = name).getLast?).map (·.down) = some true

instance (name : Option String) (strokes : List Stroke) : Decidable (LastDown name strokes) :=
  inferInstanceAs (Decidable (_ = _))

/-! ### One stroke after the other -/

namespace Keyboard

/-- The keyboard after strokes, from the first one on. -/
def after (strokes : List Stroke) : Keyboard :=
  strokes.foldl (fun k s => (k.post s.key s.down).1) .empty

theorem after_append_singleton (strokes : List Stroke) (s : Stroke) :
    after (strokes ++ [s]) = ((after strokes).post s.key s.down).1 := by
  rw [after, List.foldl_append]
  rfl

/-- **A stroke sets whether its own name is held** and leaves all other names alone. -/
theorem mem_held_post (k : Keyboard) (key : String) (down : Bool) (name : String) :
    name ∈ (k.post key down).1.held ↔
      if keyName? key = some name then down = true else name ∈ k.held := by
  unfold post
  cases keyName? key with
  | none => simp
  | some n =>
    by_cases hn : n = name
    · subst hn
      cases down with
      | false => simp
      | true => by_cases hheld : n ∈ k.held <;> simp [hheld]
    · cases down with
      | false => simp [hn, Ne.symm hn]
      | true => by_cases hheld : n ∈ k.held <;> simp [hheld, hn, Ne.symm hn]

theorem nodup_held_post {k : Keyboard} (h : k.held.Nodup) (key : String) (down : Bool) :
    (k.post key down).1.held.Nodup := by
  unfold post
  cases keyName? key with
  | none => exact h
  | some n =>
    cases down with
    | false => exact h.sublist List.filter_sublist
    | true =>
      by_cases hheld : n ∈ k.held
      · simpa [hheld] using h
      · have happend : (k.held ++ [n]).Nodup :=
          List.nodup_append.2 ⟨h, List.pairwise_singleton _ n, fun a ha b hb hab =>
            hheld (List.mem_singleton.1 hb ▸ hab ▸ ha)⟩
        simpa [hheld] using happend

/-- **A name is held exactly if the last stroke of it was a press.** -/
theorem mem_held_after (strokes : List Stroke) (name : String) :
    name ∈ (after strokes).held ↔ LastDown (some name) strokes := by
  -- the last stroke decides if it is one of the name, and else those before it do
  induction strokes using List.reverseRecOn with
  | nil => simp [after, empty, LastDown]
  | append_singleton strokes s ih =>
    rw [after_append_singleton, mem_held_post, ih, LastDown, LastDown, List.filter_append]
    by_cases hname : keyName? s.key = some name <;> simp [hname]

theorem nodup_held_after (strokes : List Stroke) : (after strokes).held.Nodup := by
  induction strokes using List.reverseRecOn with
  | nil => exact List.nodup_nil
  | append_singleton strokes s ih =>
    rw [after_append_singleton]
    exact nodup_held_post ih s.key s.down

end Keyboard

/-! ### Names of a character -/

/-- A text of one character is no longer text. -/
theorem singleton_ne {c : Char} {s : String} (hs : s.toList.length ≠ 1) : String.singleton c ≠ s :=
  fun h => hs (by rw [← h, String.toList_singleton, List.length_singleton])

/-- A stroke of a character is named by its upper-case form, but for the blank. -/
theorem keyName?_singleton {c : Char} (hc : c ≠ ' ') :
    keyName? (String.singleton c) = some (String.ofList (Text.upperChar c)) := by
  have hblank : String.singleton c ≠ " " := fun h => hc (by simpa using congrArg String.toList h)
  unfold keyName?
  split
  · rename_i h
    exact absurd h hblank
  all_goals try (rename_i h; exact absurd h (singleton_ne (by decide)))
  · simp

/-- A question with a character is named by its upper-case form. -/
theorem keyOfValue?_singleton (c : Char) :
    keyOfValue? (.text (String.singleton c)) = some (String.ofList (Text.upperChar c)) := by
  have hword : String.singleton c ∉ keyWords := by
    simp only [keyWords, List.mem_cons, List.not_mem_nil, or_false, not_or]
    refine ⟨?_, ?_, ?_, ?_, ?_, ?_, ?_⟩ <;> exact singleton_ne (by decide)
  have hcontains : keyWords.contains (String.singleton c) = false := by simpa using hword
  rw [keyOfValue?, Value.toText, keyOfText?, hcontains]
  · simp
  · exact fun code h => nomatch h

/-! ### Upper-case forms -/

namespace Text

theorem toUpper_eq_blank {c : Char} (h : c.toUpper = ' ') : c = ' ' := by
  unfold Char.toUpper at h
  split at h
  · rename_i hlower
    have hgap : 'A'.val - 'a'.val = 4294967264 := by decide
    have hblank : ' '.val = 32 := by decide
    have hlow : (97 : UInt32) ≤ c.val := hlower.1
    have hhigh : c.val ≤ (122 : UInt32) := hlower.2
    have hval := congrArg Char.val h
    dsimp only at hval
    rw [hgap, hblank] at hval
    grind
  · exact h

theorem ofNat_eq_blank {n : Nat} (h : Char.ofNat n = ' ') : n = 0x20 := by
  by_cases hn : n.isValidChar
  · rw [Char.ofNat, dif_pos hn] at h
    exact congrArg Char.toNat h
  · rw [Char.ofNat, dif_neg hn] at h
    cases h

/-- No letter becomes a blank. -/
theorem shiftCase_upperRuns_ne {n : Nat} (hn : 0x80 ≤ n) : shiftCase upperRuns n ≠ 0x20 := by
  have hruns : ∀ r ∈ upperRuns, (0x20 : Int) < r.first + r.shift := by decide +kernel
  unfold shiftCase
  split
  · rename_i r hr
    have hrun := hruns r (List.mem_of_find?_eq_some hr)
    have hfirst := List.find?_some hr
    simp only [Bool.and_eq_true, decide_eq_true_eq] at hfirst
    omega
  · omega

/-- The upper-case form of a character is several characters from the table, or a single one that
is the blank for the blank alone. -/
theorem upperChar_cases (c : Char) :
    (∃ e ∈ upperExpansions, upperChar c = e.2.map Char.ofNat) ∨
      ∃ d, upperChar c = [d] ∧ (d = ' ' → c = ' ') := by
  unfold upperChar
  split
  · exact .inr ⟨_, rfl, toUpper_eq_blank⟩
  · rename_i hn
    split
    · rename_i e he
      exact .inl ⟨e, List.mem_of_find?_eq_some he, rfl⟩
    · exact .inr ⟨_, rfl, fun h =>
        absurd (ofNat_eq_blank h) (shiftCase_upperRuns_ne (Nat.le_of_not_lt hn))⟩

theorem upperChar_eq_blank {c : Char} (h : upperChar c = [' ']) : c = ' ' := by
  have htable : ∀ e ∈ upperExpansions, e.2.map Char.ofNat ≠ [' '] := by decide +kernel
  rcases upperChar_cases c with ⟨e, he, hform⟩ | ⟨d, hform, hblank⟩
  · exact absurd (hform.symm.trans h) (htable e he)
  · exact hblank (List.singleton_inj.1 (hform.symm.trans h))

theorem upperChar_ne_any (c : Char) : upperChar c ≠ ['a', 'n', 'y'] := by
  have htable : ∀ e ∈ upperExpansions, e.2.map Char.ofNat ≠ ['a', 'n', 'y'] := by decide +kernel
  intro h
  rcases upperChar_cases c with ⟨e, he, hform⟩ | ⟨d, hform, -⟩
  · exact htable e he (hform.symm.trans h)
  · cases hform.symm.trans h

end Text

/-- No stroke is one of a key that is called like the blank. -/
theorem keyName?_ne_blank (key : String) : keyName? key ≠ some " " := by
  intro h
  by_cases hkey : key = " "
  · subst hkey
    revert h
    decide
  · unfold keyName? at h
    -- words have names of their own, and other keys are named by their character
    split at h
    all_goals try (revert h; decide)
    split at h
    · rename_i c hc
      have hform : Text.upperChar c = [' '] := by
        simpa using congrArg String.toList (Option.some.inj h)
      refine hkey (String.toList_inj.1 ?_)
      rw [hc, Text.upperChar_eq_blank hform]
      rfl
    · cases h

/-! ### Questions -/

namespace Keyboard

/-- A question about one key asks whether its name is held. -/
theorem isDown_iff (k : Keyboard) {v : Value} {name : String} (hv : keyOfValue? v = some name)
    (hname : name ≠ "any") : k.isDown v = true ↔ name ∈ k.held := by
  unfold isDown
  rw [hv]
  split
  · rename_i h
    cases h
  · rename_i h
    exact absurd (Option.some.inj h) hname
  · rename_i h
    cases h
    simp

/-- A question with a character asks whether the upper-case form of it is held. -/
theorem isDown_singleton (k : Keyboard) (c : Char) :
    k.isDown (.text (String.singleton c)) = true ↔
      String.ofList (Text.upperChar c) ∈ k.held := by
  refine k.isDown_iff (keyOfValue?_singleton c) fun h => Text.upperChar_ne_any c ?_
  simpa using congrArg String.toList h

/-- **What questions are answered.** After every sequence of strokes, a question with a single
character, by a host or by a block, is answered yes exactly if the character is not the blank and
the last stroke with the name of the character was a press. With the blank the answer is always no.
No name is held twice, and `any` key is held exactly if some name is. -/
theorem held_of_strokes (strokes : List Stroke) :
    (∀ c, (after strokes).isDown (.text (String.singleton c)) = true ↔
      c ≠ ' ' ∧ LastDown (keyName? (String.singleton c)) strokes) ∧
    (∀ {σ : Type} (ext : Extensions σ) (site : Site) (args : Args) (s : Scene σ) (c : Char),
      s.world.keyboard = after strokes → args.value "KEY_OPTION" = .text (String.singleton c) →
        Primitive.run ext (.sensing .keyPressed) site args s = (s, .value (.flag
          (decide (c ≠ ' ' ∧ LastDown (keyName? (String.singleton c)) strokes))))) ∧
    (after strokes).held.Nodup ∧
    ((after strokes).isDown (.text "any") = true ↔ (after strokes).held ≠ []) := by
  have hask : ∀ c, (after strokes).isDown (.text (String.singleton c)) = true ↔
      c ≠ ' ' ∧ LastDown (keyName? (String.singleton c)) strokes := by
    intro c
    rw [isDown_singleton, mem_held_after]
    by_cases hc : c = ' '
    · -- no stroke has the name that a question with the blank asks for
      subst hc
      have hnone : strokes.filter (fun s => keyName? s.key = some " ") = [] := by
        simp [keyName?_ne_blank]
      have hform : String.ofList (Text.upperChar ' ') = " " := by decide
      simp [hform, LastDown, hnone]
    · rw [keyName?_singleton hc]
      simp [hc]
  refine ⟨hask, ?_, nodup_held_after strokes, ?_⟩
  · intro σ ext site args s c hkeyboard hargs
    have hrun : Primitive.run ext (.sensing .keyPressed) site args s =
        (s, .value (.flag (s.world.keyboard.isDown (args.value "KEY_OPTION")))) := rfl
    rw [hrun, hkeyboard, hargs, Bool.eq_iff_iff.2 ((hask c).trans decide_eq_true_iff.symm)]
  · have hany : keyOfValue? (.text "any") = some "any" := rfl
    unfold isDown
    rw [hany]
    simp

/-- The blank is held, and a question with the blank is answered no. -/
theorem unheard_blank : LastDown (keyName? (String.singleton ' ')) [⟨" ", true⟩] ∧
    (after [⟨" ", true⟩]).held = ["space"] ∧
    (after [⟨" ", true⟩]).isDown (.text (String.singleton ' ')) = false := by
  decide

end Keyboard

end Stagecraft
