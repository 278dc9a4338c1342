import Stagecraft.Proofs.Json.Spelling

/-!
# Documents as text

What is written of a document can be read again. The writer puts every item and member on a line of
its own; the reader skips these blanks, undoes the escapes of a string and takes a number as it is
spelled. Reading costs two calls for a character at most, so the fuel that `Json.parse?` has is
enough.

* `Json.written` : what the writer adds to a text, as a list of characters;
* `Json.readString_quoted` : a string in quotes is read as it was;
* `Json.Legible` : documents whose texts exist and whose numbers are spelled;
* `Json.parse?_indented` : **a legible document is read as it was written**.
-/

namespace Stagecraft.Json

/-! ### What is written -/

theorem toList_foldl_push (cs : List Char) :
    ∀ out : String, (cs.foldl String.push out).toList = out.toList ++ cs := by
  induction cs with
  | nil => exact fun out => (List.append_nil _).symm
  | cons c rest ih =>
    intro out
    rw [List.foldl_cons, ih, String.toList_push, List.append_assoc]
    rfl

/-- A text in quotes. -/
def quoted (s : String) : List Char := '"' :: (s.toList.flatMap escape ++ ['"'])

theorem toList_writeString (out s : String) :
    (writeString out s).toList = out.toList ++ quoted s := by
  have hbody : ∀ (cs : List Char) (out : String),
      (cs.foldl (fun out c => (escape c).foldl String.push out) out).toList =
        out.toList ++ cs.flatMap escape := by
    intro cs
    induction cs with
    | nil => exact fun out => (List.append_nil _).symm
    | cons c rest ih =>
      intro out
      rw [List.foldl_cons, ih, toList_foldl_push, List.flatMap_cons, List.append_assoc]
  rw [writeString, String.toList_push, hbody, String.toList_push, quoted]
  simp

/-- The start of a line. -/
def line (depth : Nat) : List Char := '\n' :: List.replicate (2 * depth) ' '

theorem toList_startLine (out : String) (depth : Nat) :
    (startLine out depth).toList = out.toList ++ line depth := by
  rw [startLine, toList_foldl_push, String.toList_push, List.append_assoc, line]
  rfl

mutual

/-- A document at a depth. -/
def written (depth : Nat) : Json → List Char
  | .null => ['n', 'u', 'l', 'l']
  | .flag b => (if b then "true" else "false").toList
  | .number spelling => spelling.toList
  | .text s => quoted (s.getD "")
  | .array [] => ['[', ']']
  | .array (item :: rest) =>
    '[' :: (writtenLines depth true (item :: rest) ++ (line depth ++ [']']))
  | .object [] => ['\x7b', '\x7d']
  | .object (member :: rest) =>
    '\x7b' :: (writtenMembers depth true (member :: rest) ++ (line depth ++ ['\x7d']))

/-- Items on lines of their own. -/
def writtenLines (depth : Nat) (first : Bool) : List Json → List Char
  | [] => []
  | item :: rest => (if first then [] else [',']) ++
    (line (depth + 1) ++ (written (depth + 1) item ++ writtenLines depth false rest))

/-- Members on lines of their own. -/
def writtenMembers (depth : Nat) (first : Bool) : List (Option String × Json) → List Char
  | [] => []
  | (name, value) :: rest => (if first then [] else [',']) ++
    (line (depth + 1) ++ (quoted (name.getD "") ++ (':' :: ' ' ::
      (written (depth + 1) value ++ writtenMembers depth false rest))))

end

mutual

theorem toList_writeIndented (depth : Nat) (out : String) :
    ∀ j : Json, (writeIndented out depth j).toList = out.toList ++ written depth j
  | .null => by
    rw [writeIndented, String.toList_append, written]
    rfl
  | .flag b => by rw [writeIndented, String.toList_append, written]
  | .number spelling => by rw [writeIndented, String.toList_append, written]
  | .text s => by rw [writeIndented, writeName, toList_writeString, written]
  | .array [] => by
    rw [writeIndented, String.toList_append, written]
    rfl
  | .array (item :: rest) => by
    rw [writeIndented, String.toList_push, toList_startLine,
      toList_writeLines depth true (out.push '[') (item :: rest), String.toList_push, written]
    simp
  | .object [] => by
    rw [writeIndented, String.toList_append, written]
    rfl
  | .object (member :: rest) => by
    rw [writeIndented, String.toList_push, toList_startLine,
      toList_writeMemberLines depth true (out.push '\x7b') (member :: rest), String.toList_push,
      written]
    simp

theorem toList_writeLines (depth : Nat) (first : Bool) (out : String) :
    ∀ items : List Json,
      (writeLines out depth first items).toList = out.toList ++ writtenLines depth first items
  | [] => by rw [writeLines, writtenLines, List.append_nil]
  | item :: rest => by
    rw [writeLines, toList_writeLines depth false _ rest, toList_writeIndented (depth + 1) _ item,
      toList_startLine, writtenLines]
    cases first <;> simp

theorem toList_writeMemberLines (depth : Nat) (first : Bool) (out : String) :
    ∀ members : List (Option String × Json),
      (writeMemberLines out depth first members).toList =
        out.toList ++ writtenMembers depth first members
  | [] => by rw [writeMemberLines, writtenMembers, List.append_nil]
  | (name, value) :: rest => by
    rw [writeMemberLines, toList_writeMemberLines depth false _ rest,
      toList_writeIndented (depth + 1) _ value, String.toList_append, writeName, toList_writeString,
      toList_startLine, writtenMembers]
    cases first <;> simp

end

theorem toList_indented (j : Json) : j.indented.toList = written 0 j := by
  rw [indented, toList_writeIndented, String.toList_empty, List.nil_append]

/-! ### Strings -/

theorem hexDigit?_hexChar (n : Nat) (hn : n < 16) : hexDigit? (hexChar n) = some n := by
  have h : ∀ n < 16, hexDigit? (hexChar n) = some n := by decide
  exact h n hn

/-- An escaped character is one unit. -/
theorem scanString_escape (c : Char) (rest : List Char) (units : List Nat) :
    scanString (escape c ++ rest) units = scanString rest (c.toNat :: units) := by
  unfold escape
  split
  · rfl
  · rfl
  · rfl
  · rfl
  · rfl
  · rename_i hquote hslash _ _ _
    split
    · rename_i hb
      rw [hb]
      rfl
    · split
      · rename_i hf
        rw [hf]
        rfl
      · split
        · rename_i hlow
          have hunit : hexUnit? '0' '0' (hexChar (c.toNat / 16)) (hexChar (c.toNat % 16)) =
              some c.toNat := by
            have hzero : hexDigit? '0' = some 0 := rfl
            simp only [hexUnit?, hzero, hexDigit?_hexChar _ (Nat.mod_lt _ (by decide : 0 < 16)),
              hexDigit?_hexChar (c.toNat / 16) (by omega), Option.bind_eq_bind, Option.bind_some,
              Option.pure_def, Option.some.injEq]
            omega
          simp only [List.cons_append, List.nil_append, scanString, hunit]
        · rename_i hhigh
          rw [List.cons_append, List.nil_append, scanString.eq_def]
          split
          · rename_i he
            cases he
          · rename_i he
            exact absurd (List.cons.inj he).1 hquote
          · rename_i he
            exact absurd (List.cons.inj he).1 hslash
          · rename_i he
            exact absurd (List.cons.inj he).1 hslash
          · rename_i he
            cases he
            rw [if_neg hhigh]

theorem scanString_flatMap (cs rest : List Char) :
    ∀ units, scanString (cs.flatMap escape ++ '"' :: rest) units =
      some ((cs.map Char.toNat).reverse ++ units, rest) := by
  induction cs with
  | nil => exact fun units => rfl
  | cons c cs ih =>
    intro units
    rw [List.flatMap_cons, List.append_assoc, scanString_escape, ih, List.map_cons,
      List.reverse_cons, List.append_assoc]
    rfl

/-- Characters are no surrogates, so the units of a text join to that text. -/
theorem joinUnits_map (cs : List Char) :
    ∀ after, joinUnits (cs.map Char.toNat) after = some (cs.reverse ++ after) := by
  induction cs with
  | nil => exact fun _ => rfl
  | cons c cs ih =>
    intro after
    have hvalid : c.toNat < 0xD800 ∨ 0xDFFF < c.toNat ∧ c.toNat < 0x110000 := c.valid
    rw [List.map_cons, joinUnits.eq_def]
    simp only
    rw [if_neg (by simp; omega), if_neg (by simp; omega), ih, Char.ofNat_toNat, List.reverse_cons,
      List.append_assoc]
    rfl

/-- **A string in quotes is read as it was.** -/
theorem readString_quoted (s : String) (rest : List Char) :
    readString (s.toList.flatMap escape ++ '"' :: rest) = some (some s, rest) := by
  rw [readString, scanString_flatMap, Option.map_some]
  simp only [List.append_nil, ← List.map_reverse, joinUnits_map, List.reverse_reverse,
    Option.map_some, String.ofList_toList]

/-! ### Blanks -/

theorem skipSpace_append {blanks : List Char} (h : ∀ c ∈ blanks, isSpace c = true)
    (rest : List Char) : skipSpace (blanks ++ rest) = skipSpace rest :=
  List.dropWhile_append_of_pos h

theorem skipSpace_cons {c : Char} (h : isSpace c = false) (rest : List Char) :
    skipSpace (c :: rest) = c :: rest :=
  List.dropWhile_cons_of_neg (by simp [h])

theorem isSpace_line {depth : Nat} : ∀ c ∈ line depth, isSpace c = true := by
  intro c hc
  rcases List.mem_cons.1 hc with rfl | hc
  · rfl
  · rw [(List.mem_replicate.1 hc).2]
    rfl

/-- The reader skips blanks before a value. -/
theorem readValue_append {blanks : List Char} (h : ∀ c ∈ blanks, isSpace c = true) (fuel : Nat)
    (rest : List Char) : readValue fuel (blanks ++ rest) = readValue fuel rest := by
  cases fuel with
  | zero => rfl
  | succ fuel => rw [readValue, readValue, skipSpace_append h]

/-! ### Documents -/

/-- A document whose texts exist and whose numbers are spelled. -/
inductive Legible : Json → Prop
  | null : Legible .null
  | flag (b : Bool) : Legible (.flag b)
  | number {s : String} : Spelling s → Legible (.number s)
  | text (s : String) : Legible (.ofString s)
  | array {items : List Json} : (∀ item ∈ items, Legible item) → Legible (.array items)
  | object {members : List (String × Json)} : (∀ m ∈ members, Legible m.2) →
      Legible (.ofMembers members)

/-- The first character of a document: no blank and no end of an array or object. -/
theorem Legible.exists_cons {j : Json} (h : Legible j) (depth : Nat) :
    ∃ c cs, written depth j = c :: cs ∧ isSpace c = false ∧ c ≠ ']' := by
  cases h with
  | null => exact ⟨'n', _, rfl, rfl, by decide⟩
  | flag b => cases b <;> exact ⟨_, _, rfl, rfl, by decide⟩
  | number hs =>
    obtain ⟨c, cs, hc, hstart⟩ := hs.exists_cons
    refine ⟨c, cs, hc, ?_⟩
    rcases hstart with rfl | hdigit
    · decide
    · constructor
      · simp only [isSpace, Bool.or_eq_false_iff, decide_eq_false_iff_not]
        refine ⟨⟨⟨?_, ?_⟩, ?_⟩, ?_⟩ <;>
        · rintro rfl
          cases hdigit
      · rintro rfl
        cases hdigit
  | text s => exact ⟨'"', _, rfl, rfl, by decide⟩
  | @array items _ => cases items <;> exact ⟨'[', _, rfl, rfl, by decide⟩
  | @object members _ => cases members <;> exact ⟨'\x7b', _, rfl, rfl, by decide⟩

/-- A document is read back from what is written of it, whatever text follows. -/
def ReadsBack (j : Json) : Prop :=
  ∀ depth rest fuel, EndsNumber rest → 2 * (written depth j).length ≤ fuel →
    readValue fuel (written depth j ++ rest) = some (j, rest)

/-- There is fuel for the first call, since a document is not written as nothing. -/
theorem Legible.exists_fuel {j : Json} (h : Legible j) {depth fuel : Nat}
    (hfuel : 2 * (written depth j).length ≤ fuel) : ∃ n, fuel = n + 1 := by
  obtain ⟨c, cs, hc, -, -⟩ := h.exists_cons depth
  rw [hc, List.length_cons] at hfuel
  exact Nat.exists_eq_add_one_of_ne_zero (by omega)

/-- A number is read as a number, as none of the other documents starts like one. -/
theorem readsBack_number {s : String} (hs : Spelling s) : ReadsBack (.number s) := by
  intro depth rest fuel hrest hfuel
  obtain ⟨c, cs, hc, hspace, -⟩ := (Legible.number hs).exists_cons depth
  obtain ⟨c', cs', hc', hstart⟩ := hs.exists_cons
  have hread := readNumber_spelling hs hrest
  rw [written, hc'] at hc
  cases hc
  obtain ⟨fuel, rfl⟩ := (Legible.number hs).exists_fuel hfuel
  have hchar : ∀ d : Char, d ≠ '-' → d.isDigit = false → c ≠ d := by
    rintro d hminus hd rfl
    rcases hstart with h | h
    · exact hminus h
    · rw [hd] at h
      cases h
  rw [written, hc', List.cons_append, readValue, skipSpace_cons hspace]
  rw [hc', List.cons_append] at hread
  -- the reader asks for other documents first, by characters that no number starts with
  split
  all_goals first
    | rename_i he
      exact absurd (List.cons.inj he).1 (hchar _ (by decide) (by decide))
    | rw [hread]
      rfl

/-! ### Arrays and objects -/

theorem endsNumber_line (depth : Nat) (rest : List Char) : EndsNumber (line depth ++ rest) := by
  intro c hc
  cases hc
  decide

theorem endsNumber_comma (rest : List Char) : EndsNumber (',' :: rest) := by
  intro c hc
  cases hc
  decide

theorem readItems_append {blanks : List Char} (h : ∀ c ∈ blanks, isSpace c = true) (fuel : Nat)
    (rest : List Char) (done : List Json) :
    readItems fuel (blanks ++ rest) done = readItems fuel rest done := by
  cases fuel with
  | zero => rw [readItems, readItems]
  | succ fuel => rw [readItems, readItems, readValue_append h]

theorem readMembers_append {blanks : List Char} (h : ∀ c ∈ blanks, isSpace c = true) (fuel : Nat)
    (rest : List Char) (done : List (Option String × Json)) :
    readMembers fuel (blanks ++ rest) done = readMembers fuel rest done := by
  cases fuel with
  | zero => rw [readMembers, readMembers]
  | succ fuel => rw [readMembers, readMembers, skipSpace_append h]

/-- **The items of an array**, by induction on those after the first. -/
theorem readItems_lines (depth : Nat) (items : List Json) :
    ∀ (item : Json) (fuel : Nat) (rest : List Char) (done : List Json),
      (∀ j ∈ item :: items, ReadsBack j) →
      2 * (written (depth + 1) item ++ (writtenLines depth false items ++
        (line depth ++ [']']))).length ≤ fuel →
      readItems fuel (written (depth + 1) item ++ (writtenLines depth false items ++
        (line depth ++ (']' :: rest)))) done =
          some (.array (done.reverse ++ item :: items), rest) := by
  induction items with
  | nil =>
    intro item fuel rest done hback hfuel
    simp only [writtenLines, List.nil_append, List.length_append, List.length_singleton] at hfuel ⊢
    obtain ⟨fuel, rfl⟩ : ∃ n, fuel = n + 1 := Nat.exists_eq_add_one_of_ne_zero (by omega)
    -- the last item stands before the line that closes the array
    have hitem := hback item List.mem_cons_self (depth + 1) _ fuel
      (endsNumber_line depth (']' :: rest)) (by omega)
    rw [readItems, hitem]
    simp only [skipSpace_append isSpace_line, skipSpace_cons (c := ']') rfl, List.reverse_cons]
  | cons next items ih =>
    intro item fuel rest done hback hfuel
    simp only [writtenLines, Bool.false_eq_true, if_false, List.append_assoc, List.length_append,
      List.length_singleton] at hfuel ⊢
    obtain ⟨fuel, rfl⟩ : ∃ n, fuel = n + 1 := Nat.exists_eq_add_one_of_ne_zero (by omega)
    have hitem := hback item List.mem_cons_self (depth + 1) _ fuel
      (endsNumber_comma (line (depth + 1) ++
      (written (depth + 1) next ++ (writtenLines depth false items ++
        (line depth ++ ']' :: rest))))) (by omega)
    have hnext := ih next fuel rest (item :: done) (fun j hj => hback j (List.mem_cons_of_mem _ hj))
      (by
        simp only [List.length_append, List.length_singleton]
        omega)
    rw [readItems, List.cons_append, List.nil_append, hitem]
    simp only [skipSpace_cons (c := ',') rfl]
    rw [readItems_append isSpace_line, hnext]
    simp

/-- **The members of an object**, by induction on those after the first. -/
theorem readMembers_lines (depth : Nat) (members : List (String × Json)) :
    ∀ (member : String × Json) (fuel : Nat) (rest : List Char)
      (done : List (Option String × Json)),
      (∀ m ∈ member :: members, ReadsBack m.2) →
      2 * (quoted member.1 ++ (':' :: ' ' :: (written (depth + 1) member.2 ++
        (writtenMembers depth false (members.map fun m => (some m.1, m.2)) ++
          (line depth ++ ['\x7d']))))).length ≤ fuel →
      readMembers fuel (quoted member.1 ++ (':' :: ' ' :: (written (depth + 1) member.2 ++
        (writtenMembers depth false (members.map fun m => (some m.1, m.2)) ++
          (line depth ++ ('\x7d' :: rest)))))) done =
          some (.object (done.reverse ++ (member :: members).map fun m => (some m.1, m.2)), rest)
      := by
  have hblank : ∀ c ∈ [' '], isSpace c = true := List.forall_mem_singleton.2 rfl
  induction members with
  | nil =>
    intro member fuel rest done hback hfuel
    simp only [List.map_nil, writtenMembers, List.nil_append, List.length_append, List.length_cons,
      List.length_nil] at hfuel ⊢
    obtain ⟨fuel, rfl⟩ : ∃ n, fuel = n + 1 := Nat.exists_eq_add_one_of_ne_zero (by omega)
    have hvalue := hback member List.mem_cons_self (depth + 1) _ fuel
      (endsNumber_line depth ('\x7d' :: rest)) (by omega)
    have hspace : readValue fuel (' ' :: (written (depth + 1) member.2 ++
        (line depth ++ '\x7d' :: rest))) = some (member.2, line depth ++ '\x7d' :: rest) :=
      (readValue_append hblank fuel _).trans hvalue
    rw [readMembers, quoted, List.cons_append, skipSpace_cons rfl, List.append_assoc]
    simp only [List.singleton_append, readString_quoted, skipSpace_cons (c := ':') rfl, hspace,
      skipSpace_append isSpace_line, skipSpace_cons (c := '\x7d') rfl, List.reverse_cons,
      List.map_cons, List.map_nil]
  | cons next members ih =>
    intro member fuel rest done hback hfuel
    simp only [List.map_cons, writtenMembers, Bool.false_eq_true, if_false, Option.getD_some,
      List.append_assoc, List.cons_append, List.nil_append, List.length_append, List.length_cons,
      List.length_nil] at hfuel ⊢
    obtain ⟨fuel, rfl⟩ : ∃ n, fuel = n + 1 := Nat.exists_eq_add_one_of_ne_zero (by omega)
    have hvalue := hback member List.mem_cons_self (depth + 1) _ fuel
      (endsNumber_comma (line (depth + 1) ++ (quoted next.1 ++ (':' :: ' ' ::
        (written (depth + 1) next.2 ++
          (writtenMembers depth false (members.map fun m => (some m.1, m.2)) ++
            (line depth ++ '\x7d' :: rest))))))) (by omega)
    have hspace := (readValue_append hblank fuel _).trans hvalue
    have hnext := ih next fuel rest ((some member.1, member.2) :: done)
      (fun m hm => hback m (List.mem_cons_of_mem _ hm)) (by
        simp only [List.length_append, List.length_cons, List.length_nil]
        omega)
    rw [readMembers, quoted, List.cons_append, skipSpace_cons rfl, List.append_assoc]
    rw [List.singleton_append] at hspace
    simp only [List.singleton_append, readString_quoted, skipSpace_cons (c := ':') rfl, hspace,
      skipSpace_cons (c := ',') rfl]
    rw [readMembers_append isSpace_line, hnext]
    simp

/-- An array is read back if its items are. -/
theorem readsBack_array {items : List Json} (h : Legible (.array items))
    (hitems : ∀ item ∈ items, Legible item ∧ ReadsBack item) : ReadsBack (.array items) := by
  intro depth rest fuel _ hfuel
  obtain ⟨fuel, rfl⟩ := h.exists_fuel hfuel
  cases items with
  | nil =>
    rw [written, List.cons_append, readValue, skipSpace_cons rfl]
    simp only [List.cons_append, skipSpace_cons (c := ']') rfl, List.nil_append]
  | cons item items =>
    obtain ⟨c, cs, hc, hspace, hclose⟩ := (hitems item List.mem_cons_self).1.exists_cons (depth + 1)
    have hread := readItems_lines depth items item fuel rest [] (fun j hj => (hitems j hj).2) (by
      simp only [written, writtenLines, if_true, List.nil_append, List.append_assoc,
        List.length_cons, List.length_append] at hfuel ⊢
      omega)
    rw [written, writtenLines, if_pos rfl, List.nil_append, List.cons_append, readValue,
      skipSpace_cons rfl]
    simp only [List.append_assoc, List.singleton_append, skipSpace_append isSpace_line]
    rw [hc] at hread ⊢
    rw [List.cons_append, skipSpace_cons hspace]
    split
    · rename_i he
      exact absurd (List.cons.inj he).1 hclose
    · exact hread

/-- An object is read back if its members are. -/
theorem readsBack_object {members : List (String × Json)} (h : Legible (.ofMembers members))
    (hmembers : ∀ m ∈ members, ReadsBack m.2) : ReadsBack (.ofMembers members) := by
  intro depth rest fuel _ hfuel
  obtain ⟨fuel, rfl⟩ := h.exists_fuel hfuel
  cases members with
  | nil =>
    rw [ofMembers, List.map_nil, written, List.cons_append, readValue, skipSpace_cons rfl]
    simp only [List.cons_append, skipSpace_cons (c := '\x7d') rfl, List.nil_append]
  | cons member members =>
    have hread := readMembers_lines depth members member fuel rest [] hmembers (by
      simp only [ofMembers, List.map_cons, written, writtenMembers, if_true, List.nil_append,
        List.append_assoc, List.cons_append, Option.getD_some, List.length_cons,
        List.length_append] at hfuel ⊢
      omega)
    rw [ofMembers, List.map_cons, written, writtenMembers, if_pos rfl, List.nil_append,
      List.cons_append, readValue, skipSpace_cons rfl]
    simp only [List.append_assoc, List.cons_append, List.nil_append, Option.getD_some,
      skipSpace_append isSpace_line]
    rw [quoted, List.cons_append] at hread ⊢
    rw [skipSpace_cons rfl]
    exact hread

/-- **A legible document is read back**, by induction on it. -/
theorem Legible.readsBack {j : Json} (h : Legible j) : ReadsBack j := by
  induction h with
  | null =>
    intro depth rest fuel _ hfuel
    obtain ⟨fuel, rfl⟩ := Legible.null.exists_fuel hfuel
    rfl
  | flag b =>
    intro depth rest fuel _ hfuel
    obtain ⟨fuel, rfl⟩ := (Legible.flag b).exists_fuel hfuel
    cases b <;> rfl
  | number hs => exact readsBack_number hs
  | text s =>
    intro depth rest fuel _ hfuel
    obtain ⟨fuel, rfl⟩ := (Legible.text s).exists_fuel hfuel
    rw [ofString, written, Option.getD_some, quoted, List.cons_append, List.append_assoc, readValue,
      skipSpace_cons rfl]
    simp only [List.singleton_append, readString_quoted, Option.map_some]
  | array hitems ih => exact readsBack_array (.array hitems) fun j hj => ⟨hitems j hj, ih j hj⟩
  | object hmembers ih => exact readsBack_object (.object hmembers) ih

/-- **A legible document is read as it was written.** -/
theorem parse?_indented {j : Json} (h : Legible j) : parse? j.indented = some j := by
  have hread := h.readsBack 0 [] (2 * (written 0 j).length + 2) (fun c hc => by cases hc) (by omega)
  rw [List.append_nil] at hread
  rw [parse?, toList_indented]
  simp only [hread]
  rfl

end Stagecraft.Json
