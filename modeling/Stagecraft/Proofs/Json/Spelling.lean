import Stagecraft.Json.Parser
import Stagecraft.Json.Printer
import Mathlib.Data.Nat.Digits.Defs

/-!
# Spelled numbers

A number in a document is a sign, a whole part that starts with zero only if it is zero, a fraction
and an exponent. The reader takes exactly such a spelling off the front of a text and keeps it as it
is. Every finite double is written as one, since its shortest digits do not start with a zero.

* `Json.Spelling` : the numbers that documents are written with;
* `Json.readNumber_spelling` : **a spelled number is read as it is**;
* `Decimal.digits_shortest_ne_zero` : the shortest digits of a number that is not zero;
* `Json.spelling_render` : **every finite double is spelled**.
-/

namespace Stagecraft.Json

/-! ### The parts of a number -/

/-- One digit or more. -/
structure Digits (ds : List Char) : Prop where
  ne_nil : ds ≠ []
  isDigit : ∀ c ∈ ds, c.isDigit = true

/-- No sign or a minus sign. -/
inductive IsSign : List Char → Prop
  | none : IsSign []
  | minus : IsSign ['-']

/-- Zero, or digits that do not start with a zero. -/
inductive IsWhole : List Char → Prop
  | zero : IsWhole ['0']
  | digits {c : Char} {ds : List Char} : c ≠ '0' → Digits (c :: ds) → IsWhole (c :: ds)

/-- Nothing, or a point and digits. -/
inductive IsFraction : List Char → Prop
  | none : IsFraction []
  | point {ds : List Char} : Digits ds → IsFraction ('.' :: ds)

/-- Nothing, or a mark, a sign and digits. -/
inductive IsExponent : List Char → Prop
  | none : IsExponent []
  | plus {ds : List Char} : Digits ds → IsExponent ('e' :: '+' :: ds)
  | minus {ds : List Char} : Digits ds → IsExponent ('e' :: '-' :: ds)

/-- A number without its sign as it is written. -/
def Unsigned (cs : List Char) : Prop :=
  ∃ whole fraction exponent, cs = whole ++ (fraction ++ exponent) ∧
    IsWhole whole ∧ IsFraction fraction ∧ IsExponent exponent

/-- A number as it is written. -/
def Spelling (s : String) : Prop := ∃ sign cs, s.toList = sign ++ cs ∧ IsSign sign ∧ Unsigned cs

/-- What follows does not go on with the digits before it. -/
def EndsDigits (rest : List Char) : Prop := ∀ c ∈ rest.head?, c.isDigit = false

/-- What follows does not go on with the number before it. -/
def EndsNumber (rest : List Char) : Prop :=
  ∀ c ∈ rest.head?, c.isDigit = false ∧ c ≠ '.' ∧ c ≠ 'e' ∧ c ≠ 'E'

theorem EndsNumber.endsDigits {rest : List Char} (h : EndsNumber rest) : EndsDigits rest :=
  fun c hc => (h c hc).1

/-! ### Reading the parts -/

variable {ds rest : List Char}

theorem takeWhile_append (hd : ∀ c ∈ ds, c.isDigit = true) (hr : EndsDigits rest) :
    (ds ++ rest).takeWhile Char.isDigit = ds := by
  rw [List.takeWhile_append_of_pos hd]
  cases rest with
  | nil => exact List.append_nil ds
  | cons c rest => rw [List.takeWhile_cons_of_neg (by simp [hr c rfl]), List.append_nil]

theorem dropWhile_append (hd : ∀ c ∈ ds, c.isDigit = true) (hr : EndsDigits rest) :
    (ds ++ rest).dropWhile Char.isDigit = rest := by
  rw [List.dropWhile_append_of_pos hd]
  cases rest with
  | nil => rfl
  | cons c rest => exact List.dropWhile_cons_of_neg (by simp [hr c rfl])

theorem readDigits_append (hd : Digits ds) (hr : EndsDigits rest) :
    readDigits (ds ++ rest) = some (ds, rest) := by
  unfold readDigits
  rw [takeWhile_append hd.isDigit hr, dropWhile_append hd.isDigit hr]
  obtain ⟨c, cs, rfl⟩ := List.exists_cons_of_ne_nil hd.ne_nil
  rfl

theorem readWhole_append {whole : List Char} (hw : IsWhole whole) (hr : EndsDigits rest) :
    readWhole (whole ++ rest) = some (whole, rest) := by
  cases hw with
  | zero =>
    cases rest with
    | nil => rfl
    | cons c rest => simp [readWhole, hr c rfl]
  | digits hne hd =>
    rw [readWhole.eq_def, ← readDigits_append hd hr]
    split
    · rename_i he
      exact absurd (List.cons.inj he).1 hne
    · rfl

theorem readFraction_append {fraction : List Char} (hf : IsFraction fraction)
    (hr : EndsDigits rest) (hpoint : ∀ c ∈ rest.head?, c ≠ '.') :
    readFraction (fraction ++ rest) = some (fraction, rest) := by
  cases hf with
  | none =>
    rw [List.nil_append, readFraction.eq_def]
    split
    · exact absurd rfl (hpoint '.' rfl)
    · rfl
  | point hd =>
    rw [List.cons_append, readFraction, readDigits_append hd hr]
    rfl

theorem readExponent_append {exponent : List Char} (he : IsExponent exponent)
    (hr : EndsNumber rest) : readExponent (exponent ++ rest) = some (exponent, rest) := by
  cases he with
  | none =>
    rw [List.nil_append]
    cases rest with
    | nil => rfl
    | cons c rest =>
      obtain ⟨-, -, hlower, hupper⟩ := hr c rfl
      simp [readExponent, hlower, hupper]
  | plus hd | minus hd =>
    simp [readExponent, readDigits_append hd hr.endsDigits]

theorem endsDigits_exponent {exponent : List Char} (he : IsExponent exponent)
    (hr : EndsNumber rest) :
    EndsDigits (exponent ++ rest) ∧ ∀ c ∈ (exponent ++ rest).head?, c ≠ '.' := by
  cases he with
  | none => exact ⟨hr.endsDigits, fun c hc => (hr c hc).2.1⟩
  | plus hd | minus hd =>
    constructor <;>
    · intro c hc
      cases hc
      decide

theorem endsDigits_fraction {fraction : List Char} (hf : IsFraction fraction)
    (hr : EndsDigits rest) : EndsDigits (fraction ++ rest) := by
  cases hf with
  | none => exact hr
  | point hd =>
    intro c hc
    cases hc
    rfl

/-- The first character of a number: its sign or a digit. -/
theorem IsWhole.exists_cons {whole : List Char} (hw : IsWhole whole) :
    ∃ c cs, whole = c :: cs ∧ c.isDigit = true := by
  cases hw with
  | zero => exact ⟨'0', [], rfl, rfl⟩
  | digits _ hd => exact ⟨_, _, rfl, hd.isDigit _ List.mem_cons_self⟩

/-- A number starts with a minus sign or a digit. -/
theorem Spelling.exists_cons {s : String} (hs : Spelling s) :
    ∃ c cs, s.toList = c :: cs ∧ (c = '-' ∨ c.isDigit = true) := by
  obtain ⟨sign, _, he, hsign, whole, fraction, exponent, rfl, hwhole, -, -⟩ := hs
  cases hsign with
  | minus => exact ⟨'-', _, he, .inl rfl⟩
  | none =>
    obtain ⟨c, cs, rfl, hdigit⟩ := hwhole.exists_cons
    exact ⟨c, _, he, .inr hdigit⟩

/-- **A spelled number is read as it is.** -/
theorem readNumber_spelling {s : String} (hs : Spelling s) (hr : EndsNumber rest) :
    readNumber (s.toList ++ rest) = some (s, rest) := by
  obtain ⟨sign, _, he, hsign, whole, fraction, exponent, rfl, hwhole, hfraction, hexponent⟩ := hs
  obtain ⟨hdigits, hpoint⟩ := endsDigits_exponent hexponent hr
  have hparts : readWhole (whole ++ (fraction ++ (exponent ++ rest))) =
      some (whole, fraction ++ (exponent ++ rest)) :=
    readWhole_append hwhole (endsDigits_fraction hfraction hdigits)
  have hrest : readFraction (fraction ++ (exponent ++ rest)) =
      some (fraction, exponent ++ rest) := readFraction_append hfraction hdigits hpoint
  have hlist : String.ofList (sign ++ whole ++ fraction ++ exponent) = s := by
    rw [← String.ofList_toList (s := s), he]
    simp
  have hexp := readExponent_append hexponent hr
  unfold readNumber
  rw [he, List.append_assoc, List.append_assoc, List.append_assoc]
  simp only [Option.bind_eq_bind, Option.pure_def]
  split
  · -- there is a minus sign, since digits follow otherwise
    rename_i hminus
    cases hsign with
    | minus =>
      simp only [List.cons_append, List.nil_append, List.cons.injEq, true_and] at hminus
      subst hminus
      simp only [hparts, hrest, hexp, Option.bind_some, hlist]
    | none =>
      obtain ⟨c, cs, rfl, hdigit⟩ := hwhole.exists_cons
      cases (List.cons.inj hminus).1
      cases hdigit
  · rename_i hplus
    cases hsign with
    | minus => exact absurd rfl (hplus _)
    | none =>
      rw [List.nil_append] at hlist
      simp only [List.nil_append, hparts, hrest, hexp, Option.bind_some, hlist]

end Stagecraft.Json

/-! ### Shortest digits -/

namespace Stagecraft.Decimal

theorem digits_strip_ne_zero (tries : Nat) :
    ∀ {d : Decimal}, d.digits ≠ 0 → (strip tries d).digits ≠ 0 := by
  induction tries with
  | zero => exact id
  | succ tries ih =>
    intro d hd
    rw [strip]
    split
    · rename_i hzero
      simp only [Bool.and_eq_true, bne_iff_ne, beq_iff_eq] at hzero
      refine ih ?_
      simp only
      omega
    · exact hd

/-- The shortest digits of a number that is not zero. -/
theorem digits_shortest_ne_zero (tie : Tie) {x : Double} (hx : x.significand ≠ 0) :
    (shortest tie x).digits ≠ 0 := by
  unfold shortest
  simp only
  split
  · rename_i d hfound
    obtain ⟨n, -, hn⟩ := List.exists_of_findSome?_eq_some hfound
    exact digits_strip_ne_zero 400 (onGrid?_eq_some hn).2
  · refine digits_strip_ne_zero 1100 ?_
    have hpos : 0 < x.significand := Nat.pos_of_ne_zero hx
    exact (Nat.mul_pos (Nat.mul_pos hpos (Nat.two_pow_pos _)) (Nat.pow_pos (by decide))).ne'

end Stagecraft.Decimal

/-! ### Doubles -/

namespace Stagecraft.Json

theorem digits_zero : Digits ['0'] := ⟨List.cons_ne_nil _ _, List.forall_mem_singleton.2 rfl⟩

theorem digits_toDigits (n : Nat) : Digits (Nat.toDigits 10 n) :=
  ⟨Nat.toDigits_ne_nil, fun _ hc => Nat.isDigit_of_mem_toDigits (by decide) (by decide) hc⟩

theorem Digits.append {ds ds' : List Char} (h : Digits ds) (h' : ∀ c ∈ ds', c.isDigit = true) :
    Digits (ds ++ ds') where
  ne_nil := List.append_ne_nil_of_left_ne_nil h.ne_nil ds'
  isDigit c hc := (List.mem_append.1 hc).elim (h.isDigit c) (h' c)

theorem isDigit_of_mem_replicate {n : Nat} {c : Char} (hc : c ∈ List.replicate n '0') :
    c.isDigit = true := by
  rw [(List.mem_replicate.1 hc).2]
  rfl

/-- Digits that do not start with a zero. -/
structure Leading (ds : List Char) : Prop extends Digits ds where
  head : ds.head? ≠ some '0'

namespace Leading

variable {ds : List Char}

theorem isWhole (h : Leading ds) : IsWhole ds := by
  cases ds with
  | nil => exact absurd rfl h.ne_nil
  | cons c ds => exact .digits (fun hc => h.head (congrArg some hc)) h.toDigits

theorem append {ds' : List Char} (h : Leading ds) (h' : ∀ c ∈ ds', c.isDigit = true) :
    Leading (ds ++ ds') where
  toDigits := h.toDigits.append h'
  head := by
    obtain ⟨c, cs, rfl⟩ := List.exists_cons_of_ne_nil h.ne_nil
    exact h.head

theorem take {n : Nat} (h : Leading ds) (hn : 0 < n) : Leading (ds.take n) := by
  obtain ⟨c, cs, rfl⟩ := List.exists_cons_of_ne_nil h.ne_nil
  obtain ⟨m, rfl⟩ := Nat.exists_eq_add_one_of_ne_zero hn.ne'
  rw [List.take_succ_cons]
  refine ⟨⟨List.cons_ne_nil _ _, fun d hd => h.isDigit d ?_⟩, h.head⟩
  exact (List.take_subset (m + 1) (c :: cs)) (by rwa [List.take_succ_cons])

end Leading

/-- The digits of a number do not start with zero, by induction on the digits before the last. -/
theorem leading_toDigits (n : Nat) (hn : n ≠ 0) : Leading (Nat.toDigits 10 n) := by
  induction n using Nat.strongRecOn with
  | ind n ih =>
    by_cases hlt : n < 10
    · refine ⟨digits_toDigits n, ?_⟩
      rw [Nat.toDigits_of_lt_base hlt]
      have hdigit : ∀ k < 10, k ≠ 0 → [k.digitChar].head? ≠ some '0' := by decide
      exact hdigit n hlt hn
    · have hbase := Nat.toDigits_of_base_le (b := 10) (n := n) (by decide) (by omega)
      have hlast := digits_toDigits n
      rw [hbase] at hlast ⊢
      exact (ih (n / 10) (by omega) (by omega)).append fun c hc =>
        hlast.isDigit c (List.mem_append_right _ hc)

/-! ### Layouts -/

/-- Digits with a point among them are a number. -/
theorem unsigned_placePoint {ds : List Char} (h : Leading ds) (point : Int) :
    Unsigned (numberLayout.placePoint ds point) := by
  have hzeros : ∀ (n : Nat) c, c ∈ List.replicate n '0' → c.isDigit = true := fun _ _ =>
    isDigit_of_mem_replicate
  unfold Layout.placePoint
  split
  · refine ⟨['0'], '.' :: (List.replicate (-point).toNat '0' ++ ds), [], ?_, .zero,
      .point ⟨?_, fun c hc => ?_⟩, .none⟩
    · rw [List.append_nil]
      rfl
    · exact List.append_ne_nil_of_right_ne_nil _ h.ne_nil
    · exact (List.mem_append.1 hc).elim (hzeros _ c) (h.isDigit c)
  · rename_i hpoint
    split
    · exact ⟨_, ['.', '0'], [], rfl, (h.append (hzeros _)).isWhole, .point digits_zero, .none⟩
    · rename_i hlong
      refine ⟨ds.take point.toNat, '.' :: ds.drop point.toNat, [], ?_,
        (h.take (by omega)).isWhole,
        .point ⟨?_, fun c hc => h.isDigit c (List.mem_of_mem_drop hc)⟩, .none⟩
      · rw [List.append_nil]
      · rw [ne_eq, List.drop_eq_nil_iff]
        exact hlong

/-- Digits with an exponent are a number. -/
theorem unsigned_placeExponent {ds : List Char} (h : Leading ds) (e : Int) :
    Unsigned (numberLayout.placeExponent ds e) := by
  have hexponent : IsExponent ('e' :: ((if e < 0 then ['-'] else
      if numberLayout.plusExponent then ['+'] else []) ++ (toString e.natAbs).toList)) := by
    rw [Nat.toString_eq_repr, Nat.toList_repr]
    split
    · exact .minus (digits_toDigits _)
    · exact .plus (digits_toDigits _)
  unfold Layout.placeExponent
  simp only
  split
  · exact ⟨ds.take 1, [], _, List.append_assoc _ _ _, (h.take (by decide)).isWhole, .none,
      hexponent⟩
  · rename_i hrest
    refine ⟨ds.take 1, _, _, List.append_assoc _ _ _, (h.take (by decide)).isWhole,
      .point ⟨hrest, fun c hc => h.isDigit c (List.mem_of_mem_drop hc)⟩, hexponent⟩

theorem unsigned_ofDecimal {d : Decimal} (hd : d.digits ≠ 0) :
    Unsigned (numberLayout.ofDecimal d) := by
  have h := leading_toDigits d.digits hd
  unfold Layout.ofDecimal
  rw [Nat.toString_eq_repr, Nat.toList_repr]
  simp only [numberLayout]
  split
  · exact unsigned_placePoint h _
  · exact unsigned_placeExponent h _

/-- **Every finite double is spelled.** -/
theorem spelling_render {x : Float} {d : Double} (h : Double.ofFloat? x = some d) :
    Spelling (numberLayout.render x) := by
  unfold Layout.render
  rw [h]
  simp only
  split
  · refine ⟨if d.negative then ['-'] else [], ['0', '.', '0'], ?_, ?_, ['0'], ['.', '0'], [], rfl,
      .zero, .point digits_zero, .none⟩
    · cases d.negative <;> rfl
    · cases d.negative
      · exact .none
      · exact .minus
  · rename_i hsig
    refine ⟨if d.negative then ['-'] else [], _, ?_, ?_,
      unsigned_ofDecimal (Decimal.digits_shortest_ne_zero numberLayout.tie hsig)⟩
    · rw [String.toList_append, String.toList_ofList]
      cases d.negative <;> rfl
    · cases d.negative
      · exact .none
      · exact .minus

end Stagecraft.Json
