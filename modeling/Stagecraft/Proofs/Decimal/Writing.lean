import Stagecraft.Proofs.Decimal.Rounding
import Stagecraft.Decimal.Shortest
import Stagecraft.Proofs.Json.Spelling
import Stagecraft.Decimal.Layout
import Stagecraft.Decimal.Numeral

/-!
# Numerals as they are laid out

Whether a decimal identifies a double is decided by comparing natural numbers, with both sides
scaled until the powers of two and of ten are whole. Every decimal that is found on a grid is asked,
the exact value needs no question, and trailing zeros change nothing. So the shortest decimal of a
double is always one that rounds to it.

A layout writes the digits of a decimal with a point before, among or after them, or with one digit
before the point and an exponent. Zeros fill the gap to the point. Whichever it is, the numeral is
read as the decimal again: the reader counts the digits after the point, and so undoes what the
layout did with them.

* `Decimal.value` : what a decimal stands for;
* `Decimal.compareScaled_eq` : the comparison of natural numbers is the comparison of values;
* `Decimal.roundsTo_shortest` : **the shortest decimal of a double rounds to it**;
* `Numeral.read?_parts` : a sign, digits, a point and digits, and an exponent, put together;
* `Numeral.readExponent?_mark` : an exponent that a layout writes;
* `Layout.read?_placePoint`, `Layout.read?_placeExponent` : the two forms;
* `Layout.read?_ofDecimal` : **what a layout writes is read as the decimal that it lays out**.
-/

/-! ### Shortest decimals -/

namespace Stagecraft.Decimal

open Double

/-- What a decimal stands for. -/
def value (d : Decimal) : ℚ := d.digits * 10 ^ d.exponent

/-- Natural numbers that are scaled until they are whole compare as the values do. -/
theorem compareScaled_eq (a : Nat) (i : Int) (n : Nat) (j : Int) :
    compareScaled a i n j = compare ((a : ℚ) * 10 ^ i) (n * 2 ^ j) := by
  have hscale : (0 : ℚ) < (10 ^ (-i).toNat * 2 ^ (-j).toNat)⁻¹ := by positivity
  unfold compareScaled
  rw [← compare_natCast_mul hscale, zpow_eq_div (by norm_num : (10 : ℚ) ≠ 0),
    zpow_eq_div (two_ne_zero : (2 : ℚ) ≠ 0)]
  simp only [Nat.pow_eq]
  push_cast
  congr 1 <;> field_simp

/-- **A decimal that identifies a double rounds to it.** -/
theorem roundsTo_of_identifies {d : Decimal} {x : Double}
    (hnarrow : x.narrowBelow = true ↔ x.significand = 2 ^ 52 ∧ -1074 < x.exponent)
    (h : d.identifies x = true) : RoundsTo d.value x.significand x.exponent := by
  have hlow : (if x.narrowBelow then 4 * x.significand - 1 else 4 * x.significand - 2) =
      lowEnd x.significand x.exponent := if_congr hnarrow rfl rfl
  unfold identifies at h
  simp only [hlow, compareScaled_eq] at h
  simp only [Bool.and_eq_true, Bool.or_eq_true, beq_iff_eq, compare_lt_iff_lt, compare_gt_iff_gt,
    compare_eq_iff_eq] at h
  obtain ⟨hlow | ⟨heven, hlow⟩, hhigh | ⟨heven', hhigh⟩⟩ := h
  · have hinside : ¬ (_ ∨ _) := not_or.2 ⟨hlow.ne', hhigh.ne⟩
    exact ⟨hlow.le, hhigh.le, fun h => absurd h hinside⟩
  · exact ⟨hlow.le, hhigh.le, fun _ => heven'⟩
  · exact ⟨hlow.ge, hhigh.le, fun _ => heven⟩
  · exact ⟨hlow.ge, hhigh.le, fun _ => heven⟩

theorem value_strip (tries : Nat) : ∀ d : Decimal, (strip tries d).value = d.value := by
  induction tries with
  | zero => exact fun _ => rfl
  | succ tries ih =>
    intro d
    rw [strip]
    split
    · rename_i hzero
      simp only [Bool.and_eq_true, bne_iff_ne, beq_iff_eq] at hzero
      have hdigits : (d.digits : ℚ) = (d.digits / 10 : Nat) * 10 := by
        exact_mod_cast (Nat.div_mul_cancel (Nat.dvd_of_mod_eq_zero hzero.2)).symm
      rw [ih, value, value, hdigits, zpow_add_one₀ (by norm_num), mul_assoc, mul_comm (10 : ℚ)]
    · rfl

/-- The value that stands in where no grid has a neighbour is that of the double itself. -/
theorem value_exact (x : Double) :
    (⟨x.numerator * Nat.pow 5 (-x.exponent).toNat, min x.exponent 0⟩ : Decimal).value =
      x.significand * 2 ^ x.exponent := by
  have hmin : min x.exponent 0 = -((-x.exponent).toNat : Int) := by omega
  rw [value_eq_div, value, hmin, zpow_neg, zpow_natCast, denominator, Nat.pow_eq, Nat.pow_eq,
    show (10 : ℚ) = 5 * 2 by norm_num, mul_pow]
  push_cast
  field_simp

/-- **The shortest decimal of a double rounds to it.** -/
theorem roundsTo_shortest (tie : Tie) {x : Double} (hpos : 0 < x.significand)
    (hnarrow : x.narrowBelow = true ↔ x.significand = 2 ^ 52 ∧ -1074 < x.exponent) :
    RoundsTo (shortest tie x).value x.significand x.exponent := by
  unfold shortest
  simp only
  split
  · rename_i d hfound
    obtain ⟨n, -, hn⟩ := List.exists_of_findSome?_eq_some hfound
    rw [value_strip]
    exact roundsTo_of_identifies hnarrow (onGrid?_eq_some hn).1
  · rw [value_strip, value_exact]
    exact roundsTo_self hpos

end Stagecraft.Decimal

namespace Stagecraft.Numeral

open Json (IsSign Digits EndsDigits digits_toDigits takeWhile_append dropWhile_append)

variable {ds rest : List Char}

/-! ### Digits -/

theorem digitsFrom_append (start : Nat) (ds ds' : List Char) :
    digitsFrom start (ds ++ ds') = digitsFrom (digitsFrom start ds) ds' :=
  List.foldl_append

theorem digitsFrom_toDigits (n : Nat) : digitsFrom 0 (Nat.toDigits 10 n) = n :=
  Nat.ofDigitChars_ten_toDigits

theorem digitsFrom_zeros (start n : Nat) :
    digitsFrom start (List.replicate n '0') = start * 10 ^ n :=
  Nat.ofDigitChars_replicate_zero.trans (mul_comm _ _)

theorem takeDigits_append (hd : ∀ c ∈ ds, c.isDigit = true) (hr : EndsDigits rest) :
    takeDigits (ds ++ rest) = (ds, rest) :=
  Prod.ext (takeWhile_append hd hr) (dropWhile_append hd hr)

/-! ### Reading the parts -/

theorem takeSign_of_digit {c : Char} (hc : c.isDigit = true) :
    takeSign (c :: rest) = (false, c :: rest) := by
  rw [takeSign.eq_def]
  split
  · rename_i h
    cases h
    cases hc
  · rename_i h
    cases h
    cases hc
  · rfl

theorem takeSign_append {sign : List Char} (hsign : IsSign sign) (hd : Digits ds) :
    takeSign (sign ++ (ds ++ rest)) = (sign == ['-'], ds ++ rest) := by
  obtain ⟨c, cs, rfl⟩ := List.exists_cons_of_ne_nil hd.ne_nil
  cases hsign with
  | none => exact takeSign_of_digit (hd.isDigit c List.mem_cons_self)
  | minus => rfl

/-- A point and digits, if there are any. -/
def pointed (fraction : List Char) : List Char :=
  match fraction with
  | [] => []
  | ds => '.' :: ds

theorem read?_parts {sign whole fraction exponent : List Char} {e : Int} (hsign : IsSign sign)
    (hwhole : Digits whole) (hfraction : ∀ c ∈ fraction, c.isDigit = true)
    (hends : ∀ c ∈ exponent.head?, c.isDigit = false ∧ c ≠ '.')
    (he : readExponent? exponent = some e) :
    read? (sign ++ (whole ++ (pointed fraction ++ exponent))) =
      some ⟨sign == ['-'], digitsFrom 0 (whole ++ fraction), e - fraction.length⟩ := by
  have hexponent : EndsDigits exponent := fun c hc => (hends c hc).1
  have hempty : whole.isEmpty = false := List.isEmpty_eq_false_iff.2 hwhole.ne_nil
  unfold read?
  simp only [takeSign_append hsign hwhole]
  cases fraction with
  | nil =>
    rw [pointed, List.nil_append, takeDigits_append hwhole.isDigit hexponent]
    simp only
    split
    · exact absurd rfl (hends '.' rfl).2
    · simp [hempty, he]
      rfl
  | cons c fraction =>
    have hpoint : EndsDigits (pointed (c :: fraction) ++ exponent) := fun c hc => by
      cases hc
      rfl
    rw [takeDigits_append hwhole.isDigit hpoint]
    simp only [pointed, List.cons_append]
    rw [← List.cons_append, takeDigits_append hfraction hexponent]
    simp [hempty, he, digitsFrom_append]

theorem read?_pointed {sign whole fraction : List Char} (hsign : IsSign sign)
    (hwhole : Digits whole) (hfraction : ∀ c ∈ fraction, c.isDigit = true) :
    read? (sign ++ (whole ++ pointed fraction)) =
      some ⟨sign == ['-'], digitsFrom 0 (whole ++ fraction), -fraction.length⟩ := by
  have hzero : readExponent? [] = some 0 := rfl
  have h := read?_parts hsign hwhole hfraction (fun _ hc => by cases hc) hzero
  rwa [List.append_nil, zero_sub] at h

theorem readExponent?_signed {sign : List Char} (negative : Bool) (n : Nat)
    (hsign : takeSign (sign ++ Nat.toDigits 10 n) = (negative, Nat.toDigits 10 n)) :
    readExponent? ('e' :: (sign ++ Nat.toDigits 10 n)) =
      some (if negative then -(n : Int) else n) := by
  have hd := digits_toDigits n
  have hdigits : takeDigits (Nat.toDigits 10 n) = (Nat.toDigits 10 n, []) := by
    have hnil : EndsDigits [] := fun _ hc => by cases hc
    have hall := takeDigits_append hd.isDigit hnil
    rwa [List.append_nil] at hall
  obtain ⟨c, cs, hc⟩ := List.exists_cons_of_ne_nil hd.ne_nil
  have hvalue := digitsFrom_toDigits n
  rw [hc] at hsign hdigits hvalue ⊢
  simp only [readExponent?, hsign, hdigits, hvalue, decide_true, Bool.true_or, if_true]

/-- The exponent that a layout writes is read again, with a plus sign or without. -/
theorem readExponent?_mark (e : Int) (plus : Bool) :
    readExponent? ('e' :: ((if e < 0 then ['-'] else if plus then ['+'] else []) ++
      Nat.toDigits 10 e.natAbs)) = some e := by
  by_cases he : e < 0
  · rw [if_pos he, readExponent?_signed true _ rfl, if_pos rfl]
    congr 1
    omega
  · have hsign : takeSign ((if plus then ['+'] else []) ++ Nat.toDigits 10 e.natAbs) =
        (false, Nat.toDigits 10 e.natAbs) := by
      cases plus with
      | true => rfl
      | false =>
        have hd := digits_toDigits e.natAbs
        obtain ⟨c, cs, hc⟩ := List.exists_cons_of_ne_nil hd.ne_nil
        rw [hc] at hd ⊢
        exact takeSign_of_digit (hd.isDigit c List.mem_cons_self)
    rw [if_neg he, readExponent?_signed false _ hsign, if_neg (by decide)]
    congr 1
    omega

end Stagecraft.Numeral

namespace Stagecraft.Layout

open Numeral
open Json (IsSign Digits digits_zero digits_toDigits leading_toDigits isDigit_of_mem_replicate)

variable {sign : List Char} (layout : Layout)

theorem pointed_of_ne_nil {fraction : List Char} (h : fraction ≠ []) :
    pointed fraction = '.' :: fraction := by
  obtain ⟨c, cs, rfl⟩ := List.exists_cons_of_ne_nil h
  rfl

/-- Digits with a point among them are read as the number that they are scaled to. -/
theorem read?_placePoint (hsign : IsSign sign) {k : Nat} (hk : k ≠ 0) (point : Int) :
    ∃ n, Numeral.read? (sign ++ layout.placePoint (Nat.toDigits 10 k) point) = some n ∧
      n.negative = (sign == ['-']) ∧
      (n.digits * 10 ^ n.exponent : ℚ) = k * 10 ^ (point - (Nat.toDigits 10 k).length) := by
  have hzeros : ∀ (n : Nat) c, c ∈ List.replicate n '0' → c.isDigit = true := fun _ _ =>
    isDigit_of_mem_replicate
  have hlead := leading_toDigits k hk
  have hvalue := digitsFrom_toDigits k
  generalize Nat.toDigits 10 k = ds at *
  unfold placePoint
  split
  · rename_i hpoint
    have hfraction : ∀ c ∈ List.replicate (-point).toNat '0' ++ ds, c.isDigit = true := fun c hc =>
      (List.mem_append.1 hc).elim (hzeros _ c) (hlead.isDigit c)
    have hread := read?_pointed hsign digits_zero hfraction
    rw [pointed_of_ne_nil (List.append_ne_nil_of_right_ne_nil _ hlead.ne_nil)] at hread
    refine ⟨_, hread, rfl, ?_⟩
    have hzero : digitsFrom 0 ['0'] = 0 := rfl
    rw [digitsFrom_append, digitsFrom_append, hzero, digitsFrom_zeros, zero_mul, hvalue]
    simp only [List.length_append, List.length_replicate]
    congr 2
    omega
  · rename_i hpoint
    split
    · rename_i hlong
      -- the zero after the point, where the layout has one, is a digit like the others
      have htext : (if layout.pointZero then ['.', '0'] else []) =
          pointed (List.replicate layout.pointZero.toNat '0') := by
        cases layout.pointZero <;> rfl
      have hread := read?_pointed hsign (hlead.toDigits.append (hzeros (point.toNat - ds.length)))
        (hzeros layout.pointZero.toNat)
      rw [digitsFrom_append, digitsFrom_append, hvalue, digitsFrom_zeros, digitsFrom_zeros] at hread
      rw [htext]
      refine ⟨_, hread, rfl, ?_⟩
      simp only [List.length_replicate, Nat.cast_mul, Nat.cast_pow, Nat.cast_ofNat]
      rw [zpow_neg, zpow_natCast, mul_inv_cancel_right₀ (by positivity), ← zpow_natCast]
      congr 2
      omega
    · rename_i hlong
      have hdrop : ds.drop point.toNat ≠ [] := by
        rw [ne_eq, List.drop_eq_nil_iff]
        exact hlong
      have hread := read?_pointed hsign (hlead.take (n := point.toNat) (by omega)).toDigits
        (fun c hc => hlead.isDigit c (List.mem_of_mem_drop (i := point.toNat) hc))
      rw [pointed_of_ne_nil hdrop, List.take_append_drop, hvalue] at hread
      refine ⟨_, hread, rfl, ?_⟩
      simp only [List.length_drop]
      congr 2
      omega

theorem read?_placeExponent (hsign : IsSign sign) {k : Nat} (hk : k ≠ 0) (e : Int) :
    Numeral.read? (sign ++ layout.placeExponent (Nat.toDigits 10 k) e) =
      some ⟨sign == ['-'], k, e + 1 - (Nat.toDigits 10 k).length⟩ := by
  have hlead := leading_toDigits k hk
  have hvalue := digitsFrom_toDigits k
  have hexponent := readExponent?_mark e layout.plusExponent
  rw [← Nat.toList_repr, ← Nat.toString_eq_repr] at hexponent
  generalize Nat.toDigits 10 k = ds at *
  have hread := read?_parts hsign (hlead.take (n := 1) (by decide)).toDigits
    (fun c hc => hlead.isDigit c (List.mem_of_mem_drop (i := 1) hc))
    (fun c hc => by cases hc; decide) hexponent
  rw [List.take_append_drop, hvalue] at hread
  have htext : layout.placeExponent ds e = ds.take 1 ++ (pointed (ds.drop 1) ++ 'e' :: _) :=
    List.append_assoc _ _ _
  rw [htext, hread]
  congr 2
  have := List.length_pos_of_ne_nil hlead.ne_nil
  rw [List.length_drop]
  omega

/-- **What a layout writes is read as the decimal that it lays out.** -/
theorem read?_ofDecimal (hsign : IsSign sign) {d : Decimal} (hd : d.digits ≠ 0) :
    ∃ n, Numeral.read? (sign ++ layout.ofDecimal d) = some n ∧ n.negative = (sign == ['-']) ∧
      (n.digits * 10 ^ n.exponent : ℚ) = d.value := by
  -- the exponent of the leading digit
  obtain ⟨e, he⟩ : ∃ e, e = d.exponent + (Nat.toDigits 10 d.digits).length - 1 := ⟨_, rfl⟩
  have hlast : e + 1 - (Nat.toDigits 10 d.digits).length = d.exponent := by omega
  have hpoint := layout.read?_placePoint hsign hd (e + 1)
  have hmark := layout.read?_placeExponent hsign hd e
  rw [hlast] at hpoint hmark
  unfold ofDecimal
  rw [Nat.toString_eq_repr, Nat.toList_repr]
  simp only [← he]
  split
  · exact hpoint
  · split
    · exact hpoint
    · exact ⟨_, hmark, rfl, rfl⟩

end Stagecraft.Layout
