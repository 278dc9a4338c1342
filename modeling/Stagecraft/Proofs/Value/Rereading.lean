import Stagecraft.Proofs.Decimal.Reading
import Stagecraft.Proofs.Decimal.Writing
import Stagecraft.Value.Basic

/-!
# Numbers survive as text

What a number is written as is read as that number. Text is read with care before its digits count:
blanks go, words and other bases are told apart, and every character has to be one of a numeral.
None of this touches a numeral, which has no blank and no letter but the mark of its exponent.

* `Numeral.forall_isNumeralChar` : what is read as a numeral has characters of numerals alone;
* `readNumber_of_read?` : and is read as that numeral;
* `readNumber_writeNumber` : **the text of a number is read as the number**.
-/

namespace Stagecraft

/-! ### The characters of numerals -/

namespace Numeral

variable {cs : List Char}

theorem isNumeralChar_of_isDigit {c : Char} (h : c.isDigit = true) : isNumeralChar c = true := by
  simp [isNumeralChar, h]

theorem mem_takeSign {c : Char} (hc : c ∈ cs) :
    isNumeralChar c = true ∨ c ∈ (takeSign cs).2 := by
  rw [takeSign.eq_def]
  split
  · exact (List.mem_cons.1 hc).imp_left fun h => by rw [h]; rfl
  · exact (List.mem_cons.1 hc).imp_left fun h => by rw [h]; rfl
  · exact .inr hc

theorem mem_takeDigits {c : Char} (hc : c ∈ cs) :
    isNumeralChar c = true ∨ c ∈ (takeDigits cs).2 := by
  rw [← List.takeWhile_append_dropWhile (p := Char.isDigit) (l := cs), List.mem_append] at hc
  exact hc.imp_left fun h => isNumeralChar_of_isDigit (List.mem_takeWhile_imp h)

theorem forall_of_readExponent? {e : Int} (h : readExponent? cs = some e) :
    ∀ c ∈ cs, isNumeralChar c = true := by
  cases cs with
  | nil => exact fun c hc => absurd hc List.not_mem_nil
  | cons mark rest =>
    simp only [readExponent?] at h
    split at h
    · rename_i hmark
      have hmark : isNumeralChar mark = true := by
        simp only [Bool.or_eq_true, decide_eq_true_eq] at hmark
        obtain rfl | rfl := hmark <;> rfl
      split at h
      · cases h
      · rename_i hdigits
        refine List.forall_mem_cons.2 ⟨hmark, fun c hc => ?_⟩
        have hrest : (takeDigits (takeSign rest).2).2 = [] := congrArg Prod.snd hdigits
        refine (mem_takeSign hc).elim id fun hc => (mem_takeDigits hc).elim id fun hc => ?_
        rw [hrest] at hc
        cases hc
      · cases h
    · cases h

/-- What is read as a numeral has characters of numerals alone. -/
theorem forall_isNumeralChar {n : Numeral} (h : read? cs = some n) :
    cs ≠ [] ∧ ∀ c ∈ cs, isNumeralChar c = true := by
  constructor
  · rintro rfl
    cases h
  · intro c hc
    refine (mem_takeSign hc).elim id fun hc => (mem_takeDigits hc).elim id fun hc => ?_
    simp only [read?] at h
    generalize (takeDigits (takeSign cs).2).2 = rest at h hc
    split at h
    · split at h
      · cases h
      · obtain ⟨e, he, -⟩ := Option.map_eq_some_iff.1 h
        obtain rfl | hc := List.mem_cons.1 hc
        · rfl
        · exact (mem_takeDigits hc).elim id (forall_of_readExponent? he c)
    · split at h
      · cases h
      · obtain ⟨e, he, -⟩ := Option.map_eq_some_iff.1 h
        exact forall_of_readExponent? he c hc

end Numeral

/-! ### Reading -/

theorem isBlank_of_isNumeralChar {c : Char} (h : isNumeralChar c = true) :
    Text.isBlank c = false := by
  simp only [isNumeralChar, Bool.or_eq_true, decide_eq_true_eq] at h
  obtain ((((h | rfl) | rfl) | rfl) | rfl) | rfl := h
  · have hdigit : 48 ≤ c.toNat ∧ c.toNat ≤ 57 := by
      simpa [Char.isDigit, UInt32.le_iff_toNat_le] using h
    simp [Text.isBlank, Text.inRanges, Text.blankRanges]
    omega
  all_goals rfl

theorem trim_eq_self {cs : List Char} (h : ∀ c ∈ cs, Text.isBlank c = false) :
    Text.trim cs = cs := by
  have hkeep : ∀ {cs : List Char}, (∀ c ∈ cs, Text.isBlank c = false) →
      cs.dropWhile Text.isBlank = cs := fun {cs} h => by
    cases cs with
    | nil => rfl
    | cons c cs => exact List.dropWhile_cons_of_neg (by simp [h c List.mem_cons_self])
  rw [Text.trim, hkeep h, hkeep fun c hc => h c (List.mem_reverse.1 hc), List.reverse_reverse]

theorem announcedBase?_eq_none {cs : List Char} (h : ∀ c ∈ cs, isNumeralChar c = true) :
    announcedBase? cs = none := by
  rw [announcedBase?.eq_def]
  split
  · rename_i c rest
    have hc := h c (List.mem_cons_of_mem _ List.mem_cons_self)
    have hletter : ∀ a b : Char, isNumeralChar a = false → isNumeralChar b = false →
        ¬ (decide (c = a) || decide (c = b)) = true := fun a b ha hb hab => by
      simp only [Bool.or_eq_true, decide_eq_true_eq] at hab
      obtain rfl | rfl := hab <;> simp_all
    rw [if_neg (hletter _ _ rfl rfl), if_neg (hletter _ _ rfl rfl), if_neg (hletter _ _ rfl rfl)]
  · rfl

/-- Nothing that is done to a text before its digits count touches a numeral. -/
theorem readNumber_of_read? {s : String} {n : Numeral} (h : Numeral.read? s.toList = some n) :
    readNumber s = n.toFloat := by
  obtain ⟨hne, hall⟩ := Numeral.forall_isNumeralChar h
  have htrim := trim_eq_self fun c hc => isBlank_of_isNumeralChar (hall c hc)
  have hall' : s.toList.all isNumeralChar = true := List.all_eq_true.2 hall
  have hempty : s.toList.isEmpty = false := List.isEmpty_eq_false_iff.2 hne
  have hword : ∀ w : String, w.toList.all isNumeralChar = false →
      decide (s.toList = w.toList) = false := fun w hw => decide_eq_false fun he => by
    rw [← he, hall'] at hw
    cases hw
  have hminus := of_decide_eq_false (hword "-Infinity" (by decide))
  unfold readNumber
  simp only [htrim, hempty, hword "Infinity" (by decide), hword "+Infinity" (by decide),
    announcedBase?_eq_none hall, hall', h, Bool.or_self, Bool.false_eq_true, if_false, if_true,
    if_neg hminus]

/-! ### There and back -/

open Float.Model Double

variable {x : Float} {d : Double}

/-- The text of a number that is not zero is read as the number: its shortest digits round to it. -/
theorem readNumber_writeNumber_of_pos (hd : ofFloat? x = some d) (hpos : 0 < d.significand) :
    readNumber (writeNumber x) = x := by
  obtain ⟨sign, hsign, htext, hnegative⟩ : ∃ sign, Json.IsSign sign ∧ (writeNumber x).toList =
      sign ++ spokenLayout.ofDecimal (Decimal.shortest .away d) ∧
      (sign == ['-']) = d.negative := by
    unfold writeNumber Layout.render
    simp only [hd, hpos.ne', if_false, String.toList_append, String.toList_ofList]
    cases d.negative with
    | true => exact ⟨['-'], .minus, rfl, rfl⟩
    | false => exact ⟨[], .none, rfl, rfl⟩
  obtain ⟨n, hread, hn, hvalue⟩ := spokenLayout.read?_ofDecimal hsign
    (Decimal.digits_shortest_ne_zero .away hpos.ne')
  rw [← htext] at hread
  have hround := Decimal.roundsTo_shortest .away hpos (narrowBelow_iff hd)
  rw [← hvalue] at hround
  rw [readNumber_of_read? hread, Numeral.toFloat_of_roundsTo (fits_of_ofFloat? hd) hpos hround,
    ← ofModel_pack_unpack x, unpack_of_ofFloat? hd, unpacked, dif_neg hpos.ne', Double.sign, hn,
    hnegative]

/-- The text of a number that is not zero is read as the number. -/
theorem readNumber_writeNumber_of_ne_zero (hx : x.isNaN = false) (hzero : (x == 0.0) = false) :
    readNumber (writeNumber x) = x := by
  cases hd : ofFloat? x with
  | none =>
    obtain ⟨s, hs⟩ := unpack_of_ofFloat?_none hd hx
    rw [← ofModel_pack_unpack x, hs]
    cases s <;> decide +kernel
  | some d =>
    obtain hsig | hsig := d.significand.eq_zero_or_pos
    · rw [← ofModel_pack_unpack x, unpack_of_ofFloat? hd, unpacked, dif_pos hsig] at hzero
      cases hs : d.sign <;> rw [hs] at hzero <;> exact absurd hzero (by decide +kernel)
    · exact readNumber_writeNumber_of_pos hd hsig

/-- **The text of a number is read as the number.** Zero has no sign in its text, so negative zero
is read as zero; every other number is read bit for bit, the infinities too. Hence a number that is
cast to a text and back counts as the same number. -/
theorem readNumber_writeNumber (x : Float) (hx : x.isNaN = false) :
    readNumber (writeNumber x) = (if x == 0.0 then 0.0 else x) ∧
    (readNumber (writeNumber x) == x) = true ∧
    ((Value.text (Value.number x).toText).toNumber == x) = true := by
  by_cases hzero : (x == 0.0) = true
  · obtain ⟨-, -, rfl | ⟨rfl, -⟩ | ⟨rfl, -⟩⟩ := Float.beq_iff_ne_nan_and_eq.1 hzero <;>
      decide +kernel
  · have hread := readNumber_writeNumber_of_ne_zero hx (Bool.eq_false_of_not_eq_true hzero)
    have hself : (x == x) = true := by
      rw [Float.beq_self_iff]
      simpa [Float.isNaN_eq_decide_eq_nan] using hx
    have hcast : (Value.text (Value.number x).toText).toNumber = x := by
      change (if (readNumber (writeNumber x)).isNaN then 0.0 else readNumber (writeNumber x)) = x
      rw [hread, hx]
      rfl
    rw [hread, hcast, if_neg hzero]
    exact ⟨rfl, hself, hself⟩

/-- The one digit of the least double says a little more than the double is, and is read as it. -/
theorem readNumber_writeNumber_least : (5e-324 : Float).isNaN = false ∧
    writeNumber 5e-324 = "5e-324" ∧ readNumber "5e-324" = 5e-324 := by
  have hx : (5e-324 : Float).isNaN = false := by decide +kernel
  have htext : writeNumber 5e-324 = "5e-324" := by decide +kernel
  have hzero : ¬ ((5e-324 : Float) == 0.0) = true := by decide +kernel
  have h := readNumber_writeNumber 5e-324 hx
  rw [htext, if_neg hzero] at h
  exact ⟨hx, htext, h.1⟩

end Stagecraft
