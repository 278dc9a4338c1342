import Stagecraft.Proofs.Decimal.Rounding
import Stagecraft.Decimal.Numeral

/-!
# Numerals are read as the nearest double

Digits and a power of ten that are both doubles are multiplied or divided as such, with one rounding
at the end. For all others the exact product, or a quotient with enough bits, is rounded. The sizes
that are told apart before lie beyond every double.

* `Double.mul_of_roundsTo`, `Double.div_of_roundsTo` : an operation gives the double that its exact
  result rounds to;
* `Double.exactly_toFloat`, `Double.exactly_powersOfTen` : doubles without any rounding;
* `Double.ofScientific_of_roundsTo` : digits and a power of ten;
* `Numeral.toFloat_of_roundsTo` : **a numeral is read as the double that it rounds to**.
-/

namespace Stagecraft.Double

open Float.Model Float.Model.UnpackedFloat

variable {v : ℚ} {s₁ s₂ : Sign} {m m₁ m₂ : Nat} {e e₁ e₂ : Int}

/-! ### Operations -/

theorem mul_of_roundsTo {hm₁ : 0 < m₁} {hm₂ : 0 < m₂} (hfull : 2 ^ 52 ≤ m₁) (hfits : Fits m e)
    (hm : 0 < m) (h : RoundsTo (m₁ * 2 ^ e₁ * (m₂ * 2 ^ e₂)) m e) :
    UnpackedFloat.mul .binary64 (.finite s₁ m₁ e₁ hm₁) (.finite s₂ m₂ e₂ hm₂) =
      .finite (s₁ * s₂) m e hm := by
  have hunits : (m₁ * 2 ^ e₁ * (m₂ * 2 ^ e₂) / 2 ^ (e₁ + e₂) : ℚ) = (m₁ * m₂ : Nat) := by
    rw [zpow_add₀ two_ne_zero, mul_mul_mul_comm, mul_div_cancel_right₀ _ (by positivity),
      Nat.cast_mul]
  refine roundWithAccuracy_of_roundsTo ?_ (.inl ?_) hfits hm h
  · rw [hunits]
    exact represents_exact _
  · exact hfull.trans (Nat.le_mul_of_pos_right m₁ hm₂)

/-- A division that goes on for enough bits has a full quotient. -/
theorem full_shiftLeft_div {k : Nat} (hm₁ : 0 < m₁) (hm₂ : 0 < m₂)
    (hk : m₂.log2 + 53 ≤ m₁.log2 + k) : 2 ^ 52 ≤ m₁ <<< k / m₂ := by
  rw [Nat.le_div_iff_mul_le hm₂, Nat.shiftLeft_eq]
  calc 2 ^ 52 * m₂ ≤ 2 ^ 52 * 2 ^ (m₂.log2 + 1) := Nat.mul_le_mul_left _ Nat.lt_log2_self.le
    _ = 2 ^ (m₂.log2 + 53) := by rw [← pow_add, add_comm, add_assoc]
    _ ≤ 2 ^ (m₁.log2 + k) := Nat.pow_le_pow_right two_pos hk
    _ = 2 ^ m₁.log2 * 2 ^ k := pow_add _ _ _
    _ ≤ m₁ * 2 ^ k := Nat.mul_le_mul_right _ (Nat.log2_self_le hm₁.ne')

theorem div_of_roundsTo {hm₁ : 0 < m₁} {hm₂ : 0 < m₂} (hfits : Fits m e)
    (hm : 0 < m) (h : RoundsTo (m₁ * 2 ^ e₁ / (m₂ * 2 ^ e₂)) m e) :
    UnpackedFloat.div .binary64 (.finite s₁ m₁ e₁ hm₁) (.finite s₂ m₂ e₂ hm₂) =
      .finite (s₁ / s₂) m e hm := by
  have hm₂' : (m₂ : ℚ) ≠ 0 := by exact_mod_cast hm₂.ne'
  have htarget : Format.binary64.targetExponent (totalExponent m₁ e₁ - totalExponent m₂ e₂) =
      max (m₁.log2 + e₁ - (m₂.log2 + e₂) - 53) (-1074) := by
    change max ((m₁.log2 : Int) + 1 + e₁ - (m₂.log2 + 1 + e₂) - 53) (-1074) = _
    congr 1
    omega
  obtain ⟨q, hq⟩ : ∃ q, q = min (e₁ - e₂) (max (m₁.log2 + e₁ - (m₂.log2 + e₂) - 53) (-1074)) :=
    ⟨_, rfl⟩
  obtain ⟨k, hk⟩ : ∃ k : Nat, e₁ - e₂ - q = k := ⟨(e₁ - e₂ - q).toNat, by omega⟩
  have hunits : (m₁ * 2 ^ e₁ / (m₂ * 2 ^ e₂) / 2 ^ q : ℚ) = (m₁ <<< k : Nat) / m₂ := by
    rw [Nat.shiftLeft_eq, two_zpow_eq (by omega : e₂ + q + (k : Nat) = e₁), zpow_add₀ two_ne_zero]
    have hu₂ : (2 : ℚ) ^ e₂ ≠ 0 := (zpow_pos two_pos _).ne'
    have hu : (2 : ℚ) ^ q ≠ 0 := (zpow_pos two_pos _).ne'
    push_cast
    field_simp
  have hfine : 2 ^ 52 ≤ m₁ <<< k / m₂ ∨ q ≤ -1074 := by
    rw [or_iff_not_imp_right]
    exact fun hnormal => full_shiftLeft_div hm₁ hm₂ (by omega)
  unfold UnpackedFloat.div divCore
  simp only [htarget, ← hq, hk, Int.toNat_natCast]
  refine roundWithAccuracy_of_roundsTo ?_ hfine hfits hm h
  rw [hunits]
  exact represents_fraction _ hm₂

/-! ### Exact doubles -/

/-- A positive double is a number exactly, and its significand is full. -/
def Exactly (x : Float) (v : ℚ) : Prop :=
  ∃ (m : Nat) (e : Int) (hm : 0 < m),
    x.toModel.unpack = .finite .positive m e hm ∧ 2 ^ 52 ≤ m ∧ m * 2 ^ e = v

theorem shiftLeft_mul_zpow (k n : Nat) : ((k <<< n : Nat) * 2 ^ (-(n : Int)) : ℚ) = k := by
  rw [Nat.shiftLeft_eq, zpow_neg, zpow_natCast, Nat.cast_mul, Nat.cast_pow]
  exact mul_inv_cancel_right₀ (pow_ne_zero _ two_ne_zero) _

/-- Shifted so far, a number below `2 ^ 53` is a full significand. -/
theorem fits_shiftLeft {k : Nat} (hk : 0 < k) (hlt : k < 2 ^ 53) :
    2 ^ 52 ≤ k <<< (52 - k.log2) ∧ Fits (k <<< (52 - k.log2)) (-(52 - k.log2 : Nat)) := by
  have hlog := (Nat.log2_lt hk.ne').2 hlt
  have hfull : 2 ^ 52 ≤ k <<< (52 - k.log2) := by
    rw [Nat.shiftLeft_eq]
    calc 2 ^ 52 = 2 ^ k.log2 * 2 ^ (52 - k.log2) := by rw [← pow_add]; congr 1; omega
      _ ≤ k * 2 ^ (52 - k.log2) := Nat.mul_le_mul_right _ (Nat.log2_self_le hk.ne')
  refine ⟨hfull, ?_, by omega, by omega, .inl hfull⟩
  rw [Nat.shiftLeft_eq]
  calc k * 2 ^ (52 - k.log2) < 2 ^ (k.log2 + 1) * 2 ^ (52 - k.log2) :=
        Nat.mul_lt_mul_of_pos_right Nat.lt_log2_self (Nat.two_pow_pos _)
    _ = 2 ^ 53 := by rw [← pow_add]; congr 1; omega

theorem round_natCast {s : Sign} {k : Nat} (hlog : k.log2 < 53) :
    UnpackedFloat.round .binary64 s k 0 =
      roundWithAccuracy .binary64 s (k <<< (52 - k.log2)) (-(52 - k.log2 : Nat)) .exact := by
  have htarget : Format.binary64.targetExponent (totalExponent k 0) = k.log2 - 52 := by
    change max ((k.log2 : Int) + 1 + 0 - 53) (-1074) = k.log2 - 52
    omega
  rw [UnpackedFloat.round, htarget, decreaseExponent,
    show (0 - ((k.log2 : Int) - 52)).toNat = 52 - k.log2 by omega, zero_sub]

/-- A whole number below `2 ^ 53` is a double as it is. -/
theorem exactly_toFloat {k : Nat} (hk : 0 < k) (hlt : k < 2 ^ 53) :
    Exactly k.toUInt64.toFloat k := by
  obtain ⟨hfull, hfits⟩ := fits_shiftLeft hk hlt
  have hm : 0 < k <<< (52 - k.log2) := lt_of_lt_of_le (Nat.two_pow_pos 52) hfull
  have hword : k.toUInt64.toNat = k := Nat.mod_eq_of_lt (by omega)
  have hround : UnpackedFloat.ofUInt64 .binary64 k.toUInt64 =
      .finite .positive (k <<< (52 - k.log2)) (-(52 - k.log2 : Nat)) hm := by
    unfold UnpackedFloat.ofUInt64 UnpackedFloat.ofNat UnpackedFloat.ofInt UnpackedFloat.normalize
    rw [hword, Int.compare_eq_gt.2 (by omega)]
    refine (round_natCast ((Nat.log2_lt hk.ne').2 hlt)).trans ?_
    refine roundWithAccuracy_of_roundsTo ?_ (.inl hfull) hfits hm (roundsTo_self hm)
    rw [mul_div_cancel_right₀ _ (zpow_pos two_pos _).ne']
    exact represents_exact _
  refine ⟨_, -(52 - k.log2 : Nat), hm, ?_, hfull, shiftLeft_mul_zpow k _⟩
  exact (congrArg (fun u => (pack u).unpack) hround).trans (unpack_pack hfits hm)

theorem powersOfTen_full : ∀ i : Fin Float.exactlyRepresentablePowersOfTen.size,
    (ofFloat? Float.exactlyRepresentablePowersOfTen[i]).any
      (fun d => !d.negative && decide (2 ^ 52 ≤ d.significand) &&
        d.numerator == 10 ^ i.1 * d.denominator) = true := by
  decide +kernel

theorem exactly_powersOfTen {i : Nat} (hi : i < Float.exactlyRepresentablePowersOfTen.size) :
    Exactly (Float.exactlyRepresentablePowersOfTen[i]) (10 ^ i) := by
  obtain ⟨d, hd, hparts⟩ := (Option.any_eq_true _ _).1 (powersOfTen_full ⟨i, hi⟩)
  simp only [Bool.and_eq_true, Bool.not_eq_true', decide_eq_true_eq, beq_iff_eq] at hparts
  obtain ⟨⟨hsign, hfull⟩, hvalue⟩ := hparts
  have hm : 0 < d.significand := lt_of_lt_of_le (Nat.two_pow_pos 52) hfull
  have hdenominator : (d.denominator : ℚ) ≠ 0 := by exact_mod_cast d.denominator_pos.ne'
  refine ⟨d.significand, d.exponent, hm, ?_, hfull, ?_⟩
  · refine (unpack_of_ofFloat? hd).trans ?_
    rw [unpacked, dif_neg hm.ne', sign, hsign]
    rfl
  · rw [value_eq_div, hvalue, Nat.cast_mul, mul_div_cancel_right₀ _ hdenominator, Nat.cast_pow]
    rfl

/-! ### Scaled by a power of ten -/

theorem mul_of_exactly {x y : Float} {u w : ℚ} (hx : Exactly x u) (hy : Exactly y w)
    (hfits : Fits m e) (hm : 0 < m) (h : RoundsTo (u * w) m e) :
    x * y = .ofModel (pack (.finite .positive m e hm)) := by
  obtain ⟨m₁, e₁, hm₁, hx, hfull, rfl⟩ := hx
  obtain ⟨m₂, e₂, hm₂, hy, -, rfl⟩ := hy
  change Float.ofModel (pack (UnpackedFloat.mul .binary64 x.toModel.unpack y.toModel.unpack)) = _
  rw [hx, hy, mul_of_roundsTo hfull hfits hm h]
  rfl

theorem div_of_exactly {x y : Float} {u w : ℚ} (hx : Exactly x u) (hy : Exactly y w)
    (hfits : Fits m e) (hm : 0 < m) (h : RoundsTo (u / w) m e) :
    x / y = .ofModel (pack (.finite .positive m e hm)) := by
  obtain ⟨m₁, e₁, hm₁, hx, -, rfl⟩ := hx
  obtain ⟨m₂, e₂, hm₂, hy, -, rfl⟩ := hy
  change Float.ofModel (pack (UnpackedFloat.div .binary64 x.toModel.unpack y.toModel.unpack)) = _
  rw [hx, hy, div_of_roundsTo hfits hm h]
  rfl

variable {k : Nat} {i : Int}

theorem mul_zpow_of_nonneg (h : 0 ≤ i) : (k * 10 ^ i : ℚ) = k * (10 ^ i.natAbs : Nat) := by
  rw [Nat.cast_pow, ← zpow_natCast, Int.natAbs_of_nonneg h]
  rfl

theorem mul_zpow_of_neg (h : i < 0) : (k * 10 ^ i : ℚ) = k / (10 ^ i.natAbs : Nat) := by
  rw [Nat.cast_pow, ← zpow_natCast, Int.ofNat_natAbs_of_nonpos h.le, zpow_neg, div_inv_eq_mul]
  rfl

/-- Beyond the exact doubles the digits and the power are multiplied or divided before rounding. -/
theorem ofScientific_unpacked (hk : 0 < k) (hlow : -(2048 + k.log2) ≤ i)
    (hhigh : i ≤ 2048) (hfits : Fits m e) (hm : 0 < m) (h : RoundsTo (k * 10 ^ i) m e) :
    UnpackedFloat.ofScientific .binary64 k i = .finite .positive m e hm := by
  have htoo : ¬ (2 : Int) ^ 11 < i := by omega
  have htiny : ¬ i < -(2 ^ 11 + (k.log2 : Int)) := by omega
  unfold UnpackedFloat.ofScientific
  rw [dif_neg hk.ne', if_neg htoo, if_neg htiny]
  split
  · rename_i hi
    rw [mul_zpow_of_nonneg hi] at h
    refine mul_of_roundsTo ?_ hfits hm ?_
    · rw [Nat.shiftLeft_eq]
      exact (Nat.pow_le_pow_right two_pos (by decide)).trans (Nat.le_mul_of_pos_left _ hk)
    · rw [zpow_zero, mul_one, show i.toNat = i.natAbs by omega]
      exact (shiftLeft_mul_zpow k 53).symm ▸ h
  · rename_i hi
    rw [mul_zpow_of_neg (by omega)] at h
    refine div_of_roundsTo hfits hm ?_
    rwa [zpow_zero, mul_one, mul_one, show (-i).toNat = i.natAbs by omega]

/-- **Digits and a power of ten are read as the double that they round to.** -/
theorem ofScientific_of_roundsTo (hk : 0 < k) (hlow : -(2048 + k.log2) ≤ i) (hhigh : i ≤ 2048)
    (hfits : Fits m e) (hm : 0 < m) (h : RoundsTo (k * 10 ^ i) m e) :
    Float.ofScientific k (i < 0) i.natAbs = .ofModel (pack (.finite .positive m e hm)) := by
  unfold Float.ofScientific
  by_cases hi : i < 0
  · have hexponent : Int.negOfNat i.natAbs = i := by
      rw [Int.negOfNat_eq, Int.ofNat_eq_natCast]
      omega
    simp only [decide_eq_true hi, if_true, hexponent]
    split
    · rename_i hsmall
      rw [mul_zpow_of_neg hi, Nat.cast_pow] at h
      have hpower := exactly_powersOfTen (Nat.lt_succ_of_le hsmall.2)
      exact div_of_exactly (exactly_toFloat hk hsmall.1) hpower hfits hm h
    · rw [Float.Model.ofScientific, ofScientific_unpacked hk hlow hhigh hfits hm h]
  · have hexponent : Int.ofNat i.natAbs = i := by
      rw [Int.ofNat_eq_natCast]
      omega
    simp only [decide_eq_false hi, hexponent]
    split
    · rename_i hsmall
      rw [mul_zpow_of_nonneg (by omega), Nat.cast_pow] at h
      have hpower := exactly_powersOfTen (Nat.lt_succ_of_le hsmall.2)
      exact mul_of_exactly (exactly_toFloat hk hsmall.1) hpower hfits hm h
    · have hunpacked := ofScientific_unpacked hk hlow hhigh hfits hm h
      exact congrArg (fun u => Float.ofModel (pack u)) hunpacked

/-! ### Numerals -/

theorem neg_ofModel_pack {s : Sign} (hfits : Fits m e) (hm : 0 < m) :
    -Float.ofModel (pack (.finite s m e hm)) = .ofModel (pack (.finite (-s) m e hm)) := by
  change Float.ofModel (pack (pack (.finite s m e hm)).unpack.neg) = _
  rw [unpack_pack hfits hm]
  rfl

end Stagecraft.Double

namespace Stagecraft.Numeral

open Float.Model Double

variable {n : Numeral} {m : Nat} {e : Int}

/-- How long the digits of a number are, by powers of ten. -/
theorem length_toString {k : Nat} (hk : 0 < k) : ∃ l, (toString k).length = l + 1 ∧
    10 ^ l ≤ k ∧ k < 10 ^ (l + 1) := by
  have hlength : (toString k).length = (Nat.toDigits 10 k).length := by
    rw [Nat.toString_eq_repr, ← String.length_toList, Nat.toList_repr]
  obtain ⟨l, hl⟩ : ∃ l, (Nat.toDigits 10 k).length = l + 1 :=
    Nat.exists_eq_add_one_of_ne_zero (List.length_pos_of_ne_nil Nat.toDigits_ne_nil).ne'
  have hiff : ∀ {j}, 0 < j → ((Nat.toDigits 10 k).length ≤ j ↔ k < 10 ^ j) :=
    Nat.length_toDigits_le_iff (by decide)
  refine ⟨l, hlength.trans hl, ?_, (hiff (Nat.succ_pos l)).1 hl.le⟩
  rcases l.eq_zero_or_pos with rfl | hpos
  · exact hk
  · exact Nat.le_of_not_lt fun hlt => absurd ((hiff hpos).2 hlt) (by omega)

/-- A number that rounds to a double has a size that doubles have. -/
theorem size_bounds (hfits : Fits m e) (hm : 0 < m)
    (h : RoundsTo (n.digits * 10 ^ n.exponent) m e) {l : Nat}
    (hle : 10 ^ l ≤ n.digits) (hlt : n.digits < 10 ^ (l + 1)) :
    -325 ≤ l + n.exponent ∧ l + n.exponent ≤ 308 := by
  have hten : (0 : ℚ) < 10 ^ n.exponent := zpow_pos (by norm_num) _
  have hone : (1 : ℚ) < 10 := by norm_num
  -- the powers of ten next to the least and beyond the greatest double
  have hleast : (2 : Nat) ^ 1076 < 10 ^ 324 := by decide +kernel
  have hgreatest : (2 : Nat) ^ 1024 < 10 ^ 309 := by decide +kernel
  constructor
  · have hvalue : (10 : ℚ) ^ (-324 : Int) < 10 ^ (l + 1 + n.exponent) := calc
      (10 : ℚ) ^ (-324 : Int) < 2 ^ (-1076 : Int) := by
        rw [zpow_neg, zpow_neg]
        exact inv_strictAnti₀ (by positivity) (by exact_mod_cast hleast)
      _ ≤ 2 ^ (e - 2) := zpow_le_zpow_right₀ one_le_two (by have := hfits.least; omega)
      _ = (1 : Nat) * 2 ^ (e - 2) := by rw [Nat.cast_one, one_mul]
      _ ≤ n.digits * 10 ^ n.exponent := h.mul_zpow_le (one_le_lowEnd hm e)
      _ ≤ 10 ^ (l + 1) * 10 ^ n.exponent :=
        mul_le_mul_of_nonneg_right (by exact_mod_cast hlt.le) hten.le
      _ = 10 ^ (l + 1 + n.exponent) := by rw [zpow_add₀ (by norm_num)]; rfl
    have := (zpow_lt_zpow_iff_right₀ hone).1 hvalue
    omega
  · have hvalue : (10 : ℚ) ^ (l + n.exponent) < 10 ^ (309 : Int) := calc
      (10 : ℚ) ^ (l + n.exponent) = 10 ^ l * 10 ^ n.exponent := by rw [zpow_add₀ (by norm_num)]; rfl
      _ ≤ n.digits * 10 ^ n.exponent := mul_le_mul_of_nonneg_right (by exact_mod_cast hle) hten.le
      _ < 2 ^ (e + 53) := h.lt_zpow hfits.lt
      _ ≤ 2 ^ (1024 : Int) := zpow_le_zpow_right₀ one_le_two (by have := hfits.greatest; omega)
      _ < 10 ^ (309 : Int) := by exact_mod_cast hgreatest
    have := (zpow_lt_zpow_iff_right₀ hone).1 hvalue
    omega

/-- **A numeral is read as the double that it rounds to.** -/
theorem toFloat_of_roundsTo (hfits : Fits m e) (hm : 0 < m)
    (h : RoundsTo (n.digits * 10 ^ n.exponent) m e) :
    n.toFloat = .ofModel (pack (.finite (if n.negative then .negative else .positive) m e hm)) := by
  have hdigits : 0 < n.digits := by
    refine Nat.pos_of_ne_zero fun hzero => (h.pos hm).ne' ?_
    rw [hzero, Nat.cast_zero, zero_mul]
  obtain ⟨l, hlength, hle, hlt⟩ := length_toString hdigits
  obtain ⟨hlow, hhigh⟩ := size_bounds hfits hm h hle hlt
  have hlog : l ≤ n.digits.log2 :=
    (Nat.le_log2 hdigits.ne').2 ((Nat.pow_le_pow_left (by decide) l).trans hle)
  have hhuge : ¬ (400 : Int) < ((l + 1 : Nat) : Int) + n.exponent := by omega
  have htiny : ¬ ((l + 1 : Nat) : Int) + n.exponent < -400 := by omega
  have hmagnitude := ofScientific_of_roundsTo hdigits (by omega) (by omega) hfits hm h
  unfold toFloat
  simp only [hlength]
  rw [if_neg hdigits.ne', if_neg hhuge, if_neg htiny, hmagnitude]
  cases n.negative with
  | true => exact neg_ofModel_pack hfits hm
  | false => rfl

end Stagecraft.Numeral
