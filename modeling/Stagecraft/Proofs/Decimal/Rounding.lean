import Mathlib
import Stagecraft.Decimal.Double

/-!
# Rounding to doubles

Arithmetic on doubles unpacks them into a sign, a significand and an exponent, and packs what it
computes again. `Double.ofFloat?` reads the same parts off the bits.

The exact result of an operation is cut to a whole number of units at the exponent of a double, with
one bit for the half of a unit that is left and one for the rest. What is cut off decides the
direction, and a significand that is rounded up beyond its bits is cut once more. So a number that
lies among those nearest to a double is rounded to that double.

* `Double.Fits` : the significands and exponents that there are bits for;
* `Double.unpack_of_ofFloat?` : **a double unpacks to the parts that are read off its bits**, and
  these fit;
* `Double.unpack_pack` : parts that fit are packed without loss;
* `Double.Represents` : a cut number; `Represents.shiftRight` : it can be cut further;
* `Double.Nearest` : the whole number next to a number; `Represents.nearest` : cut numbers are
  rounded to it;
* `Double.RoundsTo` : the numbers that round to a double;
* `Double.target_of_roundsTo` : where they are cut;
* `Double.roundWithAccuracy_of_roundsTo` : **rounding a number gives the double that it rounds to**.
-/

namespace Stagecraft.Double

open Float.Model

/-- A significand and an exponent that there are bits for: the significand is full unless the
exponent is the least. -/
structure Fits (m : Nat) (e : Int) : Prop where
  lt : m < 2 ^ 53
  least : -1074 ≤ e
  greatest : e ≤ 971
  full : 2 ^ 52 ≤ m ∨ e = -1074

/-- The sign of a double. -/
def sign (d : Double) : UnpackedFloat.Sign := if d.negative then .negative else .positive

/-- The parts of a double as arithmetic has them. -/
def unpacked (d : Double) : UnpackedFloat :=
  if h : d.significand = 0 then .zero d.sign
  else .finite d.sign d.significand d.exponent (Nat.pos_of_ne_zero h)

variable {x : Float} {d : Double}

/-! ### Unpacking -/

section Bits

variable (b : BitVec 64)

theorem toNat_unpackMantissa :
    (@UnpackedFloat.unpackMantissa .binary64 b).toNat = b.toNat % 2 ^ 52 := by
  rw [UnpackedFloat.unpackMantissa_def, BitVec.extractLsb'_toNat, Nat.shiftRight_zero]

theorem toNat_unpackExponent :
    (@UnpackedFloat.unpackExponent .binary64 b).toNat = b.toNat / 2 ^ 52 % 2 ^ 11 := by
  rw [UnpackedFloat.unpackExponent_def, BitVec.extractLsb'_toNat, Nat.shiftRight_eq_div_pow]

theorem toNat_unpackSign :
    (@UnpackedFloat.unpackSign .binary64 b).toNat = b.toNat / 2 ^ 63 := by
  have hlt : b.toNat / 2 ^ 63 < 2 := Nat.div_lt_of_lt_mul b.isLt
  rw [UnpackedFloat.unpackSign_def, BitVec.extractLsb'_toNat, Nat.shiftRight_eq_div_pow]
  exact Nat.mod_eq_of_lt hlt

theorem ofBitVec_unpackSign :
    UnpackedFloat.Sign.ofBitVec (@UnpackedFloat.unpackSign .binary64 b) =
      if b.toNat / 2 ^ 63 == 1 then .negative else .positive := by
  have hlt : b.toNat / 2 ^ 63 < 2 := Nat.div_lt_of_lt_mul b.isLt
  simp only [UnpackedFloat.Sign.ofBitVec, BitVec.toNat_eq, toNat_unpackSign]
  interval_cases b.toNat / 2 ^ 63 <;> rfl

end Bits

/-- What packed components unpack to, by the field for the exponent. -/
theorem unpack_packComponents (s : UnpackedFloat.Sign) (field : BitVec 11) (fraction : BitVec 52) :
    UnpackedFloat.unpack .binary64 (UnpackedFloat.packComponents .binary64 s field fraction) =
      if field.toNat = 2047 then if fraction.toNat = 0 then .infinity s else .notANumber
      else if field.toNat = 0 then
        if h : fraction.toNat = 0 then .zero s
        else .finite s fraction.toNat (-1074) (Nat.pos_of_ne_zero h)
      else .finite s (2 ^ 52 + fraction.toNat) (field.toNat - 1075)
        (Nat.add_pos_left (Nat.two_pow_pos 52) _) := by
  have hbias : ((Format.binary64.exponentBias : Int) + (52 : Nat)) = 1075 := by decide
  have hmax : (-1#11).toNat = 2047 := by decide
  have hfull : (1#1 ++ fraction).toNat = 2 ^ 52 + fraction.toNat := by
    rw [BitVec.toNat_append, ← Nat.shiftLeft_add_eq_or_of_lt fraction.isLt]
    rfl
  rw [UnpackedFloat.unpack.eq_1]
  simp only [UnpackedFloat.unpackExponent_packComponents,
    UnpackedFloat.unpackMantissa_packComponents, UnpackedFloat.unpackSign_packComponents,
    UnpackedFloat.Sign.ofBitVec_toBitVec, BitVec.toNat_eq, BitVec.toNat_ofNat, Nat.zero_mod,
    hbias, hmax, hfull]
  refine ite_congr rfl (fun _ => rfl) fun _ => ite_congr rfl (fun hzero => ?_) fun _ => rfl
  rw [hzero]
  rfl

/-- What a double unpacks to, by the field of its bits for the exponent. -/
theorem unpack_eq (x : Float) : x.toModel.unpack =
    let bits := x.toBits.toNat
    let sign : UnpackedFloat.Sign := if bits / 2 ^ 63 == 1 then .negative else .positive
    if bits / 2 ^ 52 % 2 ^ 11 = 2047 then
      if bits % 2 ^ 52 = 0 then .infinity sign else .notANumber
    else if bits / 2 ^ 52 % 2 ^ 11 = 0 then
      if h : bits % 2 ^ 52 = 0 then .zero sign
      else .finite sign (bits % 2 ^ 52) (-1074) (Nat.pos_of_ne_zero h)
    else .finite sign (2 ^ 52 + bits % 2 ^ 52) ((bits / 2 ^ 52 % 2 ^ 11 : Nat) - 1075)
      (Nat.add_pos_left (Nat.two_pow_pos 52) _) := by
  change UnpackedFloat.unpack .binary64 x.toBits.toBitVec = _
  rw [← @UnpackedFloat.packComponents_unpackSign_unpackExponent_unpackMantissa .binary64
    x.toBits.toBitVec, unpack_packComponents]
  simp only [toNat_unpackExponent, toNat_unpackMantissa, ofBitVec_unpackSign]
  rfl

/-- **A double unpacks to the parts that are read off its bits.** -/
theorem unpack_of_ofFloat? (h : ofFloat? x = some d) : x.toModel.unpack = d.unpacked := by
  refine (unpack_eq x).trans ?_
  unfold ofFloat? at h
  simp only [Nat.pow_eq] at h
  change (if x.toBits.toNat / 2 ^ 52 % 2 ^ 11 = 2047 then _ else _) = _
  split at h
  · cases h
  · rename_i hfinite
    rw [if_neg hfinite]
    split at h
    · rename_i hzero
      cases h
      exact if_pos hzero
    · rename_i hzero
      cases h
      refine (if_neg hzero).trans (Eq.symm (dif_neg ?_))
      exact (Nat.add_pos_left (Nat.two_pow_pos 52) _).ne'

/-- The parts that are read off the bits of a double fit. -/
theorem fits_of_ofFloat? (h : ofFloat? x = some d) : Fits d.significand d.exponent := by
  unfold ofFloat? at h
  simp only [Nat.pow_eq] at h
  have hfraction := Nat.mod_lt x.toBits.toNat (Nat.two_pow_pos 52)
  have hfield := Nat.mod_lt (x.toBits.toNat / 2 ^ 52) (Nat.two_pow_pos 11)
  split at h
  · cases h
  · split at h
    · cases h
      exact ⟨hfraction.trans (by decide), le_rfl, (by decide : (-1074 : Int) ≤ 971), .inr rfl⟩
    · cases h
      constructor <;> simp only <;> omega

/-- The gap below is narrow below a full significand with no more than its first bit. -/
theorem narrowBelow_iff (h : ofFloat? x = some d) :
    d.narrowBelow = true ↔ d.significand = 2 ^ 52 ∧ -1074 < d.exponent := by
  unfold ofFloat? at h
  simp only [Nat.pow_eq] at h
  have hfraction := Nat.mod_lt x.toBits.toNat (Nat.two_pow_pos 52)
  split at h
  · cases h
  · split at h
    · cases h
      simp
    · cases h
      simp only [Bool.and_eq_true, beq_iff_eq, decide_eq_true_eq]
      omega

/-- A number that has no parts is infinite. -/
theorem unpack_of_ofFloat?_none (h : ofFloat? x = none) (hx : x.isNaN = false) :
    ∃ s, x.toModel.unpack = .infinity s := by
  have hfield : x.toBits.toNat / 2 ^ 52 % 2 ^ 11 = 2047 := by
    by_contra hfinite
    simp only [ofFloat?, Nat.pow_eq, if_neg hfinite] at h
    split at h <;> cases h
  have hspecial : x.toModel.unpack = if x.toBits.toNat % 2 ^ 52 = 0 then .infinity
      (if x.toBits.toNat / 2 ^ 63 == 1 then .negative else .positive) else .notANumber :=
    (unpack_eq x).trans (if_pos hfield)
  split at hspecial
  · exact ⟨_, hspecial⟩
  · have hnan : x.toModel.unpack.isNaN = false := hx
    rw [hspecial] at hnan
    cases hnan

/-! ### Packing -/

theorem ofModel_pack_unpack (x : Float) : Float.ofModel (pack x.toModel.unpack) = x := by
  rw [← Float.toBits_inj]
  exact congrArg UInt64.ofBitVec (UnpackedFloat.pack_unpack_of_valid x.toModel.valid)

/-- **Parts that fit are packed without loss.** The significand loses its first bit if it is full,
and the field for the exponent tells that it was. -/
theorem unpack_pack {s : UnpackedFloat.Sign} {m : Nat} {e : Int} (h : Fits m e) (hm : 0 < m) :
    (pack (.finite s m e hm)).unpack = .finite s m e hm := by
  obtain ⟨hlt, hleast, hgreatest, hfull⟩ := h
  have hbias : ((Format.binary64.exponentBias : Int) + (52 : Nat)) = 1075 := by decide
  have hlog : m.log2 + 1 = Format.binary64.mantissaBits ↔ 2 ^ 52 ≤ m := by
    have hbelow := (Nat.log2_lt hm.ne').2 hlt
    rw [← Nat.le_log2 hm.ne']
    change m.log2 + 1 = 53 ↔ _
    omega
  change UnpackedFloat.unpack .binary64 (UnpackedFloat.pack .binary64 (.finite s m e hm)) = _
  simp only [UnpackedFloat.pack, Int.add_assoc, hbias, hlog]
  rw [if_neg (by omega)]
  split
  · have hfield : (BitVec.ofNat 11 (e + 1075).toNat).toNat = (e + 1075).toNat := by
      rw [BitVec.toNat_ofNat]
      omega
    have hfraction : 2 ^ 52 + (BitVec.ofNat 52 m).toNat = m := by
      rw [BitVec.toNat_ofNat]
      omega
    simp only [unpack_packComponents, hfield, hfraction]
    rw [if_neg (by omega), if_neg (by omega), UnpackedFloat.finite.injEq]
    exact ⟨rfl, rfl, by omega⟩
  · have hfraction : (BitVec.ofNat 52 m).toNat = m := by
      rw [BitVec.toNat_ofNat]
      omega
    simp only [unpack_packComponents, hfraction]
    rw [if_neg (by decide), if_pos (by decide), dif_neg hm.ne', UnpackedFloat.finite.injEq]
    exact ⟨rfl, rfl, by omega⟩

open UnpackedFloat

/-! ### Cut numbers -/

/-- A number cut to a whole part, with a bit for its half and a bit for what is left. -/
structure Represents (em : ExtendedMantissa) (w : ℚ) : Prop where
  le : 2 * em.mantissa + em.roundBit.toNat ≤ 2 * w
  lt : 2 * w < 2 * em.mantissa + em.roundBit.toNat + 1
  sticky : em.stickyBit = false ↔ 2 * w = 2 * em.mantissa + em.roundBit.toNat

/-- The whole number next to a number, the even one of two that are as near. -/
structure Nearest (w : ℚ) (n : Nat) : Prop where
  low : 2 * n - 1 ≤ 2 * w
  high : 2 * w ≤ 2 * n + 1
  even : 2 * w = 2 * n - 1 ∨ 2 * w = 2 * n + 1 → n % 2 = 0

variable {em : ExtendedMantissa} {w : ℚ}

theorem represents_exact (m : Nat) : Represents (.ofMantissaAndAccuracy m .exact) m := by
  constructor <;> simp [ExtendedMantissa.ofMantissaAndAccuracy]

theorem represents_inexact (m : Nat) {f : ℚ} (hpos : 0 < f) (hlt : f < 1) :
    Represents (.ofMantissaAndAccuracy m (.inexact (compare (2 * f) 1))) (m + f) := by
  obtain h | h | h := lt_trichotomy (2 * f) 1
  · rw [compare_lt_iff_lt.2 h]
    constructor <;> simp [ExtendedMantissa.ofMantissaAndAccuracy] <;> linarith
  · rw [compare_eq_iff_eq.2 h]
    constructor <;> simp [ExtendedMantissa.ofMantissaAndAccuracy] <;> linarith
  · rw [compare_gt_iff_gt.2 h]
    constructor <;> simp [ExtendedMantissa.ofMantissaAndAccuracy] <;> linarith

/-- Natural numbers are compared as they are when both are scaled. -/
theorem compare_natCast_mul {c : ℚ} (hc : 0 < c) (a b : Nat) :
    compare (a * c) (b * c) = compare a b := by
  obtain h | h | h := lt_trichotomy a b
  · rw [compare_lt_iff_lt.2 h, compare_lt_iff_lt]
    exact mul_lt_mul_of_pos_right (by exact_mod_cast h) hc
  · rw [h, compare_eq_iff_eq.2 rfl, compare_eq_iff_eq.2 rfl]
  · rw [compare_gt_iff_gt.2 h, compare_gt_iff_gt]
    exact mul_lt_mul_of_pos_right (by exact_mod_cast h) hc

theorem represents_fraction (a : Nat) {b : Nat} (hb : 0 < b) :
    Represents (.ofMantissaAndAccuracy (a / b) (accuracyOfFraction (a % b) b)) (a / b) := by
  have hb' : (0 : ℚ) < b := by exact_mod_cast hb
  have hdiv : (a : ℚ) / b = (a / b : Nat) + (a % b : Nat) / b := by
    rw [div_eq_iff hb'.ne', add_mul, div_mul_cancel₀ _ hb'.ne']
    exact_mod_cast (Nat.div_add_mod' a b).symm
  rw [hdiv, accuracyOfFraction]
  split
  · rename_i hzero
    rw [hzero, Nat.cast_zero, zero_div, add_zero]
    exact represents_exact _
  · rename_i hpos
    have hcompare : compare (2 * (a % b)) b = compare (2 * (((a % b : Nat) : ℚ) / b)) 1 := by
      rw [← compare_natCast_mul (inv_pos.2 hb'), mul_inv_cancel₀ hb'.ne', Nat.cast_mul, mul_assoc,
        ← div_eq_mul_inv, Nat.cast_two]
    rw [hcompare]
    refine represents_inexact _ (div_pos ?_ hb') ((div_lt_one hb').2 ?_)
    · exact_mod_cast Nat.pos_of_ne_zero hpos
    · exact_mod_cast Nat.mod_lt a hb

theorem Represents.shiftRightOne (h : Represents em w) : Represents em.shiftRightOne (w / 2) := by
  obtain ⟨m, r, t⟩ := em
  obtain ⟨hle, hlt, hsticky⟩ := h
  -- what is cut off becomes the bit for the half
  have hparts : (2 * (m / 2 : Nat) + ((m % 2 != 0).toNat : Nat) : ℚ) = m := by
    have hbit : (m % 2 != 0).toNat = m % 2 := by
      obtain h | h := Nat.mod_two_eq_zero_or_one m <;> rw [h] <;> rfl
    rw [hbit]
    exact_mod_cast Nat.div_add_mod m 2
  have hwhole : 2 * (w / 2) = w := mul_div_cancel₀ w two_ne_zero
  cases r with
  | false =>
    simp only [Bool.toNat_false, Nat.cast_zero, add_zero] at hle hlt hsticky
    constructor <;> simp only [ExtendedMantissa.shiftRightOne, hparts, hwhole]
    · linarith
    · linarith
    · rw [Bool.false_or, hsticky]
      exact mul_right_inj' two_ne_zero
  | true =>
    simp only [Bool.toNat_true, Nat.cast_one] at hle hlt
    constructor <;> simp only [ExtendedMantissa.shiftRightOne, hparts, hwhole]
    · linarith
    · linarith
    · refine iff_of_false (by simp) ?_
      linarith

theorem Represents.shiftRight (h : Represents em w) (n : Nat) :
    Represents (em >>> n) (w / 2 ^ n) := by
  induction n with
  | zero =>
    rw [pow_zero, div_one]
    exact h
  | succ n ih =>
    rw [pow_succ, ← div_div]
    exact ih.shiftRightOne

theorem nearest_of_lt {n : Nat} (hlow : 2 * n - 1 < 2 * w) (hhigh : 2 * w < 2 * n + 1) :
    Nearest w n :=
  ⟨hlow.le, hhigh.le, fun h => h.elim (fun h => absurd h hlow.ne') fun h => absurd h hhigh.ne⟩

theorem Represents.nearest (h : Represents em w) : Nearest w em.roundedMantissa := by
  obtain ⟨m, r, t⟩ := em
  obtain ⟨hle, hlt, hsticky⟩ := h
  cases r with
  | false =>
    simp only [Bool.toNat_false, Nat.cast_zero, add_zero] at hle hlt
    have hround : (ExtendedMantissa.mk m false t).roundedMantissa = m := by cases t <;> rfl
    rw [hround]
    exact nearest_of_lt (by linarith) hlt
  | true =>
    simp only [Bool.toNat_true, Nat.cast_one] at hle hlt hsticky
    cases t with
    | false =>
      -- halfway between two whole numbers, one of which is even
      change Nearest w (m + m % 2)
      have hhalf := hsticky.1 rfl
      obtain hm | hm := Nat.mod_two_eq_zero_or_one m
      · rw [hm, add_zero]
        exact ⟨by linarith, by linarith, fun _ => hm⟩
      · rw [hm]
        exact ⟨by push_cast; linarith, by push_cast; linarith, fun _ => by omega⟩
    | true =>
      have hmore : 2 * w ≠ 2 * m + 1 := fun h => Bool.noConfusion (hsticky.2 h)
      refine nearest_of_lt (n := m + 1) ?_ ?_
      · push_cast
        linarith [lt_of_le_of_ne hle hmore.symm]
      · push_cast
        linarith

theorem Nearest.unique {m n : Nat} (hm : Nearest w m) (hn : Nearest w n) : m = n := by
  wlog hlt : m < n generalizing m n
  · obtain h | h := Nat.lt_or_eq_of_le (Nat.le_of_not_lt hlt)
    · exact (this hn hm h).symm
    · exact h.symm
  have hstep : (m : ℚ) + 1 ≤ n := by exact_mod_cast hlt
  have hlow := hn.low
  have hhigh := hm.high
  have heq : (n : ℚ) = (m + 1 : Nat) := by
    push_cast
    linarith
  have hn' := hn.even (.inl (by linarith))
  have hm' := hm.even (.inr (by linarith))
  rw [Nat.cast_inj] at heq
  omega

/-! ### The numbers that round to a double -/

/-- Four times the midpoint below a significand, in units of the last place. Below a full
significand with no more than its first bit the neighbour is half as far away. -/
def lowEnd (m : Nat) (e : Int) : Nat := if m = 2 ^ 52 ∧ -1074 < e then 4 * m - 1 else 4 * m - 2

/-- A number is among those that round to `m * 2 ^ e`: between the midpoints to its neighbours, the
midpoints themselves included when the significand is even. -/
structure RoundsTo (v : ℚ) (m : Nat) (e : Int) : Prop where
  low : lowEnd m e * 2 ^ (e - 2) ≤ v
  high : v ≤ (4 * m + 2 : Nat) * 2 ^ (e - 2)
  even : v = lowEnd m e * 2 ^ (e - 2) ∨ v = (4 * m + 2 : Nat) * 2 ^ (e - 2) → m % 2 = 0

variable {v : ℚ} {m m₀ : Nat} {e e₀ : Int}

theorem le_lowEnd (m : Nat) (e : Int) : 4 * m - 2 ≤ lowEnd m e := by
  unfold lowEnd
  split <;> omega

theorem one_le_lowEnd (hm : 0 < m) (e : Int) : 1 ≤ lowEnd m e :=
  (by omega : 1 ≤ 4 * m - 2).trans (le_lowEnd m e)

theorem two_zpow_eq {k : Nat} (h : e₀ + k = e) : (2 : ℚ) ^ e = 2 ^ k * 2 ^ e₀ := by
  rw [← h, zpow_add₀ two_ne_zero, zpow_natCast, mul_comm]

/-- A power with a whole exponent as a fraction. -/
theorem zpow_eq_div {b : ℚ} (hb : b ≠ 0) (z : Int) : b ^ z = b ^ z.toNat / b ^ (-z).toNat := by
  rw [← zpow_natCast, ← zpow_natCast, ← zpow_sub₀ hb]
  congr 1
  omega

/-- The magnitude of a double as a fraction. -/
theorem value_eq_div (d : Double) :
    (d.significand * 2 ^ d.exponent : ℚ) = d.numerator / d.denominator := by
  rw [zpow_eq_div two_ne_zero, mul_div_assoc']
  unfold numerator denominator
  rw [Nat.pow_eq, Nat.pow_eq]
  push_cast
  rfl

namespace RoundsTo

theorem lt_zpow (h : RoundsTo v m e) (hm : m < 2 ^ 53) : v < 2 ^ (e + 53) := by
  have hm' : ((4 * m + 2 : Nat) : ℚ) < 2 ^ 55 := by exact_mod_cast (by omega : 4 * m + 2 < 2 ^ 55)
  calc v ≤ (4 * m + 2 : Nat) * 2 ^ (e - 2) := h.high
    _ < 2 ^ 55 * 2 ^ (e - 2) := mul_lt_mul_of_pos_right hm' (zpow_pos two_pos _)
    _ = 2 ^ (e + 53) := (two_zpow_eq (by omega : e - 2 + (55 : Nat) = e + 53)).symm

theorem mul_zpow_le (h : RoundsTo v m e) {k : Nat} (hk : k ≤ lowEnd m e) :
    k * 2 ^ (e - 2) ≤ v :=
  (mul_le_mul_of_nonneg_right (by exact_mod_cast hk) (zpow_pos two_pos _).le).trans h.low

theorem pos (h : RoundsTo v m e) (hm : 0 < m) : 0 < v := by
  refine lt_of_lt_of_le ?_ (h.mul_zpow_le (one_le_lowEnd hm e))
  rw [Nat.cast_one, one_mul]
  exact zpow_pos two_pos _

/-- A number that rounds to a double is next to it in units of its last place. -/
theorem nearest (h : RoundsTo v m e) (hm : 0 < m) : Nearest (v / 2 ^ e) m := by
  have hu : (0 : ℚ) < 2 ^ (e - 2) := zpow_pos two_pos _
  have hlowEnd : (4 * m : ℚ) ≤ lowEnd m e + 2 := by
    have := le_lowEnd m e
    exact_mod_cast (by omega : 4 * m ≤ lowEnd m e + 2)
  obtain ⟨w, rfl⟩ : ∃ w, v = w * 2 ^ (e - 2) := ⟨_, (div_mul_cancel₀ v hu.ne').symm⟩
  have hw : 2 * (w * 2 ^ (e - 2) / 2 ^ e) = w / 2 := by
    rw [two_zpow_eq (by omega : e - 2 + (2 : Nat) = e), mul_div_mul_right _ _ hu.ne']
    ring
  obtain ⟨hlow, hhigh, heven⟩ := h
  rw [mul_le_mul_iff_of_pos_right hu] at hlow hhigh
  rw [mul_left_inj' hu.ne', mul_left_inj' hu.ne'] at heven
  push_cast at hhigh heven
  refine ⟨by linarith, by linarith, fun h => heven (h.imp (fun hl => ?_) fun hr => ?_)⟩ <;> linarith

end RoundsTo

/-- A double rounds to itself. -/
theorem roundsTo_self (hm : 0 < m) : RoundsTo (m * 2 ^ e) m e := by
  have hu : (0 : ℚ) < 2 ^ (e - 2) := zpow_pos two_pos _
  have hv : (m * 2 ^ e : ℚ) = (4 * m : Nat) * 2 ^ (e - 2) := by
    rw [two_zpow_eq (by omega : e - 2 + (2 : Nat) = e)]
    push_cast
    ring
  have hlow : lowEnd m e < 4 * m := by
    unfold lowEnd
    split <;> omega
  rw [hv]
  refine ⟨?_, ?_, ?_⟩
  · exact mul_le_mul_of_nonneg_right (by exact_mod_cast hlow.le) hu.le
  · exact mul_le_mul_of_nonneg_right (by exact_mod_cast (by omega : 4 * m ≤ 4 * m + 2)) hu.le
  · rw [mul_left_inj' hu.ne', mul_left_inj' hu.ne', Nat.cast_inj, Nat.cast_inj]
    omega

/-! ### Rounding -/

/-- The exponent that rounding aims at: the leading bit comes first in the significand, unless that
takes an exponent below the least. -/
def target (m : Nat) (e : Int) : Int := max (m.log2 + e - 52) (-1074)

theorem shiftToTargetExponent_eq {q : Int} (a : Accuracy) (hq : target m₀ e₀ = q) (h : e₀ ≤ q) :
    shiftToTargetExponent .binary64 m₀ e₀ a =
      (ExtendedMantissa.ofMantissaAndAccuracy m₀ a >>> (q - e₀).toNat, q) := by
  have htarget : Format.binary64.targetExponent (totalExponent m₀ e₀) = q := by
    rw [← hq]
    change max ((m₀.log2 : Int) + 1 + e₀ - 53) (-1074) = max (m₀.log2 + e₀ - 52) (-1074)
    congr 1
    omega
  unfold shiftToTargetExponent shiftToExponent
  simp only [htarget, Prod.mk.injEq, true_and]
  omega

/-- Rounding cuts at the exponent of the double that a number rounds to, or right below it where the
number is below a full significand with no more than its first bit. -/
theorem target_of_roundsTo (hle : m₀ * 2 ^ e₀ ≤ v) (hlt : v < (m₀ + 1) * 2 ^ e₀)
    (hfine : 2 ^ 52 ≤ m₀ ∨ e₀ ≤ -1074) (hfits : Fits m e) (h : RoundsTo v m e) :
    e₀ ≤ target m₀ e₀ ∧ (target m₀ e₀ = e ∨
      target m₀ e₀ = e - 1 ∧ m = 2 ^ 52 ∧ -1074 < e ∧ v < 2 ^ (e + 52)) := by
  have hu : ∀ e : Int, (0 : ℚ) < 2 ^ e := zpow_pos two_pos
  have hbelow : v < 2 ^ (e₀ + (m₀.log2 + 1 : Nat)) := by
    rw [two_zpow_eq rfl]
    refine hlt.trans_le (mul_le_mul_of_nonneg_right ?_ (hu _).le)
    exact_mod_cast Nat.lt_log2_self
  have hfull : 2 ^ 52 ≤ m₀ → 52 ≤ m₀.log2 := fun hm => (Nat.le_log2 (by omega)).2 hm
  -- the exponent of the leading bit is below that of the end of the significand
  have hupper : m₀ ≠ 0 → m₀.log2 + e₀ < e + 53 := fun hm => by
    refine (zpow_lt_zpow_iff_right₀ (one_lt_two : (1 : ℚ) < 2)).1 ?_
    refine lt_of_le_of_lt ?_ (h.lt_zpow hfits.lt)
    rw [two_zpow_eq (add_comm e₀ _)]
    refine (mul_le_mul_of_nonneg_right ?_ (hu _).le).trans hle
    exact_mod_cast Nat.log2_self_le hm
  have hlower : ∀ k : Nat, 2 ^ k ≤ lowEnd m e → e - 2 + k < e₀ + (m₀.log2 + 1 : Nat) := by
    intro k hk
    refine (zpow_lt_zpow_iff_right₀ (one_lt_two : (1 : ℚ) < 2)).1 (lt_of_le_of_lt ?_ hbelow)
    rw [two_zpow_eq rfl]
    exact_mod_cast h.mul_zpow_le hk
  obtain ⟨hm, hleast, -, hnormal⟩ := hfits
  have hzero : m₀ = 0 → m₀.log2 = 0 := fun hm => by rw [hm]; rfl
  have hlowEnd := le_lowEnd m e
  unfold target
  refine ⟨by omega, ?_⟩
  by_cases hsub : e = -1074
  · exact .inl (by omega)
  obtain hm' | hm' := Nat.lt_or_eq_of_le (hnormal.resolve_right hsub)
  · have := hlower 54 (by omega)
    exact .inl (by omega)
  · have := hlower 53 (by omega)
    by_cases hq : max (m₀.log2 + e₀ - 52) (-1074) = e
    · exact .inl hq
    · refine .inr ⟨by omega, hm'.symm, by omega, hbelow.trans_le ?_⟩
      exact zpow_le_zpow_right₀ one_le_two (by omega)

variable {s : Sign} {a : Accuracy}

theorem Represents.bounds (h : Represents em w) : em.mantissa ≤ w ∧ w < em.mantissa + 1 := by
  have hnonneg : (0 : ℚ) ≤ em.roundBit.toNat := Nat.cast_nonneg _
  have hone : (em.roundBit.toNat : ℚ) ≤ 1 := by exact_mod_cast Bool.toNat_le em.roundBit
  have hle := h.le
  have hlt := h.lt
  constructor <;> linarith

@[simp]
theorem mantissa_ofMantissaAndAccuracy (m : Nat) (a : Accuracy) :
    (ExtendedMantissa.ofMantissaAndAccuracy m a).mantissa = m := by
  cases a with
  | exact => rfl
  | inexact o => cases o <;> rfl

theorem target_of_fits (hm : 0 < m) (hfits : Fits m e) : target m e = e := by
  obtain ⟨hlt, hleast, -, hfull⟩ := hfits
  rw [← Nat.log2_lt hm.ne'] at hlt
  rw [← Nat.le_log2 hm.ne'] at hfull
  unfold target
  omega

/-- A number right below a full significand with no more than its first bit is next to twice that
significand in units of the last place below. -/
theorem nearest_of_carry (h : RoundsTo v (2 ^ 52) e) (he : -1074 < e) (hbelow : v < 2 ^ (e + 52)) :
    Nearest (v / 2 ^ (e - 1)) (2 ^ 53) := by
  have hu : (0 : ℚ) < 2 ^ (e - 2) := zpow_pos two_pos _
  have hlowEnd : 2 ^ 54 - 1 ≤ lowEnd (2 ^ 52) e := by
    rw [lowEnd, if_pos ⟨rfl, he⟩]
    decide
  have hlow := h.mul_zpow_le hlowEnd
  have hw : 2 * (v / 2 ^ (e - 1)) = v / 2 ^ (e - 2) := by
    rw [two_zpow_eq (by omega : e - 2 + (1 : Nat) = e - 1), pow_one, mul_comm, div_mul_eq_mul_div,
      mul_comm v, mul_div_mul_left _ _ two_ne_zero]
  have hle : 2 * (2 ^ 53 : Nat) - 1 ≤ 2 * (v / 2 ^ (e - 1)) := by
    rw [hw, le_div_iff₀ hu]
    norm_num at hlow ⊢
    exact hlow
  have hlt : 2 * (v / 2 ^ (e - 1)) < 2 * (2 ^ 53 : Nat) := by
    rw [hw, div_lt_iff₀ hu]
    rw [two_zpow_eq (by omega : e - 2 + (54 : Nat) = e + 52)] at hbelow
    norm_num at hbelow ⊢
    exact hbelow
  exact ⟨hle, by linarith, fun _ => by decide⟩

theorem roundWithAccuracy_eq {q : Int} {em em' : ExtendedMantissa} (hm : 0 < m)
    (hcut : shiftToTargetExponent .binary64 m₀ e₀ a = (em, q))
    (hagain : shiftToTargetExponent .binary64 em.roundedMantissa q .exact = (em', e))
    (hem : em'.mantissa = m) : roundWithAccuracy .binary64 s m₀ e₀ a = .finite s m e hm := by
  subst hem
  unfold roundWithAccuracy
  simp only [hcut, hagain]
  exact dif_neg hm.ne'

/-- **Rounding a number gives the double that it rounds to.** Cut right below the exponent of the
double, the significand is rounded up to one bit more than there is room for, and is cut again. -/
theorem roundWithAccuracy_of_roundsTo
    (hrep : Represents (.ofMantissaAndAccuracy m₀ a) (v / 2 ^ e₀))
    (hfine : 2 ^ 52 ≤ m₀ ∨ e₀ ≤ -1074) (hfits : Fits m e) (hm : 0 < m) (h : RoundsTo v m e) :
    roundWithAccuracy .binary64 s m₀ e₀ a = .finite s m e hm := by
  have hu : (0 : ℚ) < 2 ^ e₀ := zpow_pos two_pos e₀
  obtain ⟨hle, hlt⟩ := hrep.bounds
  rw [mantissa_ofMantissaAndAccuracy, le_div_iff₀ hu] at hle
  rw [mantissa_ofMantissaAndAccuracy, div_lt_iff₀ hu] at hlt
  obtain ⟨hq, htarget⟩ := target_of_roundsTo hle hlt hfine hfits h
  have hnearest := (hrep.shiftRight (target m₀ e₀ - e₀).toNat).nearest
  rw [div_div, mul_comm,
    ← two_zpow_eq (by omega : e₀ + (target m₀ e₀ - e₀).toNat = target m₀ e₀)] at hnearest
  have hcut := shiftToTargetExponent_eq a rfl hq
  obtain htarget | ⟨htarget, rfl, he, hbelow⟩ := htarget
  · rw [htarget] at hnearest hcut
    have hagain := shiftToTargetExponent_eq .exact (target_of_fits hm hfits) le_rfl
    rw [sub_self, ← hnearest.unique (h.nearest hm)] at hagain
    exact roundWithAccuracy_eq hm hcut hagain (hnearest.unique (h.nearest hm))
  · rw [htarget] at hnearest hcut
    have hcarry : target (2 ^ 53) (e - 1) = e := by
      unfold target
      rw [Nat.log2_two_pow]
      omega
    have hagain := shiftToTargetExponent_eq .exact hcarry (by omega)
    rw [show (e - (e - 1)).toNat = 1 by omega,
      ← hnearest.unique (nearest_of_carry h he hbelow)] at hagain
    refine roundWithAccuracy_eq hm hcut hagain ?_
    rw [hnearest.unique (nearest_of_carry h he hbelow)]
    rfl

end Stagecraft.Double
