import Stagecraft.Primitive.Run
import Mathlib.Logic.ExistsUnique

/-!
# Comparing either way round

Which of two values is asked about first makes no difference: both have to read as numbers to be
compared as numbers, and texts have a linear order once case is taken out of them. Neither needs
anything of doubles but that no double is both below and above another, which is so of what is not a
number too.

* `Double.not_lt_of_lt` : the order of doubles is asymmetric;
* `Value.number?` : what a value is compared as;
* `Value.compare_eq` : **a comparison asks the same of both sides**;
* `Value.compare_swap`, `Value.compare_self` : the other way round it is the reverse;
* `Value.mirrored_of_operands` : **the comparison operators mirror each other**.
-/

namespace Stagecraft

/-! ### Numbers -/

namespace Double

open Float.Model

/-- By cases on what the two are: only the magnitudes are compared by anything but their kinds. -/
theorem compare_unpacked_swap (x y : UnpackedFloat) :
    y.compare x = (x.compare y).map Ordering.swap := by
  have hmagnitude : ∀ (m n : Nat) (e d : Int), (Ord.compare d e).then (Ord.compare n m) =
      ((Ord.compare e d).then (Ord.compare m n)).swap := fun m n e d => by
    rw [Ordering.swap_then, Int.compare_swap, Nat.compare_swap]
  cases x with
  | notANumber => cases y <;> rfl
  | infinity s =>
    cases y with
    | infinity s' => cases s <;> cases s' <;> rfl
    | _ => cases s <;> rfl
  | zero s =>
    cases y with
    | infinity s' => cases s' <;> rfl
    | finite s' m e hm => cases s' <;> rfl
    | _ => rfl
  | finite s m e hm =>
    cases y with
    | infinity s' => cases s' <;> rfl
    | notANumber => rfl
    | zero s' => cases s <;> rfl
    | finite s' n d hn =>
      cases s with
      | positive =>
        cases s' with
        | positive => exact congrArg some (hmagnitude m n e d)
        | negative => rfl
      | negative =>
        cases s' with
        | positive => rfl
        | negative => exact congrArg (fun o => some o.swap) (hmagnitude m n e d)

/-- **No double is both below and above another.** -/
theorem not_lt_of_lt {x y : Float} (h : x < y) : ¬ y < x := by
  have hiff : ∀ {x y : Float}, x < y ↔
      x.toModel.unpack.compare y.toModel.unpack = some .lt := fun {x y} => by
    change decide (x.toModel.unpack.lt y.toModel.unpack = true) = true ↔ _
    rw [decide_eq_true_eq, UnpackedFloat.lt, beq_iff_eq]
  rw [hiff] at h ⊢
  rw [compare_unpacked_swap, h]
  decide

end Double

namespace Value

variable {a b : Value}

theorem compareNumbers_swap (x y : Float) : compareNumbers y x = (compareNumbers x y).swap := by
  unfold compareNumbers
  by_cases h : x < y
  · rw [if_neg (Double.not_lt_of_lt h), if_pos h, if_pos h]
    rfl
  · rw [if_neg h, if_neg h]
    split <;> rfl

theorem compareNumbers_self (x : Float) : compareNumbers x x = .eq := by
  have h : ¬ x < x := fun h => Double.not_lt_of_lt h h
  rw [compareNumbers, if_neg h, if_neg h]

/-! ### Texts -/

theorem compareTexts_swap (s t : String) : compareTexts t s = (compareTexts s t).swap :=
  compareOfLessAndEq_eq_swap String.le_antisymm String.le_total String.not_le

theorem compareTexts_self (s : String) : compareTexts s s = .eq :=
  (compareOfLessAndEq_eq_eq String.le_refl String.not_le).2 rfl

/-! ### Values -/

/-- The number that a value is compared as, if it reads as one and not only because it is blank. -/
def number? (v : Value) : Option Float :=
  if v.isBlankZero || v.strictNumber.isNaN then none else some v.strictNumber

theorem isNaN_notANumber : notANumber.isNaN = true := by decide

/-- **A comparison asks the same of both sides.** -/
theorem compare_eq (a b : Value) : a.compare b =
    match a.number?, b.number? with
    | some x, some y => compareNumbers x y
    | _, _ => compareTexts a.toText b.toText := by
  unfold Value.compare number?
  cases a.isBlankZero with
  | true => simp only [isNaN_notANumber, Bool.true_or, if_true]
  | false =>
    cases b.isBlankZero with
    | true =>
      simp only [isNaN_notANumber, Bool.not_false, Bool.true_and, Bool.or_true, Bool.true_or,
        if_true]
      cases a.strictNumber.isNaN <;> rfl
    | false =>
      simp only [Bool.not_false, Bool.true_and, Bool.false_or, Bool.false_eq_true, if_false]
      cases a.strictNumber.isNaN <;> cases b.strictNumber.isNaN <;> rfl

/-- **The other way round a comparison is the reverse.** -/
theorem compare_swap (a b : Value) : b.compare a = (a.compare b).swap := by
  rw [compare_eq, compare_eq]
  cases a.number? with
  | none => cases b.number? <;> exact compareTexts_swap _ _
  | some x =>
    cases b.number? with
    | none => exact compareTexts_swap _ _
    | some y => exact compareNumbers_swap x y

theorem compare_self (a : Value) : a.compare a = .eq := by
  rw [compare_eq]
  cases a.number? with
  | none => exact compareTexts_self _
  | some x => exact compareNumbers_self x

/-! ### Operators -/

/-- What an operator has to find to be true, if it compares. -/
def sought? : OperatorOp → Option Ordering
  | .less => some .lt
  | .equals => some .eq
  | .greater => some .gt
  | _ => none

section Operators

variable {σ : Type} {ext : Extensions σ} {site : Site} {args : Args} {s : Scene σ}

/-- A comparison operator tells whether it finds the order that it seeks. -/
theorem run_of_sought {op : OperatorOp} {o : Ordering} (h : sought? op = some o) :
    (Primitive.run ext (.operator op) site args s).2 =
      .value (.flag ((args.value "OPERAND1").compare (args.value "OPERAND2") == o)) := by
  cases op <;> cases h <;> rfl

/-- **The comparison operators mirror each other.** For any two values: compared the other way round
the order is the reverse, and a value equals itself. So exactly one of the three operators is true
of them, the first is below the second where the second is above the first, and equality does not
depend on the order. -/
theorem mirrored_of_operands (ext : Extensions σ) (site : Site) (s : Scene σ) (a b : Value)
    (args args' : Args) (ha : args.value "OPERAND1" = a) (hb : args.value "OPERAND2" = b)
    (ha' : args'.value "OPERAND1" = b) (hb' : args'.value "OPERAND2" = a) :
    b.compare a = (a.compare b).swap ∧ a.compare a = .eq ∧
    (∃! op, op ∈ [OperatorOp.less, .equals, .greater] ∧
      (Primitive.run ext (.operator op) site args s).2 = .value (.flag true)) ∧
    (Primitive.run ext (.operator .less) site args s).2 =
      (Primitive.run ext (.operator .greater) site args' s).2 ∧
    (Primitive.run ext (.operator .equals) site args s).2 =
      (Primitive.run ext (.operator .equals) site args' s).2 := by
  have hmirror := compare_swap a b
  refine ⟨hmirror, compare_self a, ?_, ?_, ?_⟩
  · -- the operator that seeks the order which the two values have
    have hfinds : ∀ op {o}, sought? op = some o →
        ((Primitive.run ext (.operator op) site args s).2 = .value (.flag true) ↔
          a.compare b = o) := fun _ _ h => by
      rw [run_of_sought h, ha, hb, Outcome.value.injEq, Value.flag.injEq, beq_iff_eq]
    have hless := hfinds .less rfl
    have hequals := hfinds .equals rfl
    have hgreater := hfinds .greater rfl
    cases ho : a.compare b <;> rw [ho] at hless hequals hgreater
    · exact ⟨.less, ⟨by simp, hless.2 rfl⟩, by simp_all⟩
    · exact ⟨.equals, ⟨by simp, hequals.2 rfl⟩, by simp_all⟩
    · exact ⟨.greater, ⟨by simp, hgreater.2 rfl⟩, by simp_all⟩
  · rw [run_of_sought rfl, run_of_sought rfl, ha, hb, ha', hb', hmirror]
    cases a.compare b <;> rfl
  · rw [run_of_sought rfl, run_of_sought rfl, ha, hb, ha', hb', hmirror]
    cases a.compare b <;> rfl

end Operators

/-- A blank text on the left and zero on the right. -/
def blankZero : Args := ⟨[("OPERAND1", .text " "), ("OPERAND2", .number 0.0)]⟩

/-- Zero on the left and a blank text on the right. -/
def zeroBlank : Args := ⟨[("OPERAND1", .number 0.0), ("OPERAND2", .text " ")]⟩

/-- A block of an empty program. -/
def emptySite : Site := ⟨.create .standard, .empty, ⟨0, 0⟩, 0⟩

/-- A thread of an empty world. -/
def emptyScene : Scene Unit := ⟨World.blank .standard (), .start 0 0 ⟨0, 0⟩⟩

/-- A blank text reads as zero, but it is not compared as a number: as a text it comes before. -/
theorem mirrored_of_operands_blank :
    (blankZero.value "OPERAND1" = .text " " ∧ blankZero.value "OPERAND2" = .number 0.0) ∧
    (zeroBlank.value "OPERAND1" = .number 0.0 ∧ zeroBlank.value "OPERAND2" = .text " ") ∧
    (Value.text " ").compare (.number 0.0) = .lt ∧ (Value.number 0.0).compare (.text " ") = .gt ∧
    (Primitive.run .empty (.operator .greater) emptySite zeroBlank emptyScene).2 =
      .value (.flag true) := by
  have h := mirrored_of_operands .empty emptySite emptyScene (.text " ") (.number 0.0) blankZero
    zeroBlank rfl rfl rfl rfl
  have hless : (Value.text " ").compare (.number 0.0) = .lt := by decide +kernel
  refine ⟨⟨rfl, rfl⟩, ⟨rfl, rfl⟩, hless, ?_, ?_⟩
  · rw [h.1, hless]
    rfl
  · rw [← h.2.2.2.1]
    decide +kernel

end Value

end Stagecraft
