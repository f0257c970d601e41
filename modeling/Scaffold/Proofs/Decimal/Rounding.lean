import Scaffold.Decimal.Shortest
import Mathlib.Algebra.Order.Field.Power
import Mathlib.Algebra.Order.Field.Rat
import Mathlib.Tactic.FieldSimp
import Mathlib.Tactic.Linarith
import Mathlib.Tactic.Positivity
import Mathlib.Tactic.Ring
import Mathlib.Tactic.NormNum

/-!
# Rounding to binary floating point

Every rational number between the ends of a binary number's interval is rounded to that number. The
main statement is `Decimal.Binary64.ofRatio_of_within`; what rounding gives at all is a mantissa and
an exponent in the one form that each number has, `Decimal.Binary64.isRounded_ofDecimal`.
-/

namespace Scaffold.Decimal
set_option autoImplicit false

theorem ratio_pos {base : Nat} (h : 0 < base) (exponent : Int) :
    0 < (ratio base exponent).1 ∧ 0 < (ratio base exponent).2 :=
  ⟨Nat.pow_pos h, Nat.pow_pos h⟩

/-- Numerator and denominator of a power are those of its value. -/
theorem ratio_value {base : Nat} (h : 0 < base) (exponent : Int) :
    ((ratio base exponent).1 : ℚ) = (base : ℚ) ^ exponent * (ratio base exponent).2 := by
  have positive : (base : ℚ) ≠ 0 := by exact_mod_cast h.ne'
  simp only [ratio, Nat.pow_eq, Nat.cast_pow]
  rw [← zpow_natCast (base : ℚ) exponent.toNat, ← zpow_natCast (base : ℚ) (-exponent).toNat,
    ← zpow_add₀ positive]
  congr 1
  omega

/-- The nearest quotient is the one within a half, of two the even one. -/
theorem roundDiv_eq {num den m : Nat} (positive : 0 < den) (low : 2 * (m * den) ≤ 2 * num + den)
    (high : 2 * num ≤ 2 * (m * den) + den)
    (tie : 2 * (m * den) = 2 * num + den ∨ 2 * num = 2 * (m * den) + den → m % 2 = 0) :
    roundDiv num den = m := by
  have split : den * (num / den) + num % den = num := Nat.div_add_mod num den
  have small : num % den < den := Nat.mod_lt num positive
  have sides : m * den + den ≤ den * (num / den) ∨ m = num / den ∨ m = num / den + 1 ∨
      den * (num / den) + 2 * den ≤ m * den := by
    rcases Nat.lt_trichotomy m (num / den) with less | same | greater
    · have step := Nat.mul_le_mul_right den (show m + 1 ≤ num / den from less)
      rw [Nat.succ_mul, Nat.mul_comm (num / den)] at step
      exact .inl step
    · exact .inr (.inl same)
    · rcases Nat.eq_or_lt_of_le (show num / den + 1 ≤ m from greater) with next | far
      · exact .inr (.inr (.inl next.symm))
      · have step := Nat.mul_le_mul_right den (show num / den + 2 ≤ m from far)
        rw [Nat.add_mul, Nat.mul_comm (num / den)] at step
        exact .inr (.inr (.inr step))
  simp only [roundDiv, Bool.or_eq_true, Bool.and_eq_true, decide_eq_true_eq, beq_iff_eq]
  rcases sides with far | rfl | rfl | far
  · omega
  · have here : num / den * den = den * (num / den) := Nat.mul_comm ..
    rw [if_neg]
    omega
  · have next : (num / den + 1) * den = den * (num / den) + den := by
      rw [Nat.succ_mul, Nat.mul_comm (num / den)]
    rw [if_pos]
    omega
  · omega

theorem roundDiv_bounds (num den : Nat) :
    num / den ≤ roundDiv num den ∧ roundDiv num den ≤ num / den + 1 := by
  simp only [roundDiv]
  split <;> omega

namespace Binary64

/-- A mantissa and an exponent in the one form that each finite number has: a mantissa of all 53
digits, or of fewer with the least exponent. -/
structure IsRounded (mantissa : Nat) (exponent : Int) : Prop where
  lt : mantissa < mantissaEnd
  least : minExponent ≤ exponent
  greatest : exponent ≤ maxExponent
  full : mantissaEnd / 2 ≤ mantissa ∨ exponent = minExponent

theorem IsRounded.succ_le {mantissa : Nat} {exponent : Int} (h : IsRounded mantissa exponent) :
    (mantissa : ℚ) + 1 ≤ 2 ^ 53 := by
  have lt := h.lt
  simp only [mantissaEnd, Nat.pow_eq] at lt
  exact_mod_cast lt

/-- Whether a number has the form that rounding gives. -/
def isRounded : Binary64 → Bool
  | .finite _ mantissa exponent =>
    mantissa < mantissaEnd && minExponent ≤ exponent && exponent ≤ maxExponent &&
      (mantissaEnd / 2 ≤ mantissa || exponent == minExponent)
  | _ => true

theorem isRounded_finite {negative : Bool} {mantissa : Nat} {exponent : Int} :
    (finite negative mantissa exponent).isRounded = true ↔ IsRounded mantissa exponent := by
  simp only [isRounded, Bool.and_eq_true, Bool.or_eq_true, decide_eq_true_eq, beq_iff_eq]
  exact ⟨fun ⟨⟨⟨lt, least⟩, greatest⟩, full⟩ => ⟨lt, least, greatest, full⟩,
    fun h => ⟨⟨⟨h.lt, h.least⟩, h.greatest⟩, h.full⟩⟩

/-- What is left of the rounding once the exponent is known. -/
def atExponent (negative : Bool) (num den : Nat) (exponent : Int) : Binary64 :=
  let rounded := roundDiv (num * (ratio 2 exponent).2) (den * (ratio 2 exponent).1)
  let number :=
    if rounded = mantissaEnd then (mantissaEnd / 2, exponent + 1) else (rounded, exponent)
  if number.2 > maxExponent then .infinite negative else .finite negative number.1 number.2

/-- The exponent at which a rational number is rounded: the least one at which it has no more than
53 digits before the point. -/
structure IsExponentOf (exponent : Int) (x : ℚ) : Prop where
  least : minExponent ≤ exponent
  below : x < 2 ^ 53 * 2 ^ exponent
  full : exponent = minExponent ∨ 2 ^ 52 * 2 ^ exponent ≤ x

theorem two_zpow_succ (exponent : Int) : (2 : ℚ) ^ (exponent + 1) = 2 * 2 ^ exponent := by
  rw [zpow_add_one₀ (by norm_num), mul_comm]

/-- The quotient at an exponent, as a rational number. -/
theorem quotient_value {num den : Nat} (positive : 0 < den) (exponent : Int) :
    ((num * (ratio 2 exponent).2 : Nat) : ℚ) / (den * (ratio 2 exponent).1 : Nat) =
      num / den / 2 ^ exponent := by
  have up := ratio_value (show 0 < 2 by decide) exponent
  have down : ((ratio 2 exponent).2 : ℚ) ≠ 0 := by
    exact_mod_cast (ratio_pos (by decide) exponent).2.ne'
  have den' : (den : ℚ) ≠ 0 := by exact_mod_cast positive.ne'
  push_cast at up ⊢
  rw [up]
  field_simp

theorem log2_bounds {n : Nat} (positive : 0 < n) :
    (2 : ℚ) ^ (Nat.log2 n : Int) ≤ n ∧ (n : ℚ) < 2 ^ ((Nat.log2 n : Int) + 1) := by
  constructor
  · exact_mod_cast Nat.log2_self_le positive.ne'
  · exact_mod_cast (Nat.lt_log2_self : n < 2 ^ (n.log2 + 1))

/-- Rounding settles on the exponent and rounds the quotient. -/
theorem ofRatio_eq (negative : Bool) {num den : Nat} (pos : 0 < num) (positive : 0 < den) :
    ∃ exponent, IsExponentOf exponent (num / den : ℚ) ∧
    ofRatio negative num den = atExponent negative num den exponent := by
  obtain ⟨numLow, numHigh⟩ := log2_bounds pos
  obtain ⟨denLow, denHigh⟩ := log2_bounds positive
  have den' : (0 : ℚ) < den := by exact_mod_cast positive
  obtain ⟨rough, isRough⟩ :
    ∃ rough, rough = max ((Nat.log2 num : Int) - Nat.log2 den - 53) minExponent := ⟨_, rfl⟩
  have least : minExponent ≤ rough := by omega
  -- the quotient of the powers of two around numerator and denominator
  have above : (num : ℚ) / den < 2 ^ 53 * 2 ^ (rough + 1) := by
    rw [div_lt_iff₀ den']
    calc (num : ℚ) < 2 ^ ((Nat.log2 num : Int) + 1) := numHigh
      _ ≤ 2 ^ (53 + (rough + 1) + (Nat.log2 den : Int)) :=
        zpow_le_zpow_right₀ (by norm_num) (by omega)
      _ = 2 ^ 53 * 2 ^ (rough + 1) * 2 ^ (Nat.log2 den : Int) := by
        rw [zpow_add₀ (by norm_num), zpow_add₀ (by norm_num)]
        norm_cast
      _ ≤ 2 ^ 53 * 2 ^ (rough + 1) * den := by gcongr
  have lower : rough = minExponent ∨ (2 : ℚ) ^ 52 * 2 ^ rough ≤ num / den := by
    rcases Int.lt_or_le minExponent rough with more | less
    · right
      rw [le_div_iff₀ den']
      calc (2 : ℚ) ^ 52 * 2 ^ rough * den ≤
        2 ^ 52 * 2 ^ rough * 2 ^ ((Nat.log2 den : Int) + 1) := by gcongr
        _ = 2 ^ (52 + rough + ((Nat.log2 den : Int) + 1)) := by
          rw [zpow_add₀ (by norm_num) (52 + rough), zpow_add₀ (by norm_num) 52]
          norm_cast
        _ = 2 ^ (Nat.log2 num : Int) := by
          congr 1
          omega
        _ ≤ num := numLow
    · exact .inl (by omega)
  have fits : num * (ratio 2 rough).2 < mantissaEnd * den * (ratio 2 rough).1 ↔
      (num : ℚ) / den < 2 ^ 53 * 2 ^ rough := by
    have up := ratio_value (show 0 < 2 by decide) rough
    have down : (0 : ℚ) < (ratio 2 rough).2 := by exact_mod_cast (ratio_pos (by decide) rough).2
    have limit : (mantissaEnd : ℚ) = 2 ^ 53 := by norm_num [mantissaEnd]
    rw [← @Nat.cast_lt ℚ, div_lt_iff₀ den']
    push_cast at up ⊢
    rw [up, limit, show (2 : ℚ) ^ 53 * den * (2 ^ rough * (ratio 2 rough).2) =
      2 ^ 53 * 2 ^ rough * den * (ratio 2 rough).2 by ring]
    exact mul_lt_mul_iff_left₀ down
  by_cases h : num * (ratio 2 rough).2 < mantissaEnd * den * (ratio 2 rough).1
  · refine ⟨rough, ⟨least, fits.1 h, lower⟩, ?_⟩
    simp only [ofRatio, ← isRough, h, decide_true, if_true, atExponent]
  · refine ⟨rough + 1, ⟨by omega, above, .inr ?_⟩, ?_⟩
    · rw [two_zpow_succ, show (2 : ℚ) ^ 52 * (2 * 2 ^ rough) = 2 ^ 53 * 2 ^ rough by ring]
      exact not_lt.1 (mt fits.2 h)
    · simp only [ofRatio, ← isRough, h, decide_false, Bool.false_eq_true, if_false, atExponent]

/-- The quotient at an exponent is rounded to what lies within a half of it. -/
theorem roundDiv_of_quotient {num den m : Nat} {exponent : Int} (positive : 0 < den)
    (low : (m : ℚ) - 1 / 2 ≤ num / den / 2 ^ exponent)
    (high : (num : ℚ) / den / 2 ^ exponent ≤ m + 1 / 2)
    (tie : (num : ℚ) / den / 2 ^ exponent = m - 1 / 2 ∨
      (num : ℚ) / den / 2 ^ exponent = m + 1 / 2 → m % 2 = 0) :
    roundDiv (num * (ratio 2 exponent).2) (den * (ratio 2 exponent).1) = m := by
  rw [← quotient_value positive] at low high tie
  have pos : 0 < den * (ratio 2 exponent).1 :=
    Nat.mul_pos positive (ratio_pos (by decide) exponent).1
  generalize num * (ratio 2 exponent).2 = above at low high tie ⊢
  generalize den * (ratio 2 exponent).1 = below at low high tie pos ⊢
  have pos' : (0 : ℚ) < below := by exact_mod_cast pos
  rw [le_div_iff₀ pos'] at low
  rw [div_le_iff₀ pos'] at high
  rw [div_eq_iff pos'.ne', div_eq_iff pos'.ne'] at tie
  refine roundDiv_eq pos ?_ ?_ ?_
  · have cast : (2 : ℚ) * (m * below) ≤ 2 * above + below := by linarith only [low]
    exact_mod_cast cast
  · have cast : (2 : ℚ) * above ≤ 2 * (m * below) + below := by linarith only [high]
    exact_mod_cast cast
  · rintro (eq | eq)
    · have cast : (2 : ℚ) * (m * below) = 2 * above + below := by exact_mod_cast eq
      exact tie (.inl (by linarith only [cast]))
    · have cast : (2 : ℚ) * above = 2 * (m * below) + below := by exact_mod_cast eq
      exact tie (.inr (by linarith only [cast]))

/-- There is one exponent at which a number is rounded. -/
theorem IsExponentOf.eq {a b : Int} {x : ℚ} (ha : IsExponentOf a x)
    (hb : IsExponentOf b x) : a = b := by
  have apart : ∀ {a b : Int}, IsExponentOf a x → IsExponentOf b x → ¬ a < b := by
    intro a b ha hb less
    have full := hb.full.resolve_left (by have least := ha.least; omega)
    have step : (2 : ℚ) ^ (a + 1) ≤ 2 ^ b := zpow_le_zpow_right₀ (by norm_num) less
    rw [two_zpow_succ] at step
    have below := ha.below
    linarith
  have less := apart ha hb
  have more := apart hb ha
  omega

/-- The rational numbers that round to a mantissa and an exponent; the ends count where the mantissa
is even. -/
def Within (mantissa : Nat) (exponent : Int) (x : ℚ) : Prop :=
  let low := ((roundingEnds mantissa exponent).1 : ℚ) * 2 ^ (exponent - 2)
  let high := ((roundingEnds mantissa exponent).2 : ℚ) * 2 ^ (exponent - 2)
  if mantissa % 2 = 0 then low ≤ x ∧ x ≤ high else low < x ∧ x < high

/-- A number lies within a half of the unit of the mantissa, and the ends count for even mantissas
only. -/
theorem Within.half {mantissa : Nat} {exponent : Int} {x : ℚ} (positive : 0 < mantissa)
    (h : Within mantissa exponent x) :
    (mantissa : ℚ) - 1 / 2 ≤ x / 2 ^ exponent ∧ x / 2 ^ exponent ≤ mantissa + 1 / 2 ∧
      (x / 2 ^ exponent = mantissa - 1 / 2 ∨ x / 2 ^ exponent = mantissa + 1 / 2 →
        mantissa % 2 = 0) := by
  have unit : (0 : ℚ) < 2 ^ exponent := by positivity
  have quarter : (2 : ℚ) ^ (exponent - 2) = 2 ^ exponent / 4 := by
    rw [zpow_sub₀ (by norm_num)]; norm_num
  have low : (mantissa : ℚ) - 1 / 2 ≤ ((roundingEnds mantissa exponent).1 : ℚ) / 4 := by
    have nat : 4 * mantissa ≤ (roundingEnds mantissa exponent).1 + 2 := by
      simp only [roundingEnds]; split <;> omega
    have cast : (4 : ℚ) * mantissa ≤ (roundingEnds mantissa exponent).1 + 2 := by exact_mod_cast nat
    linarith
  have high : ((roundingEnds mantissa exponent).2 : ℚ) / 4 = mantissa + 1 / 2 := by
    simp only [roundingEnds]
    push_cast
    ring
  simp only [Within, quarter] at h
  rw [le_div_iff₀ unit, div_le_iff₀ unit, div_eq_iff unit.ne', div_eq_iff unit.ne']
  -- the ends of the interval, against the unit of the mantissa
  have lowEnd : ((mantissa : ℚ) - 1 / 2) * 2 ^ exponent ≤
      (roundingEnds mantissa exponent).1 * (2 ^ exponent / 4) := by
    rw [mul_div_left_comm, mul_comm]
    exact mul_le_mul_of_nonneg_left low unit.le
  have highEnd : ((roundingEnds mantissa exponent).2 : ℚ) * (2 ^ exponent / 4) =
      (mantissa + 1 / 2) * 2 ^ exponent := by
    rw [mul_div_left_comm, high, mul_comm]
  split at h
  · rename_i even
    exact ⟨lowEnd.trans h.1, h.2.trans_eq highEnd, fun _ => even⟩
  · have less := lowEnd.trans_lt h.1
    have more := h.2.trans_eq highEnd
    exact ⟨less.le, more.le, fun atEnd => (atEnd.elim less.ne' more.ne).elim⟩

/-- Below a power of two numbers lie closer together. -/
theorem Within.quarter {exponent : Int} {x : ℚ} (more : minExponent < exponent)
    (h : Within (mantissaEnd / 2) exponent x) : (2 : ℚ) ^ 52 - 1 / 4 ≤ x / 2 ^ exponent := by
  have unit : (0 : ℚ) < 2 ^ exponent := by positivity
  have quarter : (2 : ℚ) ^ (exponent - 2) = 2 ^ exponent / 4 := by
    rw [zpow_sub₀ (by norm_num)]; norm_num
  have low : (roundingEnds (mantissaEnd / 2) exponent).1 = 2 ^ 54 - 1 := by
    simp only [roundingEnds, decide_true, Bool.true_and, gt_iff_lt, more, if_true, mantissaEnd]
    norm_num
  have even : mantissaEnd / 2 % 2 = 0 := by norm_num [mantissaEnd]
  simp only [Within, even, if_true, quarter, low] at h
  rw [le_div_iff₀ unit]
  have below := h.1
  push_cast at below
  linarith only [below]

/-- A number in the interval of a mantissa and an exponent is rounded to them. -/
theorem ofRatio_of_within (negative : Bool) {num den mantissa : Nat} {exponent : Int}
    (rounded : IsRounded mantissa exponent) (pos : 0 < mantissa) (positive : 0 < den)
    (within : Within mantissa exponent (num / den : ℚ)) :
    ofRatio negative num den = .finite negative mantissa exponent := by
  have unit : (0 : ℚ) < 2 ^ exponent := by positivity
  obtain ⟨low, high, tie⟩ := within.half pos
  have limit := rounded.succ_le
  have one : (1 : ℚ) ≤ mantissa := by exact_mod_cast pos
  have numPositive : 0 < num := by
    refine Nat.pos_of_ne_zero fun zero => ?_
    rw [zero, Nat.cast_zero, zero_div, zero_div] at low
    linarith only [low, one]
  obtain ⟨at', isExponent, eq⟩ := ofRatio_eq negative numPositive positive
  generalize x_eq : (num : ℚ) / den = x at low high tie isExponent within
  have below : x < 2 ^ 53 * 2 ^ exponent := by
    rw [← div_lt_iff₀ unit]
    linarith only [high, limit]
  by_cases full : exponent = minExponent ∨ (2 : ℚ) ^ 52 ≤ x / 2 ^ exponent
  · -- the number is rounded at its own exponent
    obtain rfl : at' = exponent := by
      refine isExponent.eq ⟨rounded.least, below, full.imp_right fun more => ?_⟩
      rwa [le_div_iff₀ unit] at more
    have nearest : roundDiv (num * (ratio 2 at').2) (den * (ratio 2 at').1) = mantissa := by
      apply roundDiv_of_quotient positive <;> rw [x_eq] <;> assumption
    have greatest := rounded.greatest
    rw [eq, atExponent]
    simp only [nearest, if_neg rounded.lt.ne]
    rw [if_neg (by omega)]
  · -- the number lies below a power of two: it is rounded up to it at the exponent before
    rw [not_or, not_le] at full
    obtain ⟨apart, less⟩ := full
    have least := rounded.least
    have smallest : mantissaEnd / 2 ≤ mantissa := rounded.full.resolve_right apart
    obtain rfl : mantissa = mantissaEnd / 2 := by
      refine le_antisymm ?_ smallest
      have nat : (mantissa : ℚ) < 2 ^ 52 + 1 := by linarith only [low, less]
      have nat : mantissa < 2 ^ 52 + 1 := by exact_mod_cast nat
      simp only [mantissaEnd, Nat.pow_eq]
      omega
    have quarter := within.quarter (by omega)
    have half : (2 : ℚ) ^ exponent = 2 * 2 ^ (exponent - 1) := by
      rw [← two_zpow_succ, sub_add_cancel]
    have unit' : (0 : ℚ) < 2 ^ (exponent - 1) := by positivity
    have double : x / 2 ^ (exponent - 1) = 2 * (x / 2 ^ exponent) := by
      rw [half]
      field_simp
    obtain rfl : at' = exponent - 1 := by
      refine isExponent.eq ⟨by omega, ?_, .inr ?_⟩
      · rw [← div_lt_iff₀ unit', double]
        linarith only [less]
      · rw [← le_div_iff₀ unit', double]
        linarith only [quarter]
    have nearest : roundDiv (num * (ratio 2 (exponent - 1)).2) (den * (ratio 2 (exponent - 1)).1) =
        mantissaEnd := by
      have cast : (mantissaEnd : ℚ) = 2 ^ 53 := by norm_num [mantissaEnd]
      apply roundDiv_of_quotient positive <;> rw [x_eq, double, cast]
      · linarith only [quarter]
      · linarith only [less]
      · exact fun _ => by norm_num [mantissaEnd]
    have greatest := rounded.greatest
    rw [eq, atExponent]
    simp only [nearest, if_true, sub_add_cancel]
    rw [if_neg (by omega)]

/-- What rounding gives has the one form of its number. -/
theorem isRounded_ofRatio (negative : Bool) {num den : Nat} (pos : 0 < num) (positive : 0 < den) :
    (ofRatio negative num den).isRounded = true := by
  obtain ⟨exponent, isExponent, eq⟩ := ofRatio_eq negative pos positive
  have below := isExponent.below
  have full := isExponent.full
  have unit : (0 : ℚ) < 2 ^ exponent := by positivity
  rw [← div_lt_iff₀ unit, ← quotient_value positive] at below
  rw [← le_div_iff₀ unit, ← quotient_value positive] at full
  have below' : 0 < den * (ratio 2 exponent).1 :=
    Nat.mul_pos positive (ratio_pos (by decide) exponent).1
  have cast : (0 : ℚ) < (den * (ratio 2 exponent).1 : Nat) := by exact_mod_cast below'
  rw [div_lt_iff₀ cast] at below
  rw [le_div_iff₀ cast] at full
  obtain ⟨low, high⟩ := roundDiv_bounds (num * (ratio 2 exponent).2) (den * (ratio 2 exponent).1)
  have small : num * (ratio 2 exponent).2 / (den * (ratio 2 exponent).1) < 2 ^ 53 := by
    rw [Nat.div_lt_iff_lt_mul below']
    exact_mod_cast below
  have large : exponent = minExponent ∨
      2 ^ 52 ≤ num * (ratio 2 exponent).2 / (den * (ratio 2 exponent).1) := by
    refine full.imp_right fun full => ?_
    rw [Nat.le_div_iff_mul_le below']
    exact_mod_cast full
  have least := isExponent.least
  rw [eq, atExponent]
  generalize roundDiv _ _ = nearest at low high ⊢
  generalize num * (ratio 2 exponent).2 / _ = floor at low high small large
  by_cases top : nearest = mantissaEnd
  · rw [if_pos top]
    dsimp only
    split
    · rfl
    · exact isRounded_finite.2 ⟨by norm_num [mantissaEnd], by omega, by omega, .inl le_rfl⟩
  · rw [if_neg top]
    dsimp only
    split
    · rfl
    · simp only [mantissaEnd, Nat.pow_eq] at top
      refine isRounded_finite.2 ⟨?_, least, by omega, ?_⟩
      · simp only [mantissaEnd, Nat.pow_eq]
        omega
      · simp only [mantissaEnd, Nat.pow_eq]
        omega

theorem isRounded_ofDecimal (negative : Bool) (digits : Nat) (power : Int) :
    (ofDecimal negative digits power).isRounded = true := by
  simp only [ofDecimal]
  split
  · rfl
  · rename_i pos
    split
    · rfl
    · have pos : 0 < digits := by
        refine Nat.pos_of_ne_zero fun zero => ?_
        simp [zero] at pos
      obtain ⟨up, down⟩ := ratio_pos (show 0 < 10 by decide) power
      exact isRounded_ofRatio negative (Nat.mul_pos pos up) down

end Binary64
end Scaffold.Decimal
