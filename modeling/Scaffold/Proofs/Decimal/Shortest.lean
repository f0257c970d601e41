import Scaffold.Proofs.Decimal.Rounding
import Mathlib.Algebra.Order.Floor.Semifield

/-!
# Shortest decimals

The shortest decimal of a number rounds to that number, `Decimal.within_shortest`: every decimal
that is taken lies in the number's interval, and with seventeen digits there is one. Hence any text
of that decimal is read as the number, `Decimal.Binary64.ofDecimal_of_within`.
-/

namespace Scaffold.Decimal
set_option autoImplicit false

open Binary64

/-- The value of a decimal. -/
def Scientific.value (d : Scientific) : ℚ := d.digits * 10 ^ d.power

/-- The test whether a decimal lies in the interval of a number, on whole numbers. -/
theorem rounds_iff (mantissa : Nat) (exponent : Int) (digits : Nat) (power : Int) :
    (if mantissa % 2 = 0 then
        decide ((roundingEnds mantissa exponent).1 * (ratio 2
          (exponent - 2)).1 * (ratio 10 power).2 ≤
          digits * (ratio 10 power).1 * (ratio 2 (exponent - 2)).2) &&
        decide (digits * (ratio 10 power).1 * (ratio 2 (exponent - 2)).2 ≤
          (roundingEnds mantissa exponent).2 * (ratio 2 (exponent - 2)).1 * (ratio 10 power).2)
      else
        decide ((roundingEnds mantissa exponent).1 * (ratio 2
          (exponent - 2)).1 * (ratio 10 power).2 <
          digits * (ratio 10 power).1 * (ratio 2 (exponent - 2)).2) &&
        decide (digits * (ratio 10 power).1 * (ratio 2 (exponent - 2)).2 <
          (roundingEnds mantissa exponent).2 * (ratio 2 (exponent - 2)).1 * (ratio 10 power).2)) =
            true ↔
      Within mantissa exponent (digits * 10 ^ power) := by
  obtain ⟨-, down⟩ := ratio_pos (show 0 < 2 by decide) (exponent - 2)
  obtain ⟨-, parts⟩ := ratio_pos (show 0 < 10 by decide) power
  have scale : (0 : ℚ) < (ratio 2 (exponent - 2)).2 * (ratio 10 power).2 := by
    exact_mod_cast Nat.mul_pos down parts
  have twos := ratio_value (show 0 < 2 by decide) (exponent - 2)
  have tens := ratio_value (show 0 < 10 by decide) power
  -- both sides of each comparison are the compared values, times the product of the denominators
  have edge (limit : Nat) : ((limit * (ratio 2 (exponent - 2)).1 * (ratio 10 power).2 : Nat) : ℚ) =
      limit * 2 ^ (exponent - 2) * ((ratio 2 (exponent - 2)).2 * (ratio 10 power).2) := by
    push_cast at twos ⊢
    rw [twos]
    ring
  have point : ((digits * (ratio 10 power).1 * (ratio 2 (exponent - 2)).2 : Nat) : ℚ) =
      digits * 10 ^ power * ((ratio 2 (exponent - 2)).2 * (ratio 10 power).2) := by
    push_cast at tens ⊢
    rw [tens]
    ring
  simp only [Within]
  split
  · rw [Bool.and_eq_true, decide_eq_true_eq, decide_eq_true_eq, ← @Nat.cast_le ℚ,
      ← @Nat.cast_le ℚ, edge, edge, point, mul_le_mul_iff_left₀ scale, mul_le_mul_iff_left₀ scale]
  · rw [Bool.and_eq_true, decide_eq_true_eq, decide_eq_true_eq, ← @Nat.cast_lt ℚ,
      ← @Nat.cast_lt ℚ, edge, edge, point, mul_lt_mul_iff_left₀ scale, mul_lt_mul_iff_left₀ scale]

/-- The power of ten of the grid of `n` digits, and the last point of the grid that is not above the
number. -/
def gridPower (mantissa : Nat) (exponent : Int) (n : Nat) : Int :=
  magnitude (4 * mantissa * (ratio 2 (exponent - 2)).1) (ratio 2 (exponent - 2)).2 - n

def gridFloor (mantissa : Nat) (exponent : Int) (n : Nat) : Nat :=
  4 * mantissa * (ratio 2 (exponent - 2)).1 * (ratio 10 (gridPower mantissa exponent n)).2 /
    ((ratio 2 (exponent - 2)).2 * (ratio 10 (gridPower mantissa exponent n)).1)

/-- On a grid one of the two neighbours of the number is taken, and one is whenever either lies in
the interval. -/
theorem onGrid?_cases (mantissa : Nat) (exponent : Int) (n : Nat) :
    (∃ digits, (digits = gridFloor mantissa exponent n ∨
      digits = gridFloor mantissa exponent n + 1) ∧
      Within mantissa exponent (digits * 10 ^ gridPower mantissa exponent n) ∧
      onGrid? mantissa exponent n = some ⟨digits, gridPower mantissa exponent n⟩) ∨
    onGrid? mantissa exponent n = none ∧
      ¬ Within mantissa exponent
        (gridFloor mantissa exponent n * 10 ^ gridPower mantissa exponent n) ∧
      ¬ Within mantissa exponent
        ((gridFloor mantissa exponent n + 1 : Nat) * 10 ^ gridPower mantissa exponent n) := by
  have here :=
    rounds_iff mantissa exponent (gridFloor mantissa exponent n) (gridPower mantissa exponent n)
  have next :=
    rounds_iff mantissa exponent (gridFloor mantissa exponent n + 1) (gridPower mantissa exponent n)
  simp only [gridFloor, gridPower] at here next ⊢
  unfold onGrid?
  dsimp only
  split
  · rename_i first second
    split
    · exact .inl ⟨_, .inr rfl, next.1 second, rfl⟩
    · exact .inl ⟨_, .inl rfl, here.1 first, rfl⟩
  · rename_i first _
    exact .inl ⟨_, .inl rfl, here.1 first, rfl⟩
  · rename_i _ second
    exact .inl ⟨_, .inr rfl, next.1 second, rfl⟩
  · rename_i first second
    exact .inr ⟨rfl, fun h => Bool.false_ne_true (first.symm.trans (here.2 h)),
      fun h => Bool.false_ne_true (second.symm.trans (next.2 h))⟩

/-- A positive number lies between the powers of ten that its digits count. -/
theorem pow_length_digits {n : Nat} (positive : 0 < n) :
    10 ^ ((toString n).length - 1) ≤ n ∧ n < 10 ^ (toString n).length := by
  have length : (toString n).length = (Nat.toDigits 10 n).length := by
    rw [Nat.toString_eq_ofList_toDigits, String.length_ofList]
  have pos : 0 < (Nat.toDigits 10 n).length := Nat.length_toDigits_pos
  rw [length]
  constructor
  · rcases Nat.eq_or_lt_of_le (show 1 ≤ (Nat.toDigits 10 n).length from pos) with one | more
    · rw [← one]
      exact positive
    · refine not_lt.1 fun less => ?_
      have few := (Nat.length_toDigits_le_iff (by decide) (by omega)).2 less
      omega
  · exact (Nat.length_toDigits_le_iff (by decide) pos).1 le_rfl

theorem ten_zpow_pred (power : Int) : (10 : ℚ) ^ (power - 1) * 10 = 10 ^ power := by
  rw [← zpow_add_one₀ (by norm_num), sub_add_cancel]

/-- The power of ten below a number less than one. -/
theorem descend_le {den : Nat} : ∀ (fuel num : Nat), num < den → den ≤ 10 ^ fuel * num →
    (10 : ℚ) ^ (magnitude.descend den fuel num - 1) * den ≤ num := by
  intro fuel
  induction fuel with
  | zero => exact fun num less enough => by omega
  | succ fuel ih =>
    intro num less enough
    rw [magnitude.descend]
    split
    · rename_i reached
      have cast : (den : ℚ) ≤ 10 * num := by exact_mod_cast reached
      norm_num
      linarith
    · rename_i notYet
      have step := ih (10 * num) (by omega) (by rw [pow_succ] at enough; linarith)
      have shift := ten_zpow_pred (magnitude.descend den fuel (10 * num) - 1)
      push_cast at step
      rw [← shift] at step
      linarith

/-- The power of ten below a number. -/
theorem magnitude_le {num den : Nat} (positive : 0 < den) (enough : den ≤ 10 ^ 400 * num) :
    (10 : ℚ) ^ (magnitude num den - 1) ≤ num / den := by
  have den' : (0 : ℚ) < den := by exact_mod_cast positive
  rw [le_div_iff₀ den', magnitude]
  split
  · rename_i large
    have whole : 0 < num / den := Nat.div_pos large positive
    obtain ⟨low, -⟩ := pow_length_digits whole
    have length : 0 < (toString (num / den)).length := by
      rw [Nat.toString_eq_ofList_toDigits, String.length_ofList]
      exact Nat.length_toDigits_pos
    have nat : 10 ^ ((toString (num / den)).length - 1) * den ≤ num :=
      (Nat.mul_le_mul_right den low).trans (Nat.div_mul_le_self num den)
    have power : ((toString (num / den)).length : Int) - 1 =
      ((toString (num / den)).length - 1 : Nat) := by omega
    rw [power, zpow_natCast]
    exact_mod_cast nat
  · rename_i small
    exact descend_le 400 num (by omega) enough

/-- The value of a mantissa and an exponent, as the quotient that the grid is laid around. -/
theorem value_eq (mantissa : Nat) (exponent : Int) :
    ((4 * mantissa * (ratio 2 (exponent - 2)).1 : Nat) : ℚ) / (ratio 2 (exponent - 2)).2 =
      mantissa * 2 ^ exponent := by
  have twos := ratio_value (show 0 < 2 by decide) (exponent - 2)
  have down : ((ratio 2 (exponent - 2)).2 : ℚ) ≠ 0 := by
    exact_mod_cast (ratio_pos (by decide) (exponent - 2)).2.ne'
  have quarter : (2 : ℚ) ^ (exponent - 2) = 2 ^ exponent / 4 := by
    rw [zpow_sub₀ (by norm_num)]; norm_num
  push_cast at twos ⊢
  rw [twos, quarter]
  field_simp

/-- The number lies between the two neighbours on a grid. -/
theorem gridFloor_bounds (mantissa : Nat) (exponent : Int) (n : Nat) :
    (gridFloor mantissa exponent n : ℚ) * 10 ^ gridPower mantissa exponent n ≤
      mantissa * 2 ^ exponent ∧ (mantissa : ℚ) * 2 ^ exponent <
        (gridFloor mantissa exponent n + 1) * 10 ^ gridPower mantissa exponent n := by
  obtain ⟨tens, parts⟩ := ratio_pos (show 0 < 10 by decide) (gridPower mantissa exponent n)
  obtain ⟨-, down⟩ := ratio_pos (show 0 < 2 by decide) (exponent - 2)
  have ten := ratio_value (show 0 < 10 by decide) (gridPower mantissa exponent n)
  have parts' : (0 : ℚ) < (ratio 10 (gridPower mantissa exponent n)).2 := by exact_mod_cast parts
  have down' : (0 : ℚ) < (ratio 2 (exponent - 2)).2 := by exact_mod_cast down
  have value := value_eq mantissa exponent
  rw [div_eq_iff down'.ne'] at value
  have low :=
    Nat.div_mul_le_self (4 * mantissa * (ratio 2 (exponent - 2)).1 * (ratio 10
      (gridPower mantissa exponent n)).2)
    ((ratio 2 (exponent - 2)).2 * (ratio 10 (gridPower mantissa exponent n)).1)
  have high :=
    Nat.lt_div_mul_add (a :=
      4 * mantissa * (ratio 2 (exponent - 2)).1 * (ratio 10 (gridPower mantissa exponent n)).2)
    (Nat.mul_pos down tens)
  rw [← gridFloor] at low high
  rw [← @Nat.cast_le ℚ, Nat.cast_mul, Nat.cast_mul (4 * mantissa * _),
    Nat.cast_mul (ratio 2 (exponent - 2)).2, ten, value] at low
  rw [← @Nat.cast_lt ℚ, Nat.cast_add, Nat.cast_mul (gridFloor _ _ _),
    Nat.cast_mul (4 * mantissa * _), Nat.cast_mul (ratio 2 (exponent - 2)).2, ten, value] at high
  have scale := mul_pos down' parts'
  push_cast at low high
  constructor
  · refine le_of_mul_le_mul_right ?_ scale
    linarith
  · refine lt_of_mul_lt_mul_right ?_ scale.le
    linarith

/-- Powers of two at the ends of the range, and powers of ten beyond them. -/
theorem powers_apart : 2 ^ 1074 ≤ 10 ^ 400 ∧ 2 ^ 1075 ≤ 10 ^ 331 ∧ 2 ^ 1024 < 10 ^ 310 := by
  decide +kernel

/-- The grid of seventeen digits is fine: ten to the sixteenth of its steps do not exceed the
number. -/
theorem gridPower_le {mantissa : Nat} {exponent : Int} (pos : 0 < mantissa)
    (least : minExponent ≤ exponent) :
    (10 : ℚ) ^ gridPower mantissa exponent 17 * 10 ^ 16 ≤ mantissa * 2 ^ exponent := by
  have unit : (0 : ℚ) < 2 ^ exponent := by positivity
  have one : (1 : ℚ) ≤ mantissa := by exact_mod_cast pos
  obtain ⟨up, down⟩ := ratio_pos (show 0 < 2 by decide) (exponent - 2)
  have down' : (0 : ℚ) < (ratio 2 (exponent - 2)).2 := by exact_mod_cast down
  have enough :
      (ratio 2 (exponent - 2)).2 ≤ 10 ^ 400 * (4 * mantissa * (ratio 2 (exponent - 2)).1) := by
    have tiny : (1 : ℚ) ≤ 10 ^ 400 * (mantissa * 2 ^ exponent) := by
      have small : (1 : ℚ) ≤ 10 ^ 400 * 2 ^ (-1074 : Int) := by
        rw [zpow_neg, ← div_eq_mul_inv, le_div_iff₀ (by positivity), one_mul]
        exact_mod_cast powers_apart.1
      calc (1 : ℚ) ≤ 10 ^ 400 * 2 ^ (-1074 : Int) := small
        _ ≤ 10 ^ 400 * 2 ^ exponent := by
          gcongr
          · norm_num
          · exact least
        _ ≤ 10 ^ 400 * (mantissa * 2 ^ exponent) := by
          gcongr
          exact le_mul_of_one_le_left unit.le one
    rw [← value_eq, ← mul_div_assoc, le_div_iff₀ down', one_mul] at tiny
    exact_mod_cast tiny
  have below := magnitude_le down enough
  rw [value_eq] at below
  have power :
      magnitude (4 * mantissa * (ratio 2 (exponent - 2)).1) (ratio 2 (exponent - 2)).2 - 1 =
      gridPower mantissa exponent 17 + (16 : Nat) := by
    simp only [gridPower]
    omega
  rwa [power, zpow_add₀ (by norm_num), zpow_natCast] at below

/-- On the grid of seventeen digits a neighbour lies in the interval. -/
theorem exists_onGrid? {mantissa : Nat} {exponent : Int} (pos : 0 < mantissa)
    (rounded : IsRounded mantissa exponent) :
    ∃ d, onGrid? mantissa exponent 17 = Option.some d := by
  rcases onGrid?_cases mantissa exponent 17 with ⟨digits, -, -, eq⟩ | ⟨-, notHere, notNext⟩
  · exact ⟨_, eq⟩
  exfalso
  obtain ⟨low, high⟩ := gridFloor_bounds mantissa exponent 17
  have unit : (0 : ℚ) < 2 ^ exponent := by positivity
  have quarter : (2 : ℚ) ^ (exponent - 2) = 2 ^ exponent / 4 := by
    rw [zpow_sub₀ (by norm_num)]; norm_num
  have fine := gridPower_le pos rounded.least
  have limit := rounded.succ_le
  generalize (10 : ℚ) ^ gridPower mantissa exponent 17 = step at low high fine notHere notNext
  generalize gridFloor mantissa exponent 17 = floor at low high notHere notNext
  push_cast at notNext
  have ends : (roundingEnds mantissa exponent).2 = 4 * mantissa + 2 := rfl
  have start : (roundingEnds mantissa exponent).1 < 4 * mantissa := by
    simp only [roundingEnds]
    split <;> omega
  have startHigh : ((roundingEnds mantissa exponent).1 : ℚ) < 4 * mantissa := by
    exact_mod_cast start
  have inside : ∀ y : ℚ, ((roundingEnds mantissa exponent).1 : ℚ) * (2 ^ exponent / 4) < y →
      y < (mantissa + 1 / 2) * 2 ^ exponent → Within mantissa exponent y := by
    intro y below above
    simp only [Within, quarter, ends]
    have above : y < ((4 * mantissa + 2 : Nat) : ℚ) * (2 ^ exponent / 4) := by
      push_cast
      linarith only [above]
    split
    · exact ⟨below.le, above.le⟩
    · exact ⟨below, above⟩
  have lowUnit :
      ((roundingEnds mantissa exponent).1 : ℚ) * (2 ^ exponent / 4) < mantissa * 2 ^ exponent := by
    have scaled := mul_lt_mul_of_pos_right startHigh unit
    linarith only [scaled]
  have spread : step < 2 ^ exponent := by
    have scaled := mul_le_mul_of_nonneg_right limit unit.le
    linarith only [scaled, fine, unit]
  -- the upper neighbour is not inside: it is at least half a unit away
  have far : (mantissa + 1 / 2) * 2 ^ exponent ≤ ((floor : ℚ) + 1) * step :=
    not_lt.1 fun near => notNext (inside _ (lowUnit.trans high) near)
  -- so the lower one is nearer than half a unit, and the number is no power of two
  refine notHere (inside _ ?_ (low.trans_lt (by linarith only [unit])))
  by_cases power : mantissa = mantissaEnd / 2
  · have value : (mantissa : ℚ) = 2 ^ 52 := by rw [power]; norm_num [mantissaEnd]
    rw [value] at fine far lowUnit
    linarith only [lowUnit, far, fine, unit]
  · have start : (roundingEnds mantissa exponent).1 + 2 = 4 * mantissa := by
      simp only [roundingEnds, power, decide_false, Bool.false_and, Bool.false_eq_true, if_false]
      omega
    have start : ((roundingEnds mantissa exponent).1 : ℚ) + 2 = 4 * mantissa := by
      exact_mod_cast start
    have scaled := congrArg (· * ((2 : ℚ) ^ exponent / 4)) start
    linarith only [scaled, far, spread]

/-- A decimal that rounds to a positive number is not zero. -/
theorem Binary64.Within.pos {mantissa : Nat} {exponent : Int} (positive : 0 < mantissa)
    {digits : Nat} {power : Int} (within : Within mantissa exponent (digits * 10 ^ power)) :
    0 < digits := by
  refine Nat.pos_of_ne_zero fun zero => ?_
  obtain ⟨low, -, -⟩ := within.half positive
  have one : (1 : ℚ) ≤ mantissa := by exact_mod_cast positive
  rw [zero, Nat.cast_zero, zero_mul, zero_div] at low
  linarith

/-- The shortest decimal of a number rounds to it. -/
theorem within_shortest {mantissa : Nat} {exponent : Int} (pos : 0 < mantissa)
    (rounded : IsRounded mantissa exponent) :
    Within mantissa exponent (shortest mantissa exponent).value := by
  obtain ⟨d, last⟩ := exists_onGrid? pos rounded
  have found : ((List.range 17).findSome? fun n => onGrid? mantissa exponent (n + 1)) ≠ none := by
    intro empty
    have absent := List.findSome?_eq_none_iff.1 empty 16 (by decide)
    rw [last] at absent
    cases absent
  obtain ⟨d, eq⟩ := Option.ne_none_iff_exists'.1 found
  obtain ⟨n, -, taken⟩ := List.exists_of_findSome?_eq_some eq
  rw [shortest, eq, Option.getD_some, Scientific.value]
  rcases onGrid?_cases mantissa exponent (n + 1) with ⟨digits, -, within, eq⟩ | ⟨empty, -, -⟩
  · obtain rfl := Option.some.inj (taken.symm.trans eq)
    exact within
  · cases (taken.symm.trans empty)


namespace Binary64

/-- The interval of a positive number stays away from zero. -/
theorem Within.tiny_le {mantissa : Nat} {exponent : Int} (pos : 0 < mantissa)
    (rounded : IsRounded mantissa exponent) {x : ℚ} (within : Within mantissa exponent x) :
    (2 : ℚ) ^ (-1075 : Int) ≤ x := by
  have unit : (0 : ℚ) < 2 ^ exponent := by positivity
  have one : (1 : ℚ) ≤ mantissa := by exact_mod_cast pos
  obtain ⟨low, -, -⟩ := within.half pos
  rw [le_div_iff₀ unit] at low
  calc (2 : ℚ) ^ (-1075 : Int) = 1 / 2 * 2 ^ (-1074 : Int) := by
        rw [show (-1074 : Int) = -1075 + 1 by rfl, two_zpow_succ]
        ring
    _ ≤ 1 / 2 * 2 ^ exponent := by
        gcongr
        · norm_num
        · exact rounded.least
    _ ≤ (mantissa - 1 / 2) * 2 ^ exponent := by
        gcongr
        linarith only [one]
    _ ≤ x := low

/-- The interval of a number ends below the least power of two that is out of range. -/
theorem Within.le_huge {mantissa : Nat} {exponent : Int} (pos : 0 < mantissa)
    (rounded : IsRounded mantissa exponent) {x : ℚ} (within : Within mantissa exponent x) :
    x ≤ 2 ^ (1024 : Int) := by
  have unit : (0 : ℚ) < 2 ^ exponent := by positivity
  obtain ⟨-, high, -⟩ := within.half pos
  rw [div_le_iff₀ unit] at high
  have limit := rounded.succ_le
  calc x ≤ (mantissa + 1 / 2) * 2 ^ exponent := high
    _ ≤ 2 ^ 53 * 2 ^ exponent := by
        gcongr
        linarith only [limit]
    _ ≤ 2 ^ 53 * 2 ^ (971 : Int) := by
        gcongr
        · norm_num
        · exact rounded.greatest
    _ = 2 ^ (1024 : Int) := by
        rw [show (1024 : Int) = (53 : Nat) + 971 by rfl, zpow_add₀ (by norm_num), zpow_natCast]

/-- A decimal in the interval of a number is read as that number: it is not out of range. -/
theorem ofDecimal_of_within (negative : Bool) {mantissa : Nat} {exponent : Int}
    (filled : 0 < mantissa) (rounded : IsRounded mantissa exponent) {digits : Nat} {power : Int}
    (within : Within mantissa exponent (digits * 10 ^ power)) :
    ofDecimal negative digits power = .finite negative mantissa exponent := by
  have ten : (0 : ℚ) < 10 ^ power := by positivity
  have positive : 0 < digits := within.pos filled
  obtain ⟨least, greatest⟩ := pow_length_digits positive
  obtain ⟨top, isTop⟩ : ∃ top, top = power + (toString digits).length := ⟨_, rfl⟩
  have notTiny : ¬ top < -330 := by
    intro tiny
    have below : (digits : ℚ) * 10 ^ power < 10 ^ (-331 : Int) := by
      calc (digits : ℚ) * 10 ^ power < 10 ^ (toString digits).length * 10 ^ power := by
            gcongr
            exact_mod_cast greatest
        _ = 10 ^ top := by rw [isTop, add_comm, zpow_add₀ (by norm_num), zpow_natCast]
        _ ≤ 10 ^ (-331 : Int) := zpow_le_zpow_right₀ (by norm_num) (by omega)
    have order : (10 : ℚ) ^ (-331 : Int) ≤ 2 ^ (-1075 : Int) := by
      rw [zpow_neg, zpow_neg]
      refine inv_anti₀ (by positivity) ?_
      exact_mod_cast powers_apart.2.1
    exact (below.trans_le order).not_ge (within.tiny_le filled rounded)
  have notHuge : ¬ top > 310 := by
    intro huge
    have above : (10 : ℚ) ^ (310 : Int) ≤ digits * 10 ^ power := by
      calc (10 : ℚ) ^ (310 : Int) ≤ 10 ^ (((toString digits).length - 1 : Nat) + power) :=
            zpow_le_zpow_right₀ (by norm_num) (by omega)
        _ = 10 ^ ((toString digits).length - 1) * 10 ^ power := by
          rw [zpow_add₀ (by norm_num), zpow_natCast]
        _ ≤ digits * 10 ^ power := by
            gcongr
            exact_mod_cast least
    have order : (2 : ℚ) ^ (1024 : Int) < 10 ^ (310 : Int) := by exact_mod_cast powers_apart.2.2
    exact order.not_ge (above.trans (within.le_huge filled rounded))
  obtain ⟨up, down⟩ := ratio_pos (show 0 < 10 by decide) power
  have quotient :
      ((digits * (ratio 10 power).1 : Nat) : ℚ) / (ratio 10 power).2 = digits * 10 ^ power := by
    have value := ratio_value (show 0 < 10 by decide) power
    have down' : ((ratio 10 power).2 : ℚ) ≠ 0 := by exact_mod_cast down.ne'
    push_cast at value ⊢
    rw [value, ← mul_assoc, mul_div_assoc, div_self down', mul_one]
  simp only [ofDecimal, ← isTop, positive.ne', notTiny, notHuge, decide_false, Bool.or_self,
    Bool.false_eq_true, if_false]
  exact ofRatio_of_within negative rounded filled down (quotient ▸ within)

end Binary64
end Scaffold.Decimal
