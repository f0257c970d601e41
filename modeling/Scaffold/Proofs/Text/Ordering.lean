import Mathlib.Algebra.GroupWithZero.Nat
import Mathlib.Data.List.Forall2
import Mathlib.Data.String.Basic
import Scaffold.Text

/-!
# The order of texts with numbers in them

Numbers that are filled up with zeros to one width stand in the order of their texts
(`Text.digits_lt`). So do lists of numbers, compared number by number, in texts in which each has
its width and its separator: `Text.spelled_lt`. What stands behind texts of one length does not
change their order.
-/

namespace Scaffold
set_option autoImplicit false

namespace Chars

variable {front back : List Char}

theorem append_lt_append_left (common : List Char) :
    common ++ front < common ++ back ↔ front < back := by
  induction common with
  | nil => rfl
  | cons c common ih => rw [List.cons_append, List.cons_append, List.cons_lt_cons_self, ih]

/-- Of texts with one length the order is settled before what stands behind them. -/
theorem append_lt_append (length : front.length = back.length) (lt : front < back)
    (rest others : List Char) : front ++ rest < back ++ others := by
  induction front generalizing back with
  | nil =>
    obtain rfl := List.length_eq_zero_iff.1 length.symm
    exact absurd lt (List.lt_irrefl [])
  | cons c front ih =>
    cases back with
    | nil => cases length
    | cons d back =>
      rw [List.cons_append, List.cons_append, List.cons_lt_cons_iff]
      rcases List.cons_lt_cons_iff.1 lt with first | ⟨rfl, later⟩
      · exact .inl first
      · exact .inr ⟨rfl, ih (by simpa using length) later⟩

/-- The last `width` digits of a number. -/
def lastDigits : Nat → Nat → List Char
  | 0, _ => []
  | width + 1, n => lastDigits width (n / 10) ++ [Nat.digitChar (n % 10)]

@[simp]
theorem length_lastDigits (width n : Nat) : (lastDigits width n).length = width := by
  induction width generalizing n with
  | zero => rfl
  | succ width ih => simp [lastDigits, ih]

theorem lastDigits_zero (width : Nat) : lastDigits width 0 = List.replicate width '0' := by
  induction width with
  | zero => rfl
  | succ width ih => simp [lastDigits, ih, List.replicate_succ', Nat.digitChar]

theorem digitChar_lt {a b : Nat} (lt : a < b) (small : b < 10) :
    Nat.digitChar a < Nat.digitChar b := by
  have all : ∀ b < 10, ∀ a < b, Nat.digitChar a < Nat.digitChar b := by decide
  exact all b small a lt

theorem lastDigits_lt {width a b : Nat} (lt : a < b) (small : b < 10 ^ width) :
    lastDigits width a < lastDigits width b := by
  induction width generalizing a b with
  | zero => omega
  | succ width ih =>
    rw [lastDigits, lastDigits]
    by_cases same : a / 10 = b / 10
    · rw [same, append_lt_append_left, List.cons_lt_cons_iff]
      exact .inl (digitChar_lt (by omega) (by omega))
    · exact append_lt_append (by simp) (ih (by omega) (by rw [Nat.pow_succ] at small; omega)) _ _

/-- A number with no more than so many digits is written with zeros in front. -/
theorem lastDigits_eq {width n : Nat} (pos : 0 < width) (small : n < 10 ^ width) :
    lastDigits width n = List.replicate (width - (Nat.toDigits 10 n).length) '0' ++
      Nat.toDigits 10 n := by
  induction width generalizing n with
  | zero => cases pos
  | succ width ih =>
    by_cases one : n < 10
    · rw [Nat.toDigits_of_lt_base one, lastDigits, Nat.div_eq_of_lt one, Nat.mod_eq_of_lt one,
        lastDigits_zero]
      rfl
    · have more : 0 < width := Nat.pos_of_ne_zero fun absent => one (by simpa [absent] using small)
      have digits := ih more (n := n / 10) (by rw [Nat.pow_succ] at small; omega)
      rw [Nat.toDigits_of_base_le (by decide) (Nat.not_lt.1 one), lastDigits, digits,
        List.length_append, List.length_singleton, Nat.add_sub_add_right, List.append_assoc]

end Chars

namespace Text

theorem lt_iff_toList {front back : String} : front < back ↔ front.toList < back.toList :=
  String.lt_iff_toList_lt

theorem append_lt_append_left (common : String) {front back : String} :
    common ++ front < common ++ back ↔ front < back := by
  rw [lt_iff_toList, lt_iff_toList, String.toList_append, String.toList_append,
    Chars.append_lt_append_left]

theorem toList_digits {width n : Nat} (pos : 0 < width) (small : n < 10 ^ width) :
    (digits width n).toList = Chars.lastDigits width n := by
  have number : (toString n).toList = Nat.toDigits 10 n := by
    rw [Nat.toString_eq_ofList_toDigits, String.toList_ofList]
  rw [Chars.lastDigits_eq pos small, digits, padLeft, repeated, String.toList_append,
    String.toList_ofList, number, ← String.length_toList, number]

/-- A number that has as many digits anyway needs no zeros. -/
theorem toList_toString {width n : Nat} (large : 10 ^ width ≤ n) (small : n < 10 ^ (width + 1)) :
    (toString n).toList = Chars.lastDigits (width + 1) n := by
  have all : width + 1 ≤ (Nat.toDigits 10 n).length := by
    refine Nat.lt_of_not_le fun short => ?_
    cases width with
    | zero => exact Nat.not_le.2 Nat.length_toDigits_pos short
    | succ width =>
      exact Nat.not_le.2 ((Nat.length_toDigits_le_iff (by decide) (Nat.succ_pos width)).1 short)
        large
  rw [Chars.lastDigits_eq (Nat.succ_pos width) small, Nat.sub_eq_zero_of_le all,
    Nat.toString_eq_ofList_toDigits, String.toList_ofList]
  rfl

/-- Numbers one after another, each in its width and with its separator behind it. -/
def spelled : List (Nat × List Char) → List Nat → List Char
  | (width, separator) :: shape, n :: numbers =>
    Chars.lastDigits width n ++ separator ++ spelled shape numbers
  | _, _ => []

variable {shape : List (Nat × List Char)} {numbers others : List Nat}

theorem length_spelled (fits : shape.length = numbers.length) :
    (spelled shape numbers).length = (shape.map fun part => part.1 + part.2.length).sum := by
  induction shape generalizing numbers with
  | nil => rfl
  | cons part shape ih =>
    cases numbers with
    | nil => cases fits
    | cons n numbers => simp [spelled, ih (by simpa using fits), Nat.add_assoc]

/-- Numbers stand in the order of the texts that spell them. -/
theorem spelled_lt (fits : List.Forall₂ (fun part n => n < 10 ^ part.1) shape numbers)
    (fits' : List.Forall₂ (fun part n => n < 10 ^ part.1) shape others) (lt : numbers < others) :
    spelled shape numbers < spelled shape others := by
  induction fits generalizing others with
  | nil =>
    obtain rfl := List.forall₂_nil_left_iff.1 fits'
    exact absurd lt (List.lt_irrefl [])
  | @cons part n shape numbers small rest ih =>
    obtain ⟨n', others, small', rest', rfl⟩ := List.forall₂_cons_left_iff.1 fits'
    rw [spelled, spelled]
    rcases List.cons_lt_cons_iff.1 lt with first | ⟨rfl, later⟩
    · rw [List.append_assoc, List.append_assoc]
      exact Chars.append_lt_append (by simp) (Chars.lastDigits_lt first small') _ _
    · rw [Chars.append_lt_append_left]
      exact ih rest' later

end Text
end Scaffold
