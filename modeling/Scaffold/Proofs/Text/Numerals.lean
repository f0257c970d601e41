import Mathlib.Algebra.GroupWithZero.Nat
import Scaffold.Proofs.Text.Searching
import Scaffold.Text.Numeral

/-!
# Numbers of digits

A text of digits is an integer numeral when all of them are decimal digits and there are not too
many of them: `Text.readInteger_of_isDigits`. Then it spells the number of their values
(`Text.readInteger_of_decimal`); a number that is written in digits is read back
(`Text.readInteger_toString`), and takes no more of them than it was read from.
-/

namespace Scaffold.Text
set_option autoImplicit false

variable {c : Char} {chars : List Char}

/-- No digit is white space. -/
theorem not_isBlank_of_isDigit (h : isDigit c = true) : isBlank c = false := by
  have apart : ∀ r ∈ blanks, (∀ z ∈ zeros, r.2 < z ∨ z + 9 < r.1) ∧ ∀ d ∈ otherDigits, r.2 < d.1 ∨
    d.2 < r.1 := by decide
  refine Bool.eq_false_iff.2 fun blank => ?_
  obtain ⟨r, isRange, within⟩ := Ranges.exists_of_hasCode blank
  rcases Bool.or_eq_true_iff.1 h with decimal | other
  · rw [isDecimalDigit, digitValue?, Option.isSome_map] at decimal
    obtain ⟨z, found⟩ := Option.isSome_iff_exists.1 decimal
    have isZero := List.mem_of_find?_eq_some found
    have inBlock := List.find?_some found
    simp only [Bool.and_eq_true, decide_eq_true_eq] at inBlock
    have := (apart r isRange).1 z isZero
    omega
  · obtain ⟨d, isOther, inside⟩ := Ranges.exists_of_hasCode other
    have := (apart r isRange).2 d isOther
    omega

theorem not_isSpace_of_isDigit (h : isDigit c = true) : isSpace c = false := by
  rw [isSpace, not_isBlank_of_isDigit h, Bool.false_and]

theorem isNumeralChar_iff_of_isDigit (h : isDigit c = true) :
    isNumeralChar c = isDecimalDigit c := by
  have apart : c ≠ '_' := by
    rintro rfl
    exact absurd h (by decide)
  simp [isNumeralChar, apart]

/-- Digits are no sign. -/
theorem signed_of_isDigit {rest : List Char} (h : isDigit c = true) :
    signed (c :: rest) = (false, c :: rest) := by
  have minus : c ≠ '-' := by
    rintro rfl
    exact absurd h (by decide)
  have plus : c ≠ '+' := by
    rintro rfl
    exact absurd h (by decide)
  unfold signed
  split
  · rename_i same
    exact absurd (List.cons.inj same).1 minus
  · rename_i same
    exact absurd (List.cons.inj same).1 plus
  · rfl

theorem areSeparators_of_digits (all : ∀ c ∈ chars, isDigit c = true) :
    areSeparators chars = true := by
  have absent : '_' ∉ chars := fun mem => absurd (all '_' mem) (by decide)
  have first : chars.head? ≠ some '_' := fun here => absent (List.mem_of_head? here)
  have last : chars.getLast? ≠ some '_' := fun here => absent (List.mem_of_getLast? here)
  have empty : Chars.find? ['_', '_'] chars = none :=
    Chars.find?_eq_none.2 fun here => absent (here.subset (List.mem_cons_self ..))
  simp [areSeparators, first, last, Chars.has, empty]

theorem length_filterMap_digitValue? (all : ∀ c ∈ chars, isDecimalDigit c = true) :
    (chars.filterMap digitValue?).length = chars.length := by
  induction chars with
  | nil => rfl
  | cons c chars ih =>
    obtain ⟨first, others⟩ := List.forall_mem_cons.1 all
    obtain ⟨value, eq⟩ := Option.isSome_iff_exists.1 first
    rw [List.filterMap_cons_some eq, List.length_cons, List.length_cons, ih others]

/-- Decimal digits belong to a numeral. -/
theorem takeWhile_of_decimal (decimal : ∀ c ∈ chars, isDecimalDigit c = true) :
    chars.takeWhile isNumeralChar = chars ∧ chars.dropWhile isNumeralChar = [] := by
  have numeral : ∀ c ∈ chars, isNumeralChar c = true := fun c mem =>
    (isNumeralChar_iff_of_isDigit (isDigit_of_isDecimalDigit (decimal c mem))).trans (decimal c mem)
  rw [← List.append_nil chars, List.takeWhile_append_of_pos numeral,
    List.dropWhile_append_of_pos numeral]
  exact ⟨rfl, rfl⟩

/-- Decimal digits, not too many, spell the number of their values. -/
theorem readInteger_of_decimal {text : String} (nonempty : text.toList ≠ [])
    (decimal : ∀ c ∈ text.toList, isDecimalDigit c = true)
    (short : text.toList.length ≤ maxDigits) :
    readInteger text = .ok (numberOf (text.toList.filterMap digitValue?)) := by
  obtain ⟨c, rest, chars⟩ := List.exists_cons_of_ne_nil nonempty
  rw [chars] at decimal short
  have all : ∀ d ∈ c :: rest, isDigit d = true :=
    fun d mem => isDigit_of_isDecimalDigit (decimal d mem)
  have isFirst := all c (List.mem_cons_self ..)
  have noSpace : (c :: rest).dropWhile isSpace = c :: rest := by
    rw [List.dropWhile_cons_of_neg (by simp [not_isSpace_of_isDigit isFirst])]
  obtain ⟨whole, nothing⟩ := takeWhile_of_decimal decimal
  have length := length_filterMap_digitValue? decimal
  have filled : ((c :: rest).filterMap digitValue?).isEmpty = false := by
    rw [Bool.eq_false_iff, ne_eq, List.isEmpty_iff_length_eq_zero, length]
    exact Nat.succ_ne_zero _
  rw [readInteger, chars, noSpace, signed_of_isDigit isFirst]
  dsimp only
  rw [whole, nothing, areSeparators_of_digits all, length, filled, if_neg (by decide),
    if_neg (Nat.not_lt.2 short), if_neg (by decide), if_neg (by decide)]

/-- Which texts of digits spell a number. -/
theorem readInteger_of_isDigits {text : String} (h : isDigits text = true) :
    (∃ n, readInteger text = .ok n) ↔ (∀ c ∈ text.toList, isDecimalDigit c = true) ∧
    text.toList.length ≤ maxDigits := by
  rw [isDigits, Bool.and_eq_true, List.all_eq_true] at h
  obtain ⟨nonempty, all⟩ := h
  have filled : text.toList ≠ [] := by
    intro absent
    simp [String.toList_eq_nil_iff.1 absent] at nonempty
  by_cases both : (∀ c ∈ text.toList, isDecimalDigit c = true) ∧ text.toList.length ≤ maxDigits
  · exact iff_of_true ⟨_, readInteger_of_decimal filled both.1 both.2⟩ both
  · refine iff_of_false ?_ both
    obtain ⟨c, rest, chars⟩ := List.exists_cons_of_ne_nil filled
    rw [chars] at all both
    have isFirst := all c (List.mem_cons_self ..)
    have noSpace : (c :: rest).dropWhile isSpace = c :: rest := by
      rw [List.dropWhile_cons_of_neg (by simp [not_isSpace_of_isDigit isFirst])]
    rw [readInteger, chars, noSpace, signed_of_isDigit isFirst]
    dsimp only
    by_cases decimal : ∀ d ∈ c :: rest, isDecimalDigit d = true
    · have long : (c :: rest).length > maxDigits := Nat.not_le.1 fun short => both ⟨decimal, short⟩
      rintro ⟨n, read⟩
      rw [(takeWhile_of_decimal decimal).1, areSeparators_of_digits all,
        length_filterMap_digitValue? decimal, if_neg (by decide), if_pos long] at read
      cases read
    · obtain ⟨d, other⟩ := Classical.not_forall.1 decimal
      obtain ⟨mem, other⟩ := Classical.not_imp.1 other
      have left : ((c :: rest).dropWhile isNumeralChar).all isSpace = false := by
        cases behind : (c :: rest).dropWhile isNumeralChar with
        | nil =>
          have whole := @List.takeWhile_append_dropWhile _ isNumeralChar (c :: rest)
          rw [behind, List.append_nil] at whole
          have numeral :=
            List.all_eq_true.1 (List.all_takeWhile (p := isNumeralChar)) d (whole.symm ▸ mem)
          exact absurd ((isNumeralChar_iff_of_isDigit (all d mem)).symm.trans numeral) other
        | cons e behind' =>
          have isIn : e ∈ c :: rest :=
            (List.dropWhile_suffix _).subset (behind ▸ List.mem_cons_self ..)
          simp [not_isSpace_of_isDigit (all e isIn)]
      rw [left]
      rintro ⟨n, read⟩
      split at read
      · cases read
      · split at read
        · cases read
        · simp at read

/-- What a text of digits spells is the number of their values. -/
theorem eq_numberOf_of_readInteger {text : String} {value : Int} (digits : isDigits text = true)
    (h : readInteger text = .ok value) : value = numberOf (text.toList.filterMap digitValue?) := by
  obtain ⟨decimal, short⟩ := (readInteger_of_isDigits digits).1 ⟨value, h⟩
  rw [isDigits, Bool.and_eq_true] at digits
  have filled : text.toList ≠ [] := by
    intro absent
    simp [String.toList_eq_nil_iff.1 absent] at digits
  exact (Except.ok.inj ((readInteger_of_decimal filled decimal short).symm.trans h)).symm

theorem lt_of_digitValue? {value : Nat} (h : digitValue? c = some value) : value < 10 := by
  obtain ⟨first, found, rfl⟩ := Option.map_eq_some_iff.1 h
  have inBlock := List.find?_some found
  simp only [Bool.and_eq_true, decide_eq_true_eq] at inBlock
  omega

/-- Digits spell a number below the power of ten that their count gives. -/
theorem numberOf_lt {digits : List Nat} (small : ∀ d ∈ digits, d < 10) :
    numberOf digits < 10 ^ digits.length := by
  have fold : ∀ (digits : List Nat) (start : Nat), (∀ d ∈ digits, d < 10) →
      digits.foldl (fun n d => 10 * n + d) start < (start + 1) * 10 ^ digits.length := by
    intro digits
    induction digits with
    | nil => intro start _; simp
    | cons d rest ih =>
      intro start small
      obtain ⟨first, others⟩ := List.forall_mem_cons.1 small
      calc (d :: rest).foldl (fun n d => 10 * n + d) start
          < (10 * start + d + 1) * 10 ^ rest.length := ih _ others
        _ ≤ (start + 1) * 10 * 10 ^ rest.length := Nat.mul_le_mul_right _ (by omega)
        _ = (start + 1) * 10 ^ (d :: rest).length := by
          rw [List.length_cons, Nat.pow_succ, Nat.mul_assoc, Nat.mul_comm 10]
  simpa [numberOf] using fold digits 0 small

/-- A number takes no more digits than it was read from. -/
theorem length_toString_numberOf (filled : chars ≠ [])
    (decimal : ∀ c ∈ chars, isDecimalDigit c = true) :
    (toString (numberOf (chars.filterMap digitValue?))).length ≤ chars.length := by
  have count := length_filterMap_digitValue? decimal
  have small : ∀ d ∈ chars.filterMap digitValue?, d < 10 := by
    intro d mem
    obtain ⟨c, -, value⟩ := List.mem_filterMap.1 mem
    exact lt_of_digitValue? value
  have below := numberOf_lt small
  rw [count] at below
  rw [Nat.toString_eq_ofList_toDigits, String.length_ofList]
  exact (Nat.length_toDigits_le_iff (by decide) (List.length_pos_iff.2 filled)).2 below

theorem digitValue?_of_isDigit (h : c.isDigit = true) :
    digitValue? c = some (c.toNat - '0'.toNat) := by
  have inFirst : (48 ≤ c.toNat && c.toNat < 48 + 10) = true := by
    simp only [Char.isDigit, Bool.and_eq_true, decide_eq_true_eq] at h
    have low := UInt32.le_iff_toNat_le.1 h.1
    have high := UInt32.le_iff_toNat_le.1 h.2
    simp only [Bool.and_eq_true, decide_eq_true_eq, Char.toNat]
    exact ⟨low, Nat.lt_succ_of_le high⟩
  obtain ⟨others, first⟩ : ∃ others, zeros = 48 :: others := ⟨_, rfl⟩
  have found : zeros.find? (fun z => z ≤ c.toNat && c.toNat < z + 10) = some 48 := by
    rw [first]
    exact List.find?_cons_of_pos inFirst
  rw [digitValue?, found]
  rfl

/-- The digits of a number spell it. -/
theorem numberOf_toDigits (n : Nat) : numberOf ((Nat.toDigits 10 n).filterMap digitValue?) = n := by
  have fold : ∀ (chars : List Char) (start : Nat), (∀ c ∈ chars, c.isDigit = true) →
      (chars.filterMap digitValue?).foldl (fun n d => 10 * n + d) start =
        Nat.ofDigitChars 10 chars start := by
    intro chars
    induction chars with
    | nil => intro start _; rfl
    | cons c rest ih =>
      intro start all
      obtain ⟨first, others⟩ := List.forall_mem_cons.1 all
      rw [List.filterMap_cons_some (digitValue?_of_isDigit first), List.foldl_cons, ih _ others,
        Nat.ofDigitChars_cons]
  rw [numberOf, fold _ _ fun c mem => Nat.isDigit_of_mem_toDigits (by decide) (by decide) mem,
    Nat.ofDigitChars_ten_toDigits]

/-- A number is written in the digits from 0 to 9. -/
theorem isDigit_of_mem_toString {n : Nat} (h : c ∈ (toString n).toList) : c.isDigit = true := by
  rw [Nat.toString_eq_ofList_toDigits, String.toList_ofList] at h
  exact Nat.isDigit_of_mem_toDigits (by decide) (by decide) h

theorem isDigit_of_mem_digits {width n : Nat} (h : c ∈ (digits width n).toList) :
    c.isDigit = true := by
  rw [digits, padLeft, repeated, String.toList_append, List.mem_append, String.toList_ofList] at h
  rcases h with zero | number
  · obtain rfl := List.eq_of_mem_replicate zero
    decide
  · exact isDigit_of_mem_toString number

theorem isDecimalDigit_of_mem_toString {n : Nat} (h : c ∈ (toString n).toList) :
    isDecimalDigit c = true := by
  rw [isDecimalDigit, digitValue?_of_isDigit (isDigit_of_mem_toString h)]
  rfl

theorem toList_toString_ne_nil (n : Nat) : (toString n).toList ≠ [] := by
  rw [Nat.toString_eq_ofList_toDigits, String.toList_ofList]
  exact Nat.toDigits_ne_nil

theorem isDigits_toString (n : Nat) : isDigits (toString n) = true := by
  rw [isDigits, Bool.and_eq_true, List.all_eq_true]
  refine ⟨?_, fun c mem => isDigit_of_isDecimalDigit (isDecimalDigit_of_mem_toString mem)⟩
  rw [Bool.not_eq_true', Bool.eq_false_iff, ne_eq, String.isEmpty_iff, ← String.toList_eq_nil_iff]
  exact toList_toString_ne_nil n

/-- A number in not too many digits is read back. -/
theorem readInteger_toString {n : Nat} (short : (toString n).length ≤ maxDigits) :
    readInteger (toString n) = .ok n := by
  have read :=
    readInteger_of_decimal (toList_toString_ne_nil n)
      (fun c => isDecimalDigit_of_mem_toString) short
  rw [read, Nat.toString_eq_ofList_toDigits, String.toList_ofList, numberOf_toDigits]

end Scaffold.Text
