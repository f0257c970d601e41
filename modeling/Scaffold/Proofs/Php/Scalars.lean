import Mathlib.Data.List.Induction
import Mathlib.Data.List.TakeWhile
import Mathlib.Data.Nat.Digits.Defs
import Scaffold.Proofs.Php.Tokens
import Scaffold.Proofs.Text.Numerals

/-!
# Plain values of PHP

A plain value in PHP source is a truth value, null, a number or a single-quoted literal. A whole
number that begins with a zero is read in base eight there, and only the digits of ASCII make
numbers. So what is written for a value need not say it: `value?_scalar_iff` tells for which values
it does. Numbers are taken as they are spelled; that the language keeps some of them as nearest
floating-point numbers is left out.
-/

namespace Scaffold.Php
set_option autoImplicit false

inductive Value where
  | null
  | bool (truth : Bool)
  | number (value : ℚ)
  | text (text : String)
  deriving DecidableEq

/-- The number that digits spell in a base. -/
def natOf (base : ℕ) (digits : List Char) : ℕ :=
  Nat.ofDigits base (digits.reverse.map fun c => c.toNat - '0'.toNat)

/-- Digits, and digits after a point if there is one. -/
structure Numeral where
  whole : List Char
  fraction : List Char

namespace Numeral

def chars (n : Numeral) : List Char := n.whole ++ if n.fraction = [] then [] else '.' :: n.fraction

/-- The digits are those of ASCII, and the number does not begin with its point. -/
structure IsFormed (n : Numeral) : Prop where
  filled : n.whole ≠ []
  whole : ∀ c ∈ n.whole, c.isDigit
  fraction : ∀ c ∈ n.fraction, c.isDigit

/-- The number that a numeral spells in base ten. -/
def decimal (n : Numeral) : ℚ := natOf 10 (n.whole ++ n.fraction) / 10 ^ n.fraction.length

/-- A numeral means the same in base ten as in PHP: it has a point, does not begin with a zero, or
is less than eight. -/
def IsSteady (n : Numeral) : Prop :=
  n.fraction ≠ [] ∨ n.whole.head? ≠ some '0' ∨ natOf 10 n.whole < 8

/-- The numeral that a whole text is. -/
def ofChars? (chars : List Char) : Option Numeral :=
  let whole := chars.takeWhile Char.isDigit
  if whole = [] then none
  else
    match chars.dropWhile Char.isDigit with
    | [] => some ⟨whole, []⟩
    | '.' :: fraction =>
      if fraction ≠ [] ∧ fraction.all Char.isDigit then some ⟨whole, fraction⟩ else none
    | _ => none

end Numeral

/-! How the language reads a plain value -/

/-- A whole number: with a zero in front it is one in base eight. -/
def whole? : List Char → Option ℕ
  | [] => none
  | '0' :: digits => if digits.all (· < '8') then some (natOf 8 digits) else none
  | digits => some (natOf 10 digits)

/-- The number at the start of a text. Exponents, separators and marks of other bases, with which no
plain value is written, are left out. -/
def number? (chars : List Char) : Option (ℚ × List Char) :=
  let whole := chars.takeWhile Char.isDigit
  match chars.dropWhile Char.isDigit with
  | '.' :: rest =>
    let n : Numeral := ⟨whole, rest.takeWhile Char.isDigit⟩
    if n.whole = [] ∧ n.fraction = [] then none else some (n.decimal, rest.dropWhile Char.isDigit)
  | rest => (whole? whole).map fun value => (↑value, rest)

/-- What was read, if only gaps follow. -/
def alone? {α : Type} (read : Option (α × List Char)) : Option α :=
  read.bind fun p => if p.2.all isGap then some p.1 else none

/-- The values that have a name. -/
def named? : String → Option Value
  | "null" => some .null
  | "true" => some (.bool true)
  | "false" => some (.bool false)
  | _ => none

/-- The value of an expression that is a plain value. -/
def value? (text : List Char) : Option Value :=
  match text.dropWhile isGap with
  | '\'' :: rest => (alone? (quoted? rest)).map fun said => .text (String.ofList said)
  | '-' :: rest => (alone? (number? (rest.dropWhile isGap))).map fun value => .number (-value)
  | c :: rest =>
    if c.isDigit || c == '.' then (alone? (number? (c :: rest))).map .number
    else (alone? (name? (c :: rest))).bind named?
  | [] => none

/-! What a value is meant to be -/

/-- The number that a text spells as a decimal numeral with or without a sign; with `plus` a plus is
a sign too. -/
def spelled? (plus : Bool) : List Char → Option ℚ
  | '-' :: rest => (Numeral.ofChars? rest).map fun n => -n.decimal
  | '+' :: rest => if plus then (Numeral.ofChars? rest).map Numeral.decimal else none
  | chars => (Numeral.ofChars? chars).map Numeral.decimal

/-- What a text means as a plain value: a truth value, null, a number, or else itself. -/
def meaning (plus : Bool) (text : String) : Value :=
  (named? text).getD ((spelled? plus text.toList).elim (.text text) .number)

variable {c : Char} {digits rest : List Char}

theorem natOf_concat (base : ℕ) (digits : List Char) (c : Char) :
    natOf base (digits ++ [c]) = (c.toNat - '0'.toNat) + base * natOf base digits := by
  simp [natOf, Nat.ofDigits_cons]

theorem natOf_zero_cons (base : ℕ) (digits : List Char) :
    natOf base ('0' :: digits) = natOf base digits := by
  simp [natOf, Nat.ofDigits_append]

theorem natOf_eight_le (digits : List Char) : natOf 8 digits ≤ natOf 10 digits :=
  Nat.ofDigits_monotone _ (by decide)

/-- No digit is more than the number. -/
theorem le_natOf (mem : c ∈ digits) : c.toNat - '0'.toNat ≤ natOf 10 digits := by
  induction digits using List.reverseRecOn with
  | nil => exact absurd mem List.not_mem_nil
  | append_singleton digits d ih =>
    rw [natOf_concat]
    rcases List.mem_append.1 mem with front | last
    · have := ih front
      omega
    · rw [List.mem_singleton.1 last]
      exact Nat.le_add_right ..

theorem lt_eight_iff (h : c.isDigit) : c < '8' ↔ c.toNat - '0'.toNat < 8 := by
  simp only [Char.isDigit, Bool.and_eq_true, decide_eq_true_eq] at h
  have low := UInt32.le_iff_toNat_le.1 h.1
  rw [Char.lt_def, UInt32.lt_iff_toNat_lt]
  simp only [Char.toNat] at *
  have zero : '0'.val.toNat = 48 := rfl
  have eight : '8'.val.toNat = 56 := rfl
  omega

/-- Digits below eight spell the same number in base eight as in base ten exactly when it is less
than eight. -/
theorem natOf_eight_eq_iff (small : ∀ c ∈ digits, c.toNat - '0'.toNat < 8) :
    natOf 8 digits = natOf 10 digits ↔ natOf 10 digits < 8 := by
  cases digits using List.reverseRecOn with
  | nil => decide
  | append_singleton digits c =>
    have last := small c (by simp)
    have le := natOf_eight_le digits
    rw [natOf_concat, natOf_concat]
    omega

/-- A whole number is read as it is spelled in base ten unless it begins with a zero and is not less
than eight. -/
theorem whole?_eq_iff (filled : digits ≠ []) (all : ∀ c ∈ digits, c.isDigit) :
    whole? digits = .some (natOf 10 digits) ↔ digits.head? ≠ .some '0' ∨ natOf 10 digits < 8 := by
  obtain ⟨c, rest, rfl⟩ := List.exists_cons_of_ne_nil filled
  by_cases zero : c = '0'
  · subst zero
    have small : rest.all (· < '8') = true ↔ ∀ c ∈ rest, c.toNat - '0'.toNat < 8 := by
      simp only [List.all_eq_true, decide_eq_true_eq]
      exact forall₂_congr fun c mem => lt_eight_iff (all c (List.mem_cons_of_mem _ mem))
    rw [whole?, natOf_zero_cons]
    simp only [List.head?_cons, ne_eq, not_true_eq_false, false_or]
    constructor
    · intro read
      split at read
      · rename_i octal
        exact (natOf_eight_eq_iff (small.1 octal)).1 (Option.some.inj read)
      · cases read
    · intro less
      have octal : ∀ c ∈ rest, c.toNat - '0'.toNat < 8 := fun c mem => (le_natOf mem).trans_lt less
      rw [if_pos (small.2 octal), (natOf_eight_eq_iff octal).2 less]
  · have other : (c :: rest).head? ≠ .some '0' := by simpa using zero
    rw [whole?.eq_3 _ (by simp) (by simp [zero])]
    exact iff_of_true rfl (.inl other)

namespace Numeral

variable {n : Numeral} {chars : List Char}

/-- The digits at the start of a text of digits with something else behind. -/
theorem digits_append (all : ∀ c ∈ digits, c.isDigit) (stop : ∀ c ∈ rest.head?, c.isDigit = false) :
    (digits ++ rest).takeWhile Char.isDigit = digits ∧
    (digits ++ rest).dropWhile Char.isDigit = rest := by
  rw [List.takeWhile_append_of_pos all, List.dropWhile_append_of_pos all]
  cases rest with
  | nil => simp
  | cons c rest => simp [stop c rfl]

/-- The digits at the start of a numeral are those before its point. -/
theorem IsFormed.digits_chars (formed : n.IsFormed) : n.chars.takeWhile Char.isDigit = n.whole ∧
    n.chars.dropWhile Char.isDigit = if n.fraction = [] then [] else '.' :: n.fraction := by
  have stop :
      ∀ c ∈ (if n.fraction = [] then [] else '.' :: n.fraction).head?, c.isDigit = false := by
    split
    · simp
    · simp
  exact digits_append formed.whole stop

theorem ofChars?_eq_some : ofChars? chars = some n ↔ n.IsFormed ∧ n.chars = chars := by
  constructor
  · intro read
    have whole : ∀ c ∈ chars.takeWhile Char.isDigit, c.isDigit :=
      fun c mem => List.mem_takeWhile_imp mem
    have split_ := List.takeWhile_append_dropWhile (p := Char.isDigit) (l := chars)
    unfold ofChars? at read
    dsimp only at read
    split at read
    · cases read
    · rename_i filled
      split at read
      · rename_i absent
        obtain rfl := Option.some.inj read
        rw [absent] at split_
        exact ⟨⟨filled, whole, by simp⟩, by simpa [Numeral.chars] using split_⟩
      · rename_i fraction rest
        split at read
        · rename_i digits
          obtain rfl := Option.some.inj read
          rw [rest] at split_
          refine ⟨⟨filled, whole, by simpa using digits.2⟩,
            by simpa [Numeral.chars, digits.1] using split_⟩
        · cases read
      · cases read
  · rintro ⟨formed, rfl⟩
    obtain ⟨whole, rest⟩ := formed.digits_chars
    simp only [ofChars?, whole, rest, formed.filled, if_false]
    obtain ⟨digits, fraction⟩ := n
    by_cases point : fraction = []
    · simp [point]
    · simpa [point] using formed.fraction

/-- The first character of a numeral is a digit. -/
theorem IsFormed.exists_chars (formed : n.IsFormed) :
    ∃ c rest, n.chars = c :: rest ∧ c.isDigit = true := by
  obtain ⟨c, rest, whole⟩ := List.exists_cons_of_ne_nil formed.filled
  exact ⟨c, _, by
    rw [chars, whole, List.cons_append], formed.whole c (whole ▸ List.mem_cons_self ..)⟩

/-- The number that a numeral is read as. -/
def read? (n : Numeral) : Option ℚ :=
  if n.fraction = [] then (whole? n.whole).map fun value => ↑value else some n.decimal

theorem read?_eq_iff (formed : n.IsFormed) : n.read? = some n.decimal ↔ n.IsSteady := by
  by_cases point : n.fraction = []
  · have decimal : n.decimal = natOf 10 n.whole := by simp [Numeral.decimal, point]
    rw [read?, if_pos point, decimal, IsSteady, ← whole?_eq_iff formed.filled formed.whole]
    cases whole? n.whole <;> simp [point]
  · simp [read?, IsSteady, point]

theorem number?_chars (formed : n.IsFormed) :
    number? n.chars = n.read?.map fun value => (value, []) := by
  obtain ⟨whole, rest⟩ := formed.digits_chars
  by_cases point : n.fraction = []
  · rw [if_pos point] at rest
    rw [read?, if_pos point, number?, whole, rest, Option.map_map]
    rfl
  · have ended : ∀ c ∈ ([] : List Char).head?, c.isDigit = false := by simp
    obtain ⟨digits, nothing⟩ := digits_append formed.fraction ended
    rw [List.append_nil] at digits nothing
    rw [if_neg point] at rest
    simp only [number?, whole, rest, digits, nothing, point, and_false, if_false, read?,
      Option.map_some]

end Numeral

variable {n : Numeral} {v : String}

theorem isDecimalDigit_of_isDigit (h : c.isDigit = true) : Text.isDecimalDigit c = true := by
  rw [Text.isDecimalDigit, Text.digitValue?_of_isDigit h]
  rfl

/-- No digit is a gap, a quote or a sign. -/
theorem not_mark_of_isDecimalDigit (h : Text.isDecimalDigit c = true) :
    isGap c = false ∧ c ≠ '\'' ∧ c ≠ '-' ∧ c ≠ '+' := by
  have apart : ∀ d ∈ [' ', '\t', '\n', '\r', '\'', '-', '+'], Text.isDecimalDigit d = false := by
    decide
  have ne (d : Char) (mem : d ∈ [' ', '\t', '\n', '\r', '\'', '-', '+']) : c ≠ d := by
    rintro rfl
    exact Bool.false_ne_true ((apart c mem).symm.trans h)
  refine ⟨?_, ne _ (by simp), ne _ (by simp), ne _ (by simp)⟩
  simp [isGap, ne ' ' (by simp), ne '\t' (by simp), ne '\n' (by simp), ne '\r' (by simp)]

theorem alone?_map {α : Type} (read : Option α) :
    alone? (read.map fun value => (value, [])) = read := by
  cases read <;> rfl

/-- A numeral is a plain value, with or without a minus. -/
theorem value?_chars (formed : n.IsFormed) : value? n.chars = n.read?.map .number ∧
    value? ('-' :: n.chars) = n.read?.map fun value => .number (-value) := by
  have read := Numeral.number?_chars formed
  obtain ⟨c, rest, chars, digit⟩ := formed.exists_chars
  obtain ⟨solid, quote, minus, -⟩ := not_mark_of_isDecimalDigit (isDecimalDigit_of_isDigit digit)
  rw [chars] at read ⊢
  constructor
  · have here : (c :: rest).dropWhile isGap = c :: rest :=
      List.dropWhile_cons_of_neg (by simp [solid])
    unfold value?
    rw [here]
    split
    · rename_i same
      exact absurd (List.cons.inj same).1 quote
    · rename_i same
      exact absurd (List.cons.inj same).1 minus
    · rename_i first others _ _ same
      obtain ⟨rfl, rfl⟩ := List.cons.inj same
      rw [if_pos (by simp [digit]), read, alone?_map]
    · rename_i same
      cases same
  · have here : ('-' :: c :: rest).dropWhile isGap = '-' :: c :: rest := rfl
    have next : (c :: rest).dropWhile isGap = c :: rest :=
      List.dropWhile_cons_of_neg (by simp [solid])
    simp only [value?, here, next, read, alone?_map]

/-- Only a literal is read as a text. -/
theorem quote_of_value? {text : List Char} {said : String} (h : value? text = some (.text said)) :
    ∃ rest, text.dropWhile isGap = '\'' :: rest := by
  unfold value? at h
  split at h
  · exact ⟨_, ‹_›⟩
  · obtain ⟨_, -, same⟩ := Option.map_eq_some_iff.1 h
    cases same
  · split at h
    · obtain ⟨_, -, same⟩ := Option.map_eq_some_iff.1 h
      cases same
    · obtain ⟨name, -, named⟩ := Option.bind_eq_some_iff.1 h
      unfold named? at named
      split at named <;> cases named
  · cases h

theorem value?_literal (text : String) : value? (literal text).toList = some (.text text) := by
  have chars :
      (literal text).toList = '\'' :: (Chars.escape ['\\', '\''] text.toList ++ ['\'']) := by
    simp [literal, Text.escape]
  have here (rest : List Char) : ('\'' :: rest).dropWhile isGap = '\'' :: rest := rfl
  rw [chars, value?, here]
  simp [quoted?_escape, alone?]

/-- A number is written with a minus or a digit of some script in front. -/
theorem exists_of_isNumber (h : isNumber v = true) :
    ∃ c rest, v.toList = c :: rest ∧ (c = '-' ∨ Text.isDecimalDigit c = true) := by
  cases chars : v.toList with
  | nil => simp [isNumber, chars, Chars.dropHead?] at h
  | cons c rest =>
    refine ⟨c, rest, rfl, ?_⟩
    by_cases minus : c = '-'
    · exact .inl minus
    · right
      have body : Chars.dropHead? ['-'] (c :: rest) = none := by
        simp [Chars.dropHead?, Ne.symm minus]
      by_contra other
      simp [isNumber, chars, body, List.takeWhile_cons_of_neg other] at h

/-- Numerals are numbers. -/
theorem isNumber_of_isFormed (formed : n.IsFormed)
    (h : v.toList = n.chars ∨ v.toList = '-' :: n.chars) : isNumber v = true := by
  have body : (Chars.dropHead? ['-'] v.toList).getD v.toList = n.chars := by
    rcases h with plain | signed
    · obtain ⟨c, rest, chars, digit⟩ := formed.exists_chars
      have minus := (not_mark_of_isDecimalDigit (isDecimalDigit_of_isDigit digit)).2.2.1
      rw [plain, chars]
      simp [Chars.dropHead?, Ne.symm minus]
    · rw [signed]
      simp [Chars.dropHead?]
  have whole : ∀ c ∈ n.whole, Text.isDecimalDigit c = true :=
    fun c mem => isDecimalDigit_of_isDigit (formed.whole c mem)
  have fraction : ∀ c ∈ n.fraction, Text.isDecimalDigit c = true :=
    fun c mem => isDecimalDigit_of_isDigit (formed.fraction c mem)
  have point : Text.isDecimalDigit '.' = false := by decide
  rw [isNumber, body, Numeral.chars, List.takeWhile_append_of_pos whole,
    List.dropWhile_append_of_pos whole]
  by_cases empty : n.fraction = []
  · simp [empty, isNumberTail, formed.filled]
  · have all : n.fraction.takeWhile Text.isDecimalDigit = n.fraction :=
      List.takeWhile_eq_self_iff.2 fraction
    have nothing : n.fraction.dropWhile Text.isDecimalDigit = [] :=
      List.dropWhile_eq_nil_iff.2 fraction
    simp [empty, point, isNumberTail, all, nothing, formed.filled]

/-- What a text spells that does not begin with a plus. -/
theorem spelled?_eq_some {plus : Bool} {chars : List Char} {value : ℚ}
    (h : spelled? plus chars = some value) (noPlus : chars.head? ≠ some '+') :
    ∃ n : Numeral, n.IsFormed ∧
      (chars = n.chars ∧ value = n.decimal ∨ chars = '-' :: n.chars ∧ value = -n.decimal) := by
  unfold spelled? at h
  split at h
  · obtain ⟨n, read, rfl⟩ := Option.map_eq_some_iff.1 h
    obtain ⟨formed, rfl⟩ := Numeral.ofChars?_eq_some.1 read
    exact ⟨n, formed, .inr ⟨rfl, rfl⟩⟩
  · exact absurd rfl noPlus
  · obtain ⟨n, read, rfl⟩ := Option.map_eq_some_iff.1 h
    obtain ⟨formed, rfl⟩ := Numeral.ofChars?_eq_some.1 read
    exact ⟨n, formed, .inl ⟨rfl, rfl⟩⟩

/-- A numeral spells its number, with or without a minus. -/
theorem spelled?_chars (plus : Bool) (formed : n.IsFormed) :
    spelled? plus n.chars = some n.decimal ∧
    spelled? plus ('-' :: n.chars) = some (-n.decimal) := by
  have read := Numeral.ofChars?_eq_some.2 ⟨formed, rfl⟩
  obtain ⟨c, rest, chars, digit⟩ := formed.exists_chars
  obtain ⟨-, -, minus, noPlus⟩ := not_mark_of_isDecimalDigit (isDecimalDigit_of_isDigit digit)
  refine ⟨?_, by simp [spelled?, read]⟩
  rw [chars] at read ⊢
  unfold spelled?
  split
  · rename_i same
    exact absurd (List.cons.inj same).1 minus
  · rename_i same
    exact absurd (List.cons.inj same).1 noPlus
  · rw [read]
    rfl

/-- A number told what it means exactly when it is a numeral that is the same in base ten as it is
read. -/
theorem value?_number_iff {plus : Bool} (other : named? v = none) (number : isNumber v = true) :
    value? v.toList = some (meaning plus v) ↔
      ∃ n : Numeral, n.IsFormed ∧ n.IsSteady ∧
      (v.toList = n.chars ∨ v.toList = '-' :: n.chars) := by
  obtain ⟨c, rest, chars, first⟩ := exists_of_isNumber number
  have noPlus : v.toList.head? ≠ some '+' := by
    rintro plus
    obtain rfl : c = '+' := by simpa [chars] using plus
    exact absurd first (by decide)
  constructor
  · intro told
    rw [meaning, other, Option.getD_none] at told
    cases spelled : spelled? plus v.toList with
    | none =>
      rw [spelled] at told
      obtain ⟨_, quoted⟩ := quote_of_value? told
      have solid : isGap c = false ∧ c ≠ '\'' := by
        rcases first with rfl | digit
        · decide
        · exact ⟨(not_mark_of_isDecimalDigit digit).1, (not_mark_of_isDecimalDigit digit).2.1⟩
      rw [chars, List.dropWhile_cons_of_neg (by simp [solid.1])] at quoted
      exact absurd (List.cons.inj quoted).1 solid.2
    | some value =>
      rw [spelled] at told
      obtain ⟨n, formed, ⟨is, rfl⟩ | ⟨is, rfl⟩⟩ := spelled?_eq_some spelled noPlus
      · rw [is, (value?_chars formed).1] at told
        have read : n.read? = some n.decimal := by simpa using told
        exact ⟨n, formed, (Numeral.read?_eq_iff formed).1 read, .inl is⟩
      · rw [is, (value?_chars formed).2] at told
        have read : n.read? = some n.decimal := by simpa using told
        exact ⟨n, formed, (Numeral.read?_eq_iff formed).1 read, .inr is⟩
  · rintro ⟨n, formed, steady, is | is⟩
    · rw [meaning, other, Option.getD_none, is, (value?_chars formed).1,
        (Numeral.read?_eq_iff formed).2 steady, (spelled?_chars plus formed).1]
      rfl
    · rw [meaning, other, Option.getD_none, is, (value?_chars formed).2,
        (Numeral.read?_eq_iff formed).2 steady, (spelled?_chars plus formed).2]
      rfl

/-- What is written for a text says what it means as a plain value exactly when the text, if it is
taken for a number, is a numeral that is the same in base ten as it is read; where a plus is a sign,
no numeral may have one. -/
theorem value?_scalar_iff (plus : Bool) (v : String) :
    value? (scalar v).toList = some (meaning plus v) ↔
    (isNumber v = true → ∃ n : Numeral, n.IsFormed ∧ n.IsSteady ∧
      (v.toList = n.chars ∨ v.toList = '-' :: n.chars)) ∧
      (plus = true → ∀ n : Numeral, n.IsFormed → v.toList ≠ '+' :: n.chars) := by
  cases known : named? v with
  | some value =>
    have word : v = "null" ∨ v = "true" ∨ v = "false" := by
      unfold named? at known
      split at known <;> simp_all
    have apart : isNumber v = false ∧ v.toList.head? ≠ some '+' := by
      rcases word with rfl | rfl | rfl <;> decide
    refine iff_of_true ?_ ⟨fun number => absurd (apart.1.symm.trans number) Bool.false_ne_true,
      fun _ n _ is => apart.2 (by simp [is])⟩
    rcases word with rfl | rfl | rfl <;> rfl
  | none =>
    have word : ["true", "false", "null"].contains v = false := by
      rw [Bool.eq_false_iff, ne_eq, List.contains_iff_mem]
      intro mem
      have each : ∀ word ∈ ["true", "false", "null"], named? word ≠ none := by decide
      exact each v mem known
    by_cases number : isNumber v = true
    · have plain : scalar v = v := by rw [scalar, number, Bool.or_true, if_pos rfl]
      rw [plain, value?_number_iff known number]
      refine ⟨fun steady => ⟨fun _ => steady, fun _ n formed is => ?_⟩, fun steady =>
        steady.1 number⟩
      obtain ⟨c, rest, chars, first⟩ := exists_of_isNumber number
      obtain ⟨rfl, -⟩ := List.cons.inj (chars.symm.trans is)
      exact absurd first (by decide)
    · have quoted : scalar v = literal v := by
        rw [scalar, word, Bool.eq_false_iff.2 number]
        rfl
      rw [quoted, value?_literal, meaning, known, Option.getD_none, and_iff_right fun isNumber =>
        absurd isNumber number]
      cases spelled : spelled? plus v.toList with
      | none =>
        refine iff_of_true rfl fun isSign n formed is => ?_
        rw [is, spelled?, if_pos isSign, Numeral.ofChars?_eq_some.2 ⟨formed, rfl⟩] at spelled
        cases spelled
      | some value =>
        refine iff_of_false (by simp) fun apart => ?_
        by_cases signed : v.toList.head? = some '+'
        · obtain ⟨rest, chars⟩ := List.head?_eq_some_iff.1 signed
          rw [chars, spelled?] at spelled
          split at spelled
          · rename_i isSign
            obtain ⟨n, read, -⟩ := Option.map_eq_some_iff.1 spelled
            obtain ⟨formed, rfl⟩ := Numeral.ofChars?_eq_some.1 read
            exact apart isSign n formed chars
          · cases spelled
        · obtain ⟨n, formed, is⟩ := spelled?_eq_some spelled signed
          exact number (isNumber_of_isFormed formed (is.imp And.left And.left))

/-- A whole number with a zero in front, a digit of another script and a number before a line feed
are written as they are: the first is read in base eight, the second not as a number, and the third
as a number. -/
theorem scalar_misread (plus : Bool) :
    value? (scalar "010").toList = some (.number 8) ∧ meaning plus "010" = .number 10 ∧
      value? (scalar "٣").toList = none ∧ meaning plus "٣" = .text "٣" ∧
      value? (scalar "5\n").toList = some (.number 5) ∧ meaning plus "5\n" = .text "5\n" := by
  revert plus
  decide +kernel

/-- What is written for a text need not say what it means. -/
theorem not_value?_scalar : ¬ ∃ plus, ∀ v, value? (scalar v).toList = some (meaning plus v) := by
  rintro ⟨plus, claimed⟩
  obtain ⟨read, means, -⟩ := scalar_misread plus
  have same := claimed "010"
  rw [read, means] at same
  exact absurd same (by decide)

end Scaffold.Php
