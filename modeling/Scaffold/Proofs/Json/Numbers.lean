import Scaffold.Json.Printer
import Scaffold.Json.Reader
import Scaffold.Proofs.Decimal.Shortest

/-!
# Numbers of JSON documents

A printed number is read up to its end: a whole number as itself, a floating-point number as one,
which is the same if it has the form that rounding gives. The main statements are `Json.scalar_int`,
`Json.scalar_float` and `Json.rereadFloat_eq`.
-/

namespace Scaffold.Json
set_option autoImplicit false

/-- Digits as they stand before a point: zero alone, or a text of digits that does not begin with
it. -/
def IsWhole (digits : List Char) : Prop :=
  digits = ['0'] ∨ digits ≠ [] ∧ (∀ c ∈ digits, c.isDigit) ∧ digits.head? ≠ some '0'

/-- What may follow a value: nothing, a line end, a comma or what closes an array or an object. -/
def Ends (rest : List Char) : Prop := ∀ c ∈ rest.head?, c ∈ ['\n', ',', ']', '\x7d']

/-- A power of ten, if there is one, with its sign. -/
def powerChars : Option (Char × List Char) → List Char
  | some (sign, digits) => 'e' :: sign :: digits
  | none => []

/-- The text of a number without its sign. -/
def numberChars (whole fraction : List Char) (power : Option (Char × List Char)) : List Char :=
  whole ++ (if fraction.isEmpty then [] else '.' :: fraction) ++ powerChars power

/-- What the parts of a number look like. -/
structure IsNumber (whole fraction : List Char) (power : Option (Char × List Char)) : Prop where
  whole : IsWhole whole
  fraction : ∀ c ∈ fraction, c.isDigit
  power : ∀ p ∈ power, (p.1 = '+' ∨ p.1 = '-') ∧ p.2 ≠ [] ∧ ∀ c ∈ p.2, c.isDigit

theorem digitsOf_append {digits rest : List Char} (all : ∀ c ∈ digits, c.isDigit)
    (stop : ∀ c ∈ rest.head?, c.isDigit = false) : digitsOf (digits ++ rest) = digits := by
  rw [digitsOf, List.takeWhile_append_of_pos all]
  cases rest with
  | nil => simp
  | cons c rest => simp [stop c rfl]

theorem IsWhole.all {digits : List Char} (h : IsWhole digits) : ∀ c ∈ digits, c.isDigit := by
  rcases h with rfl | ⟨-, all, -⟩
  · decide
  · exact all

/-- What a number is written with. -/
theorem IsNumber.of_mem {whole fraction : List Char} {power : Option (Char × List Char)}
    (h : IsNumber whole fraction power) {c : Char} (mem : c ∈ numberChars whole fraction power) :
    c.isDigit ∨ c ∈ ['.', 'e', '+', '-'] := by
  rw [numberChars, List.mem_append, List.mem_append] at mem
  rcases mem with (digit | digit) | sign
  · exact .inl (h.whole.all c digit)
  · split at digit
    · cases digit
    · rcases List.mem_cons.1 digit with rfl | digit
      · exact .inr (by decide)
      · exact .inl (h.fraction c digit)
  · cases power with
    | none => cases sign
    | some power =>
      obtain ⟨signs, -, digits⟩ := h.power power rfl
      rcases List.mem_cons.1 sign with rfl | sign
      · exact .inr (by decide)
      · rcases List.mem_cons.1 sign with rfl | digit
        · exact .inr (by rcases signs with eq | eq <;> simp [eq])
        · exact .inl (digits c digit)

theorem IsWhole.ne_nil {digits : List Char} (h : IsWhole digits) : digits ≠ [] := by
  rcases h with rfl | ⟨filled, -, -⟩
  · decide
  · exact filled

theorem wholeDigits_append {digits rest : List Char} (whole : IsWhole digits)
    (stop : ∀ c ∈ rest.head?, c.isDigit = false) : wholeDigits (digits ++ rest) = digits := by
  rcases whole with rfl | ⟨filled, all, noZero⟩
  · rfl
  · obtain ⟨first, others, rfl⟩ := List.exists_cons_of_ne_nil filled
    have apart : first ≠ '0' := by simpa using noZero
    unfold wholeDigits
    split
    · simp_all
    · exact digitsOf_append all stop

theorem Ends.head {rest : List Char} (h : Ends rest) :
    ∀ c ∈ rest.head?, c.isDigit = false ∧ c ≠ '.' ∧ c ≠ 'e' ∧ c ≠ 'E' := by
  intro c mem
  have all : ∀ c ∈ ['\n', ',', ']', '\x7d'], c.isDigit = false ∧ c ≠ '.' ∧ c ≠ 'e' ∧ c ≠ 'E' := by
    decide
  exact all c (h c mem)

theorem fractionDigits_append {fraction rest : List Char} (all : ∀ c ∈ fraction, c.isDigit)
    (stop : ∀ c ∈ rest.head?, c.isDigit = false ∧ c ≠ '.') :
    fractionDigits ((if fraction.isEmpty then [] else '.' :: fraction) ++ rest) = fraction := by
  cases fraction with
  | nil =>
    cases rest with
    | nil => rfl
    | cons c rest =>
      have apart := (stop c rfl).2
      simp only [List.isEmpty_nil, if_true, List.nil_append]
      unfold fractionDigits
      split <;> simp_all
  | cons d fraction =>
    simp only [List.isEmpty_cons, Bool.false_eq_true, if_false, List.cons_append, fractionDigits]
    exact digitsOf_append all fun c mem => (stop c mem).1

/-- The power of ten is read with all its digits, whatever follows. -/
theorem powerOf?_append {power : Option (Char × List Char)} {rest : List Char} (ends : Ends rest)
    (h : ∀ p ∈ power, (p.1 = '+' ∨ p.1 = '-') ∧ p.2 ≠ [] ∧ ∀ c ∈ p.2, c.isDigit) :
    powerOf? (powerChars power ++ rest) = powerOf? (powerChars power) ∧
      (powerOf? (powerChars power)).isSome = power.isSome ∧
      ∀ read ∈ powerOf? (powerChars power), read.2 = (powerChars power).length := by
  have stop : ∀ c ∈ rest.head?, c.isDigit = false := fun c mem => (ends.head c mem).1
  cases power with
  | none =>
    cases rest with
    | nil => simp [powerChars, powerOf?]
    | cons c rest =>
      obtain ⟨-, -, small, capital⟩ := ends.head c rfl
      simp [powerChars, powerOf?, small, capital]
  | some p =>
    obtain ⟨sign, digits⟩ := p
    obtain ⟨signed, filled, all⟩ := h _ rfl
    have onward := digitsOf_append all stop
    have closed : digitsOf digits = digits := by
      simpa using digitsOf_append all (by simp : ∀ c ∈ [].head?, _)
    rcases signed with rfl | rfl <;> (simp [powerChars, powerOf?, onward, closed, filled]; omega)

theorem past_append (offset : Nat) (front rest : List Char) :
    (Rest.mk offset (front ++ rest)).past front.length = ⟨offset + front.length, rest⟩ := by
  simp [Rest.past]

/-- Nothing that may follow the digits of a number goes on with a digit. -/
theorem head_power (power : Option (Char × List Char)) {rest : List Char} (ends : Ends rest) :
    ∀ c ∈ (powerChars power ++ rest).head?, c.isDigit = false ∧ c ≠ '.' := by
  cases power with
  | none => exact fun c mem => ⟨(ends.head c mem).1, (ends.head c mem).2.1⟩
  | some p =>
    rintro _ ⟨⟩
    decide

theorem head_fraction (fraction : List Char) (power : Option (Char × List Char)) {rest : List Char}
    (ends : Ends rest) :
    ∀ c ∈ ((if fraction.isEmpty then [] else '.' :: fraction) ++ (powerChars power ++ rest)).head?,
      c.isDigit = false := by
  cases fraction with
  | nil => exact fun c mem => (head_power power ends c mem).1
  | cons d fraction =>
    rintro _ ⟨⟩
    decide

theorem head_whole {whole rest : List Char} (h : IsWhole whole) :
    (whole ++ rest).head? ≠ some '-' := by
  obtain ⟨first, others, rfl⟩ := List.exists_cons_of_ne_nil h.ne_nil
  have digit := h.all first (List.mem_cons_self ..)
  rintro ⟨⟩
  exact absurd digit (by decide)

/-- The power of ten of the last digit of a number. -/
def exponentOf (fraction : List Char) (power : Option (Char × List Char)) : Int :=
  ((powerOf? (powerChars power)).getD (0, 0)).1 - fraction.length

theorem exponentOf_none (fraction : List Char) :
    exponentOf fraction none = -(fraction.length : Int) := by
  simp [exponentOf, powerOf?, powerChars]

theorem exponentOf_some (fraction : List Char) (negative : Bool) {digits : List Char}
    (all : ∀ c ∈ digits, c.isDigit) (filled : digits ≠ []) :
    exponentOf fraction (.some (if negative then '-' else '+', digits)) =
      (if negative then -(natOf digits : Int) else natOf digits) - fraction.length := by
  have closed : digitsOf digits = digits := by
    simpa using digitsOf_append all (by simp : ∀ c ∈ [].head?, _)
  cases negative <;> simp [exponentOf, powerOf?, powerChars, closed, filled]

/-- Reading a number after its sign: its parts are found one after another. -/
theorem unsigned_eq {whole fraction rest : List Char} {power : Option (Char × List Char)}
    (h : IsNumber whole fraction power) (ends : Ends rest) (start : Rest) (negative : Bool)
    (offset : Nat) :
    ∃ offset', unsigned start negative ⟨offset, numberChars whole fraction power ++ rest⟩ =
      if fraction.isEmpty && power.isNone then
        if whole.length > Text.maxDigits then .error (.numeral (.tooLong whole.length))
        else .ok (.int (if negative then -(natOf whole : Int) else natOf whole), ⟨offset', rest⟩)
      else .ok (.float (.ofDecimal negative (natOf (whole ++ fraction))
          (exponentOf fraction power)), ⟨offset', rest⟩) := by
  have parts : numberChars whole fraction power ++ rest =
      whole ++ ((if fraction.isEmpty then [] else '.' :: fraction) ++
        (powerChars power ++ rest)) := by
    simp [numberChars]
  have whole' := wholeDigits_append h.whole (head_fraction fraction power ends)
  have fraction' := fractionDigits_append h.fraction (head_power power ends)
  have filled : whole.isEmpty = false := by simp [h.whole.ne_nil]
  obtain ⟨after, past⟩ : ∃ after, (if fraction.isEmpty then
        (Rest.mk (offset + whole.length) ((if fraction.isEmpty then [] else '.' :: fraction) ++
          (powerChars power ++ rest)))
      else (Rest.mk (offset + whole.length) ((if fraction.isEmpty then [] else '.' :: fraction) ++
        (powerChars power ++ rest))).past (fraction.length + 1)) = ⟨after,
          powerChars power ++ rest⟩ := by
    cases fraction with
    | nil => exact ⟨offset + whole.length, rfl⟩
    | cons d fraction => exact ⟨_, past_append _ ('.' :: d :: fraction) _⟩
  obtain ⟨same, present, width⟩ := powerOf?_append ends h.power
  rw [parts]
  simp only [unsigned, whole', filled, past_append, fraction', past, same, Bool.false_eq_true,
    if_false, exponentOf]
  cases read : powerOf? (powerChars power) with
  | none =>
    have absent : power = none := by simpa [read] using present.symm
    subst absent
    simp only [powerChars, List.nil_append, Option.getD_none, Option.isNone_none, Bool.and_true]
    exact ⟨after, rfl⟩
  | some found =>
    obtain ⟨exponent, taken⟩ := found
    obtain rfl : taken = (powerChars power).length := width _ read
    have filled : power.isNone = false := by
      cases power <;> simp_all
    simp only [Option.isNone_some, filled, Bool.and_false, Bool.false_eq_true, if_false,
      Option.getD_some]
    exact ⟨after + (powerChars power).length, by rw [past_append]⟩

/-- Reading a number: the sign does not matter for its parts. -/
theorem number_eq {whole fraction rest : List Char} {power : Option (Char × List Char)}
    (h : IsNumber whole fraction power) (ends : Ends rest) (negative : Bool) (offset : Nat) :
    ∃ offset',
      number ⟨offset, (if negative then ['-'] else []) ++
        (numberChars whole fraction power ++ rest)⟩ =
        if fraction.isEmpty && power.isNone then
          if whole.length > Text.maxDigits then .error (.numeral (.tooLong whole.length))
          else .ok (.int (if negative then -(natOf whole : Int) else natOf whole), ⟨offset', rest⟩)
        else .ok (.float (.ofDecimal negative (natOf (whole ++ fraction))
          (exponentOf fraction power)), ⟨offset', rest⟩) := by
  cases negative with
  | true => exact unsigned_eq h ends _ true (offset + 1)
  | false =>
    have noSign : (numberChars whole fraction power ++ rest).head? ≠ some '-' := by
      rw [numberChars, List.append_assoc, List.append_assoc]
      exact head_whole h.whole
    simp only [number, Bool.false_eq_true, if_false, List.nil_append, if_neg noSign]
    exact unsigned_eq h ends _ false offset

/-- What begins like a number is no word. -/
theorem scalar_eq_number {whole rest : List Char} (h : IsWhole whole) (negative : Bool)
    (offset : Nat) : scalar ⟨offset, (if negative then ['-'] else []) ++ (whole ++ rest)⟩ =
      number ⟨offset, (if negative then ['-'] else []) ++ (whole ++ rest)⟩ := by
  obtain ⟨first, others, rfl⟩ := List.exists_cons_of_ne_nil h.ne_nil
  have digit := h.all first (List.mem_cons_self ..)
  have letters : first ≠ 'n' ∧ first ≠ 't' ∧ first ≠ 'f' ∧ first ≠ 'N' ∧ first ≠ 'I' ∧
      first ≠ '-' := by
    refine ⟨?_, ?_, ?_, ?_, ?_, ?_⟩ <;> (rintro rfl; exact absurd digit (by decide))
  obtain ⟨n, t, f, nan, infinity, minus⟩ := letters
  have absent : words.find? (fun w => (Chars.dropHead? w.1 ((if negative then ['-'] else []) ++
      (first :: others ++ rest))).isSome) = none := by
    cases negative <;> simp [words, Chars.dropHead?, n.symm, t.symm, f.symm, nan.symm,
      infinity.symm, minus.symm]
  rw [scalar, absent]

theorem natOf_toDigits (n : Nat) : natOf (Nat.toDigits 10 n) = n := by
  have value := @Nat.ofDigitChars_ten_toDigits n
  rw [Nat.ofDigitChars_eq_foldl] at value
  exact value

theorem natOf_append (front back : List Char) :
    natOf (front ++ back) = natOf front * 10 ^ back.length + natOf back := by
  have fold : ∀ (chars : List Char)
      (n : Nat), chars.foldl (fun n c => 10 * n + (c.toNat - '0'.toNat)) n =
      n * 10 ^ chars.length + natOf chars := by
    intro chars
    induction chars with
    | nil => simp [natOf]
    | cons c chars ih =>
      intro n
      rw [natOf, List.foldl_cons, List.foldl_cons, ih, ih (10 * 0 + _),
        List.length_cons, Nat.pow_succ]
      ring
  rw [natOf, List.foldl_append, fold]
  rfl

theorem natOf_replicate (n : Nat) : natOf (List.replicate n '0') = 0 := by
  induction n with
  | zero => rfl
  | succ n ih => rw [List.replicate_succ', natOf_append, ih]; rfl

theorem isWhole_toDigits (n : Nat) : IsWhole (Nat.toDigits 10 n) := by
  by_cases zero : n = 0
  · subst zero
    exact .inl (Nat.toDigits_zero 10)
  · refine .inr ⟨Nat.toDigits_ne_nil, fun c mem => Nat.isDigit_of_mem_toDigits (by decide)
      (by decide) mem, ?_⟩
    induction n using Nat.strongRecOn with
    | ind n ih =>
      by_cases small : n < 10
      · rw [Nat.toDigits_of_lt_base small]
        have all : ∀ digit : Fin 10, digit.val ≠ 0 → [Nat.digitChar digit].head? ≠ some '0' := by
          decide
        exact all ⟨n, small⟩ zero
      · rw [Nat.toDigits_of_base_le (by decide) (by omega), List.head?_append,
          List.head?_eq_some_head Nat.toDigits_ne_nil, Option.some_or,
          ← List.head?_eq_some_head Nat.toDigits_ne_nil]
        exact ih (n / 10) (by omega) (by omega)

theorem toList_toString_int (value : Int) :
    (toString value).toList = (if decide (value < 0) then ['-'] else []) ++
      Nat.toDigits 10 value.natAbs := by
  cases value with
  | ofNat n => simp [Int.toString_eq_repr, Int.repr]
  | negSucc n => simp [Int.toString_eq_repr, Int.repr]

theorem signed_natAbs (value : Int) :
    (if decide (value < 0) then -(value.natAbs : Int) else value.natAbs) = value := by
  simp only [decide_eq_true_eq]
  split <;> omega

/-- A whole number with few enough digits is read as itself. -/
theorem scalar_int {value : Int} (printable : isPrintable (.int value)) {rest : List Char}
    (ends : Ends rest) (offset : Nat) :
    ∃ offset', scalar ⟨offset, (toString value).toList ++ rest⟩ =
      .ok (.int value, ⟨offset', rest⟩) := by
  have whole := isWhole_toDigits value.natAbs
  have few : ¬ (Nat.toDigits 10 value.natAbs).length > Text.maxDigits := by
    have few : (toString value.natAbs).length ≤ Text.maxDigits := by
      simpa [isPrintable] using printable
    rw [Nat.toString_eq_ofList_toDigits, String.length_ofList] at few
    omega
  have parts : IsNumber (Nat.toDigits 10 value.natAbs) [] none := ⟨whole, by simp, by simp⟩
  obtain ⟨offset', eq⟩ := number_eq parts ends (decide (value < 0)) offset
  have chars :
      numberChars (Nat.toDigits 10 value.natAbs) [] none = Nat.toDigits 10 value.natAbs := by
    simp [numberChars, powerChars]
  rw [chars] at eq
  refine ⟨offset', ?_⟩
  rw [toList_toString_int, List.append_assoc, scalar_eq_number whole, eq, natOf_toDigits]
  simp only [List.isEmpty_nil, Option.isNone_none, Bool.and_self, if_true, if_neg few,
    signed_natAbs]

end Scaffold.Json

namespace Scaffold.Decimal

theorem mem_withoutZeros {digits : List Char} {c : Char} (h : c ∈ withoutZeros digits) :
    c ∈ digits := by
  rw [withoutZeros, List.mem_reverse] at h
  exact List.mem_reverse.1 ((List.dropWhile_sublist _).mem h)

/-- What is left out are zeros. -/
theorem exists_withoutZeros (digits : List Char) :
    ∃ count, digits = withoutZeros digits ++ List.replicate count '0' := by
  have split :
    digits.reverse.takeWhile (· = '0') ++ digits.reverse.dropWhile (· = '0') = digits.reverse :=
    List.takeWhile_append_dropWhile
  have zeros : digits.reverse.takeWhile (· = '0') = List.replicate
    (digits.reverse.takeWhile (· = '0')).length '0' :=
    List.eq_replicate_of_mem fun c mem => by
      simpa using List.all_eq_true.1 List.all_takeWhile c mem
  refine ⟨(digits.reverse.takeWhile (· = '0')).length, ?_⟩
  rw [withoutZeros, ← List.reverse_replicate, ← List.reverse_append, ← zeros, split,
    List.reverse_reverse]

/-- Closing zeros can be left out of a text that does not begin with one. -/
theorem head_withoutZeros {first : Char} (apart : first ≠ '0') (others : List Char) :
    ∃ rest, withoutZeros (first :: others) = first :: rest := by
  have last : (first :: others).reverse = others.reverse ++ [first] := List.reverse_cons ..
  have stop : [first].dropWhile (· = '0') = [first] := by simp [apart]
  rw [withoutZeros, last, List.dropWhile_append]
  split
  · rw [stop]
    exact ⟨[], rfl⟩
  · rw [List.reverse_append]
    exact ⟨_, rfl⟩

/-- Digits of a positive number that do not close with a zero. -/
theorem digits_of_pos {n : Nat} (positive : 0 < n) :
    ∃ first rest, withoutZeros (Nat.toDigits 10 n) = first :: rest ∧ first ≠ '0' ∧
    ∀ c ∈ first :: rest, c.isDigit := by
  rcases Json.isWhole_toDigits n with zero | ⟨filled, all, noZero⟩
  · have value := Json.natOf_toDigits n
    rw [zero] at value
    have absent : Json.natOf ['0'] = 0 := rfl
    omega
  · obtain ⟨first, others, eq⟩ := List.exists_cons_of_ne_nil filled
    have apart : first ≠ '0' := by simpa [eq] using noZero
    obtain ⟨rest, left⟩ := head_withoutZeros apart others
    refine ⟨first, rest, by rw [eq, left], apart, fun c mem => all c ?_⟩
    rw [eq]
    exact mem_withoutZeros (left ▸ mem)

/-- The value of a decimal by its digits without closing zeros and the place of its point. -/
theorem Scientific.value_eq (d : Scientific) {digits : List Char}
    (eq : withoutZeros (Nat.toDigits 10 d.digits) = digits) :
    d.value = Json.natOf digits * 10 ^ (d.power + ((Nat.toDigits 10 d.digits).length : Int)
      - digits.length) := by
  obtain ⟨count, all⟩ := exists_withoutZeros (Nat.toDigits 10 d.digits)
  rw [eq] at all
  have number : d.digits = Json.natOf digits * 10 ^ count := by
    rw [← Json.natOf_toDigits d.digits, all, Json.natOf_append, Json.natOf_replicate,
      List.length_replicate, Nat.add_zero]
  have place :
      d.power + ((Nat.toDigits 10 d.digits).length : Int) - digits.length = count + d.power := by
    rw [all, List.length_append, List.length_replicate]
    push_cast
    ring
  rw [place, value, number, Nat.cast_mul, Nat.cast_pow, Nat.cast_ofNat, mul_assoc,
    zpow_add₀ (by norm_num), zpow_natCast]

/-- A decimal that is not zero is laid out as a floating-point number with its value. -/
theorem Scientific.layout_eq {d : Scientific} (positive : 0 < d.digits) :
    ∃ whole fraction power, Json.IsNumber whole fraction power ∧ (fraction ≠ [] ∨ power ≠ none) ∧
      d.layout = Json.numberChars whole fraction power ∧
      (Json.natOf (whole ++ fraction) : ℚ) * 10 ^ Json.exponentOf fraction power = d.value := by
  have chars : (toString d.digits).toList = Nat.toDigits 10 d.digits := by
    rw [Nat.toString_eq_ofList_toDigits, String.toList_ofList]
  obtain ⟨first, rest, digits, apart, all⟩ := digits_of_pos positive
  have zeros : ∀ n, ∀ c ∈ List.replicate n '0', c.isDigit := by
    intro n c mem
    rw [List.eq_of_mem_replicate mem]
    decide
  rw [d.value_eq digits]
  simp only [layout, chars, digits]
  generalize d.power + ((Nat.toDigits 10 d.digits).length : Int) = point
  split
  · split
    · refine ⟨['0'], List.replicate (-point).toNat '0' ++ first :: rest, none,
        ⟨.inl rfl, ?_, by simp⟩, .inl (by simp), ?_, ?_⟩
      · intro c mem
        exact (List.mem_append.1 mem).elim (zeros _ c) (all c)
      · simp [Json.numberChars, Json.powerChars]
      · have absent : Json.natOf ['0'] = 0 := rfl
        have place : -((List.replicate (-point).toNat '0' ++ first :: rest).length : Int) =
          point - (first :: rest).length := by
          rw [List.length_append, List.length_replicate]
          omega
        rw [Json.natOf_append, Json.natOf_append, absent, Json.natOf_replicate,
          Json.exponentOf_none, place]
        simp
    · rename_i above
      split
      · refine ⟨first :: rest ++ List.replicate (point.toNat - (first :: rest).length) '0', ['0'],
          none, ⟨.inr ⟨by simp, ?_, by simpa using apart⟩, by decide, by simp⟩,
          .inl (by simp), ?_, ?_⟩
        · intro c mem
          exact (List.mem_append.1 mem).elim (all c) (zeros _ c)
        · simp [Json.numberChars, Json.powerChars]
        · have one : Json.natOf ['0'] = 0 := rfl
          have place : point - (first :: rest).length =
              ((point.toNat - (first :: rest).length + 1 : Nat) : Int) + -(['0'].length : Int) := by
            rw [List.length_singleton]
            omega
          rw [Json.natOf_append, Json.natOf_append, one, Json.natOf_replicate,
            Json.exponentOf_none, place, zpow_add₀ (by norm_num), zpow_natCast,
            List.length_replicate, List.length_singleton, pow_succ]
          push_cast
          ring
      · rename_i long
        obtain ⟨count, eq⟩ : ∃ count, point.toNat = count + 1 := ⟨point.toNat - 1, by omega⟩
        refine ⟨(first :: rest).take point.toNat, (first :: rest).drop point.toNat, none,
          ⟨.inr ⟨by simp [eq], fun c mem => all c (List.mem_of_mem_take mem), by
            simpa [eq] using apart⟩, fun c mem => all c (List.mem_of_mem_drop mem), by simp⟩,
            .inl ?_, ?_, ?_⟩
        · rw [ne_eq, List.drop_eq_nil_iff]
          exact long
        · have filled : ((first :: rest).drop point.toNat).isEmpty = false := by
            rw [List.isEmpty_eq_false_iff, ne_eq, List.drop_eq_nil_iff]
            exact long
          simp [Json.numberChars, Json.powerChars, filled]
        · have place : -(((first :: rest).drop point.toNat).length : Int) =
              point - (first :: rest).length := by
            rw [List.length_drop]
            omega
          rw [List.take_append_drop, Json.exponentOf_none, place]
  · have figures : (toString (point - 1).natAbs).toList = Nat.toDigits 10 (point - 1).natAbs := by
      rw [Nat.toString_eq_ofList_toDigits, String.toList_ofList]
    rw [figures]
    have exponent : ∀ c ∈ List.replicate (2 - (Nat.toDigits 10 (point - 1).natAbs).length) '0' ++
        Nat.toDigits 10 (point - 1).natAbs, c.isDigit := by
      intro c mem
      rcases List.mem_append.1 mem with mem | mem
      · exact zeros _ c mem
      · exact Nat.isDigit_of_mem_toDigits (by decide) (by decide) mem
    refine ⟨[first], rest, some (if point - 1 < 0 then '-' else '+',
      List.replicate (2 - (Nat.toDigits 10 (point - 1).natAbs).length) '0' ++ Nat.toDigits 10
        (point - 1).natAbs),
      ⟨.inr ⟨by simp, by simpa using all first (by simp), by simpa using apart⟩, fun c mem =>
        all c (by simp [mem]), ?_⟩,
      .inr (by simp), ?_, ?_⟩
    · rintro _ ⟨⟩
      refine ⟨?_, by simp [Nat.toDigits_ne_nil], exponent⟩
      split
      · exact .inr rfl
      · exact .inl rfl
    · cases rest <;> simp [Json.numberChars, Json.powerChars]
    · have sign : (if point - 1 < 0 then '-' else '+') = if decide (point - 1 < 0) then '-'
        else '+' := by simp
      have place : point - 1 - (rest.length : Int) = point - (first :: rest).length := by
        rw [List.length_cons]
        omega
      rw [sign, Json.exponentOf_some _ _ exponent (by simp [Nat.toDigits_ne_nil]),
        Json.natOf_append (List.replicate _ _), Json.natOf_replicate, Json.natOf_toDigits,
        Nat.zero_mul, Nat.zero_add, Json.signed_natAbs, place]
      rfl

theorem shortest_eq {mantissa : Nat} (positive : 0 < mantissa) (exponent : Int) :
    0 < (shortest mantissa exponent).digits ∨ shortest mantissa exponent = ⟨0, 0⟩ := by
  rw [shortest]
  cases found : (List.range 17).findSome? fun n => onGrid? mantissa exponent (n + 1) with
  | none => exact .inr rfl
  | some d =>
    obtain ⟨n, -, eq⟩ := List.exists_of_findSome?_eq_some found
    rcases onGrid?_cases mantissa exponent (n + 1) with ⟨digits, -, within, taken⟩ | ⟨absent, -, -⟩
    · obtain rfl := Option.some.inj (eq.symm.trans taken)
      exact .inl (within.pos positive)
    · cases (eq.symm.trans absent)

/-- A finite number is written as a floating-point number. If it has the form that rounding gives,
what is written is rounded to it. -/
theorem Binary64.written_eq (negative : Bool) (mantissa : Nat) (exponent : Int) :
    ∃ (whole fraction : List Char) (power : Option (Char × List Char)),
      Json.IsNumber whole fraction power ∧ (fraction ≠ [] ∨ power ≠ none) ∧
      (finite negative mantissa exponent).written.toList =
        (if negative then ['-'] else []) ++ Json.numberChars whole fraction power ∧
      (IsRounded mantissa exponent → ofDecimal negative (Json.natOf (whole ++ fraction))
        (Json.exponentOf fraction power) = finite negative mantissa exponent) := by
  have zero : Json.IsNumber ['0'] ['0'] none := ⟨.inl rfl, by decide, by simp⟩
  suffices body : ∃ whole fraction power, Json.IsNumber whole fraction power ∧
      (fraction ≠ [] ∨ power ≠ none) ∧
      (if mantissa = 0 then ['0', '.', '0'] else (shortest mantissa exponent).layout) =
        Json.numberChars whole fraction power ∧
      (IsRounded mantissa exponent → ofDecimal negative (Json.natOf (whole ++ fraction))
        (Json.exponentOf fraction power) = finite negative mantissa exponent) by
    obtain ⟨whole, fraction, power, parts, floating, eq, back⟩ := body
    refine ⟨whole, fraction, power, parts, floating, ?_, back⟩
    rw [written, eq, String.toList_ofList]
    cases negative <;> simp
  split
  · rename_i absent
    refine ⟨['0'], ['0'], Option.none, zero, .inl (by simp), rfl, fun rounded => ?_⟩
    have least : exponent = minExponent := rounded.full.resolve_left (by rw [absent]; decide)
    rw [absent, least]
    rfl
  · rename_i filled
    have filled := Nat.pos_of_ne_zero filled
    rcases shortest_eq filled exponent with positive | default
    · obtain ⟨whole, fraction, power, parts, floating, eq, value⟩ := Scientific.layout_eq positive
      refine ⟨whole, fraction, power, parts, floating, eq, fun rounded => ?_⟩
      exact ofDecimal_of_within negative filled rounded (value ▸ within_shortest filled rounded)
    · refine ⟨['0'], ['0'], none, zero, .inl (by simp), by rw [default]; decide, fun rounded => ?_⟩
      have within := within_shortest filled rounded
      have nothing : (shortest mantissa exponent).value = 0 := by
        rw [default]; simp [Scientific.value]
      rw [nothing] at within
      refine absurd (within.half filled).1 ?_
      have one : (1 : ℚ) ≤ mantissa := by exact_mod_cast filled
      rw [zero_div, not_le]
      linarith

end Scaffold.Decimal

namespace Scaffold.Json

open Decimal (Binary64)

/-- What the text of a floating-point number is read as. -/
def rereadFloat (value : Binary64) : Json :=
  match scalar ⟨0, floatLiteral value ++ ['\n']⟩ with
  | .ok (read, _) => read
  | .error _ => .null

/-- What a floating-point number is read as does not hang on what follows. -/
theorem exists_scalar_float (value : Binary64) :
    ∃ read, (value.isRounded → read = .float value) ∧ ∀ rest, Ends rest → ∀ offset, ∃ offset',
      scalar ⟨offset, floatLiteral value ++ rest⟩ = .ok (read, ⟨offset', rest⟩) := by
  cases value with
  | nan =>
    exact ⟨.float .nan, fun _ => rfl, fun rest _ offset =>
      ⟨offset + 3, by simp [scalar, words, floatLiteral, Chars.dropHead?, Rest.past]⟩⟩
  | infinite negative =>
    refine ⟨.float (.infinite negative), fun _ => rfl, fun rest _ offset => ?_⟩
    cases negative
    · exact ⟨offset + 8, by simp [scalar, words, floatLiteral, Chars.dropHead?, Rest.past]⟩
    · exact ⟨offset + 9, by simp [scalar, words, floatLiteral, Chars.dropHead?, Rest.past]⟩
  | finite negative mantissa exponent =>
    obtain ⟨whole, fraction, power, parts, floating, written, back⟩ :=
      Binary64.written_eq negative mantissa exponent
    refine ⟨.float (.ofDecimal negative (natOf (whole ++ fraction)) (exponentOf fraction power)),
      fun rounded => congrArg _ (back (Binary64.isRounded_finite.1 rounded)),
      fun rest ends offset => ?_⟩
    obtain ⟨offset', eq⟩ := number_eq parts ends negative offset
    have point : (fraction.isEmpty && power.isNone) = false := by
      rcases floating with h | h
      · simp [h]
      · cases power <;> simp_all
    rw [point, if_neg Bool.false_ne_true] at eq
    refine ⟨offset', Eq.trans ?_ eq⟩
    have chars : floatLiteral (.finite negative mantissa exponent) =
        (if negative then ['-'] else []) ++ numberChars whole fraction power := written
    rw [chars, List.append_assoc, numberChars, List.append_assoc, List.append_assoc]
    exact scalar_eq_number parts.whole negative offset

/-- A floating-point number is read up to its end. -/
theorem scalar_float (value : Binary64) {rest : List Char} (ends : Ends rest) (offset : Nat) :
    ∃ offset', scalar ⟨offset, floatLiteral value ++ rest⟩ = .ok (rereadFloat value,
      ⟨offset', rest⟩) := by
  obtain ⟨read, -, same⟩ := exists_scalar_float value
  obtain ⟨_, here⟩ := same ['\n'] (by simp [Ends]) 0
  obtain ⟨offset', there⟩ := same rest ends offset
  exact ⟨offset', by rw [there, rereadFloat, here]⟩

/-- A number in the form that rounding gives is read as itself: its text determines it. -/
theorem rereadFloat_eq {value : Binary64} (rounded : value.isRounded) :
    rereadFloat value = .float value := by
  obtain ⟨read, eq, same⟩ := exists_scalar_float value
  obtain ⟨_, here⟩ := same ['\n'] (by simp [Ends]) 0
  rw [rereadFloat, here]
  exact eq rounded

end Scaffold.Json
