import Scaffold.Json.Printer
import Scaffold.Json.Reader

/-!
# Strings of JSON documents

A printed string is read back: every character that stands behind a backslash or by the numbers of
its units becomes itself again. The main statement is `Json.stringFrom_literal`.
-/

namespace Scaffold
set_option autoImplicit false

namespace Text

/-- The last of several hexadecimal digits. -/
theorem hex_succ (width n : Nat) :
    hex (width + 2) n = hex (width + 1) (n / 16) ++ [Nat.digitChar (n % 16)] := by
  by_cases small : n < 16
  · have zero : n / 16 = 0 := by omega
    rw [hex, hex, Nat.toDigits_of_lt_base small, zero, Nat.toDigits_zero, Nat.mod_eq_of_lt small]
    simp [List.replicate_succ']
  · have large : 16 ≤ n := by omega
    simp only [hex, Nat.toDigits_of_base_le (by decide) large, List.length_append,
      List.length_singleton]
    rw [show width + 2 - ((Nat.toDigits 16 (n / 16)).length + 1) =
      width + 1 - (Nat.toDigits 16 (n / 16)).length by omega,
      List.append_assoc]

end Text

namespace Json

open Text (hex)

theorem hexDigit?_digitChar {digit : Nat} (h : digit < 16) :
    hexDigit? (Nat.digitChar digit) = some digit := by
  have all : ∀ digit : Fin 16, hexDigit? (Nat.digitChar digit) = some digit.val := by decide
  exact all ⟨digit, h⟩

/-- Four hexadecimal digits are read as the number they were made of. -/
theorem hex_four {unit : Nat} (h : unit < 0x10000) :
    ∃ a b c d, hex 4 unit = [a, b, c, d] ∧ hexUnit? a b c d = some unit := by
  have first : hex 1 (unit / 16 / 16 / 16) = [Nat.digitChar (unit / 16 / 16 / 16)] := by
    simp [hex, Nat.toDigits_of_lt_base (show unit / 16 / 16 / 16 < 16 by omega)]
  refine ⟨_, _, _, _, by rw [Text.hex_succ, Text.hex_succ, Text.hex_succ, first]; rfl, ?_⟩
  simp only [hexUnit?, hexDigit?_digitChar (show unit / 16 / 16 / 16 < 16 by omega),
    hexDigit?_digitChar (Nat.mod_lt _ (show 0 < 16 by decide)), bind, Option.bind, pure]
  congr 1
  omega

theorem unitChar_toNat {c : Char} (h : c.toNat < 0x10000) :
    isHighSurrogate c.toNat = false ∧ unitChar c.toNat = c := by
  have apart : ¬ (0xD800 ≤ c.toNat ∧ c.toNat < 0xE000) := by
    have valid := c.valid
    simp only [UInt32.isValidChar, Nat.isValidChar] at valid
    have eq : c.toNat = c.val.toNat := rfl
    omega
  have high : isHighSurrogate c.toNat = false := by
    simp only [isHighSurrogate, Bool.and_eq_false_iff, decide_eq_false_iff_not]
    omega
  have low : isLowSurrogate c.toNat = false := by
    simp only [isLowSurrogate, Bool.and_eq_false_iff, decide_eq_false_iff_not]
    omega
  exact ⟨high, by simp [unitChar, high, low]⟩

theorem joinSurrogates_of_toNat {c : Char} (h : 0x10000 ≤ c.toNat) :
    joinSurrogates (0xD800 + (c.toNat - 0x10000) / 0x400)
      (0xDC00 + (c.toNat - 0x10000) % 0x400) = c := by
  rw [joinSurrogates, show 0x10000 + (0xD800 + (c.toNat - 0x10000) / 0x400 - 0xD800) * 0x400 +
    (0xDC00 + (c.toNat - 0x10000) % 0x400 - 0xDC00) = c.toNat by omega]
  exact Char.ofNat_toNat c

/-- What belongs to an escape that was read is passed over. -/
theorem stringFrom_past (start : Nat) (before : List Char) (offset : Nat)
    (passed rest : List Char) : stringFrom start passed.length before offset (passed ++ rest) =
      stringFrom start 0 before (offset + passed.length) rest := by
  induction passed generalizing offset with
  | nil => rfl
  | cons c passed ih =>
    simp only [List.length_cons, List.cons_append, stringFrom]
    rw [ih]
    congr 1
    omega

theorem stringFrom_escape {start offset : Nat} {before passed rest : List Char} {c : Char}
    (h : escape offset (passed ++ rest) = .ok (c, passed.length)) (filled : passed ++ rest ≠ []) :
    stringFrom start 0 before offset ('\\' :: passed ++ rest) =
      stringFrom start 0 (c :: before) (offset + 1 + passed.length) rest := by
  rw [List.cons_append, stringFrom, if_neg (by decide), if_pos rfl,
    if_neg (by simpa using filled), h]
  exact stringFrom_past ..

/-- The number of a character is read as that character, a pair of units as one. -/
theorem escape_numberEscape (c next : Char) (rest : List Char) (offset : Nat) :
    ∃ passed, numberEscape c = '\\' :: passed ∧
      escape offset (passed ++ next :: rest) = .ok (c, passed.length) := by
  have bound : c.toNat < 0x110000 := by
    have valid := c.valid
    simp only [UInt32.isValidChar, Nat.isValidChar] at valid
    have eq : c.toNat = c.val.toNat := rfl
    omega
  by_cases small : c.toNat < 0x10000
  · obtain ⟨x, y, z, w, digits, unit⟩ := hex_four small
    obtain ⟨single, self⟩ := unitChar_toNat small
    refine ⟨['u', x, y, z, w], by simp [numberEscape, small, unitEscape, digits], ?_⟩
    simp only [List.cons_append, List.nil_append, escape, unit, single]
    split
    · simp [self]
    · simp [self]
  · have large : 0x10000 ≤ c.toNat := by omega
    obtain ⟨x, y, z, w, digits, high⟩ :=
      hex_four (show 0xD800 + (c.toNat - 0x10000) / 0x400 < 0x10000 by omega)
    obtain ⟨x', y', z', w', digits', low⟩ :=
      hex_four (show 0xDC00 + (c.toNat - 0x10000) % 0x400 < 0x10000 by omega)
    have isHigh : isHighSurrogate (0xD800 + (c.toNat - 0x10000) / 0x400) = true := by
      simp only [isHighSurrogate, Bool.and_eq_true, decide_eq_true_eq]
      omega
    have isLow : isLowSurrogate (0xDC00 + (c.toNat - 0x10000) % 0x400) = true := by
      simp only [isLowSurrogate, Bool.and_eq_true, decide_eq_true_eq]
      omega
    refine ⟨['u', x, y, z, w, '\\', 'u', x', y', z', w'],
      by simp [numberEscape, small, unitEscape, digits, digits'], ?_⟩
    simp only [List.cons_append, List.nil_append, escape, high, low, isHigh, isLow,
      joinSurrogates_of_toNat large, if_true]
    rfl

/-- One printed character is read as itself. -/
theorem stringFrom_stringChar (ascii : Bool) (start offset : Nat) (before : List Char)
    (c next : Char) (rest : List Char) :
    ∃ offset', stringFrom start 0 before offset (stringChar ascii c ++ next :: rest) =
      stringFrom start 0 (c :: before) offset' (next :: rest) := by
  have letter : ∀ mark, mark ≠ 'u' → escapedChar? mark = some c →
      ∃ offset', stringFrom start 0 before offset (['\\', mark] ++ next :: rest) =
        stringFrom start 0 (c :: before) offset' (next :: rest) := by
    intro mark apart stands
    have read : escape offset ([mark] ++ next :: rest) = .ok (c, [mark].length) := by
      simp only [List.cons_append, List.nil_append, List.length_singleton]
      unfold escape
      split <;> simp_all
    exact ⟨_, stringFrom_escape read (by simp)⟩
  unfold stringChar
  split
  · rename_i mark
    rcases Bool.or_eq_true_iff.1 mark with h | h <;> (obtain rfl := of_decide_eq_true h) <;>
      exact letter _ (by decide) (by decide)
  repeat' split
  all_goals try (subst_vars; exact letter _ (by decide) (by decide))
  · obtain ⟨passed, eq, read⟩ := escape_numberEscape c next rest offset
    rw [eq]
    exact ⟨_, stringFrom_escape read (by simp)⟩
  · rename_i special _ _ _ _ _ numbered
    simp only [Bool.or_eq_true, decide_eq_true_eq, not_or] at special numbered
    refine ⟨offset + 1, ?_⟩
    rw [List.singleton_append, stringFrom, if_neg special.1, if_neg special.2, if_neg numbered.1]

/-- A printed string is read up to its closing mark. -/
theorem stringFrom_literal (ascii : Bool) (start offset : Nat) (text : String) (rest : List Char) :
    ∃ offset', stringFrom start 0 [] offset (text.toList.flatMap (stringChar ascii) ++
      '"' :: rest) = .ok (text, ⟨offset', rest⟩) := by
  have fold : ∀ (chars before : List Char) (offset : Nat), ∃ offset',
      stringFrom start 0 before offset (chars.flatMap (stringChar ascii) ++ '"' :: rest) =
        .ok (String.ofList (before.reverse ++ chars), ⟨offset', rest⟩) := by
    intro chars
    induction chars with
    | nil => exact fun before offset => ⟨offset + 1, by simp [stringFrom]⟩
    | cons c chars ih =>
      intro before offset
      obtain ⟨next, others, eq⟩ :
        ∃ next others, chars.flatMap (stringChar ascii) ++ '"' :: rest = next :: others :=
        List.exists_cons_of_ne_nil (by simp)
      obtain ⟨past, read⟩ := stringFrom_stringChar ascii start offset before c next others
      obtain ⟨offset', done⟩ := ih (c :: before) past
      refine ⟨offset', ?_⟩
      rw [List.flatMap_cons, List.append_assoc, eq, read, ← eq, done]
      simp
  obtain ⟨offset', done⟩ := fold text.toList [] offset
  exact ⟨offset', by simpa using done⟩

end Json
end Scaffold
