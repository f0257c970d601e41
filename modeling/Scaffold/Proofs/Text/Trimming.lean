import Mathlib.Data.List.Basic
import Scaffold.Text.Blank

/-!
# Trimming

What is left of a text without the white space at its ends has none there (`Text.isTrimmed_strip`),
and a text that has none there is left as it is (`Text.IsTrimmed.strip_eq`), also in front of
another one (`Text.IsTrimmed.exists_strip`).
-/

namespace Scaffold
set_option autoImplicit false

namespace Chars

variable {drop : Char → Bool} {text front back : List Char}

/-- Neither end of a text is dropped. -/
structure IsTrimmed (drop : Char → Bool) (text : List Char) : Prop where
  first : ∀ c ∈ text.head?, drop c = false
  last : ∀ c ∈ text.getLast?, drop c = false

theorem dropWhile_eq_self (first : ∀ c ∈ text.head?, drop c = false) :
    text.dropWhile drop = text := by
  cases text with
  | nil => rfl
  | cons c rest => rw [List.dropWhile_cons_of_neg (by simp [first c rfl])]

/-- What is left of a text without its dropped beginning starts with a character that stays. -/
theorem of_mem_head?_dropWhile {c : Char} (h : c ∈ (text.dropWhile drop).head?) :
    drop c = false := by
  have stays := List.head?_dropWhile_not drop text
  rwa [Option.mem_def.1 h] at stays

theorem IsTrimmed.trim_eq (h : IsTrimmed drop text) : trim drop text = text := by
  have back : ∀ c ∈ text.reverse.head?, drop c = false := by
    rw [List.head?_reverse]
    exact h.last
  rw [trim, dropWhile_eq_self h.first, dropWhile_eq_self back, List.reverse_reverse]

/-- The end of a text stays when its beginning is dropped. -/
theorem getLast?_dropWhile {c : Char} (h : (text.dropWhile drop).getLast? = some c) :
    text.getLast? = some c := by
  have suffix := List.dropWhile_suffix drop (l := text)
  obtain ⟨front, eq⟩ := suffix
  rw [← eq, List.getLast?_append, h, Option.some_or]

theorem isTrimmed_trim (drop : Char → Bool) (text : List Char) :
    IsTrimmed drop (trim drop text) where
  first c mem := by
    rw [trim, List.head?_reverse] at mem
    have first := getLast?_dropWhile mem
    rw [List.getLast?_reverse] at first
    exact of_mem_head?_dropWhile first
  last c mem := by
    rw [trim, List.getLast?_reverse] at mem
    exact of_mem_head?_dropWhile mem

theorem mem_of_mem_trim {c : Char} (h : c ∈ trim drop text) : c ∈ text := by
  rw [trim, List.mem_reverse] at h
  exact (List.dropWhile_sublist _).mem (List.mem_reverse.1 ((List.dropWhile_sublist _).mem h))

theorem IsTrimmed.append (first : IsTrimmed drop front) (filled : front ≠ [])
    (last : IsTrimmed drop back) (filled' : back ≠ [])
    (middle : List Char) : IsTrimmed drop (front ++ middle ++ back) where
  first c mem := by
    refine first.first c ?_
    rwa [List.append_assoc, List.head?_append_of_ne_nil _ filled] at mem
  last c mem := by
    refine last.last c ?_
    rwa [List.getLast?_append_of_ne_nil _ filled'] at mem

/-- Characters in front that are not dropped keep their place, whatever follows them. -/
theorem IsTrimmed.prefix_trim (h : IsTrimmed drop front) (filled : front ≠ []) (back : List Char) :
    front <+: trim drop (front ++ back) := by
  have first : (front ++ back).dropWhile drop = front ++ back := by
    refine dropWhile_eq_self fun c mem => h.first c ?_
    rwa [List.head?_append_of_ne_nil _ filled] at mem
  have last : front.reverse.dropWhile drop = front.reverse := by
    refine dropWhile_eq_self fun c mem => h.last c ?_
    rwa [List.head?_reverse] at mem
  rw [trim, first, List.reverse_append, List.dropWhile_append, last]
  split
  · exact ⟨[], by rw [List.append_nil, List.reverse_reverse]⟩
  · rw [List.reverse_append, List.reverse_reverse]
    exact List.prefix_append ..

end Chars

namespace Text

/-- No white space stands at the ends of a text. -/
def IsTrimmed (text : String) : Prop := Chars.IsTrimmed isBlank text.toList

variable {text front back : String}

@[simp]
theorem strip_empty : strip "" = "" := rfl

theorem IsTrimmed.strip_eq (h : IsTrimmed text) : strip text = text := by
  rw [strip, Chars.IsTrimmed.trim_eq h, String.ofList_toList]

theorem isTrimmed_strip (text : String) : IsTrimmed (strip text) := by
  rw [IsTrimmed, strip, String.toList_ofList]
  exact Chars.isTrimmed_trim isBlank text.toList

theorem mem_of_mem_strip {c : Char} (h : c ∈ (strip text).toList) : c ∈ text.toList := by
  rw [strip, String.toList_ofList] at h
  exact Chars.mem_of_mem_trim h

theorem IsTrimmed.append (first : IsTrimmed front) (filled : front ≠ "") (last : IsTrimmed back)
    (filled' : back ≠ "") (middle : String) : IsTrimmed (front ++ middle ++ back) := by
  rw [IsTrimmed, String.toList_append, String.toList_append]
  exact Chars.IsTrimmed.append first (mt String.toList_eq_nil_iff.1 filled) last
    (mt String.toList_eq_nil_iff.1 filled') _

/-- A beginning without white space at its ends stays in front when the rest is trimmed. -/
theorem IsTrimmed.exists_strip (h : IsTrimmed front) (filled : front ≠ "") (back : String) :
    ∃ rest, (strip (front ++ back)).toList = front.toList ++ rest := by
  obtain ⟨rest, whole⟩ := h.prefix_trim (mt String.toList_eq_nil_iff.1 filled) back.toList
  exact ⟨rest, by rw [strip, String.toList_ofList, String.toList_append, whole]⟩

theorem isBlankText_eq_false : isBlankText text = false ↔ ∃ c ∈ text.toList, isBlank c = false := by
  simp [isBlankText]

/-- A trimmed text that is not empty is not blank. -/
theorem IsTrimmed.isBlankText_eq (h : IsTrimmed text) (filled : text ≠ "") :
    isBlankText text = false := by
  obtain ⟨c, rest, chars⟩ := List.exists_cons_of_ne_nil (mt String.toList_eq_nil_iff.1 filled)
  have first : isBlank c = false := h.first c (by rw [chars]; rfl)
  simp [isBlankText, chars, first]

end Text
end Scaffold
