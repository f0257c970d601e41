import Scaffold.Proofs.Text.Searching
import Scaffold.Text.LetterCase

/-!
# Small letters

Only of a capital sigma the small form depends on the letters around it. So a text without small
sigmas is the small form of a text (`Text.toList_lower_eq_iff`), or the end of one
(`Text.suffix_lower_iff`), just when it is so character by character.
-/

namespace Scaffold
set_option autoImplicit false

theorem Chars.endsWith_iff {tail text : List Char} :
    Chars.endsWith tail text = true ↔ tail <:+ text := by
  rw [Chars.endsWith, Chars.isSome_dropHead?, List.reverse_prefix]

namespace Text

theorem endsWith_iff {tail text : String} :
    endsWith tail text = true ↔ tail.toList <:+ text.toList := Chars.endsWith_iff

/-- The small forms of characters one by one. -/
def smallLetters (text : List Char) : List Char := text.flatMap lowerChar

/-- A sigma as it stands inside a word, in place of one that ends it. -/
def inner (c : Char) : Char := if c = 'ς' then 'σ' else c

/-- Without small sigmas. -/
def IsClear (text : List Char) : Prop := ∀ c ∈ text, c ≠ 'σ' ∧ c ≠ 'ς'

instance (text : List Char) : Decidable (IsClear text) :=
  inferInstanceAs (Decidable (∀ c ∈ text, _))

variable {text word : List Char}

theorem smallLetters_append (text tail : List Char) :
    smallLetters (text ++ tail) = smallLetters text ++ smallLetters tail :=
  List.flatMap_append

/-- A small Latin letter is its own small form. -/
theorem lowerChar_of_isLower {c : Char} (h : c.isLower = true) : lowerChar c = [c] := by
  delta Char.isLower at h
  simp only [Bool.and_eq_true, decide_eq_true_eq, ge_iff_le, UInt32.le_iff_toNat_le] at h
  have code : 97 ≤ c.toNat ∧ c.toNat ≤ 122 := h
  have apart : ∀ r ∈ LetterCase.toLower, r.last < 97 ∨ 122 < r.first := by decide +kernel
  have absent : LetterCase.Run.image? LetterCase.toLower c = none := by
    rw [LetterCase.Run.image?, Option.map_eq_none_iff, List.find?_eq_none]
    intro r mem inside
    simp only [Bool.and_eq_true, decide_eq_true_eq] at inside
    have := apart r mem
    omega
  rw [lowerChar, if_neg (by omega), absent, Option.getD_none]

theorem smallLetters_of_isLower (each : ∀ c ∈ text, c.isLower = true) :
    smallLetters text = text := by
  induction text with
  | nil => rfl
  | cons c text ih =>
    obtain ⟨first, others⟩ := List.forall_mem_cons.1 each
    rw [smallLetters, List.flatMap_cons, lowerChar_of_isLower first, ← smallLetters, ih others,
      List.singleton_append]

theorem isClear_of_isLower (each : ∀ c ∈ text, c.isLower = true) : IsClear text := fun c mem => by
  have letter := each c mem
  constructor <;> (rintro rfl; exact absurd letter (by decide))

/-- Up to the sigmas that end a word, the characters around do not count. -/
theorem map_inner_lowerFrom (before text : List Char) :
    (lowerFrom before text).map inner = (smallLetters text).map inner := by
  induction text generalizing before with
  | nil => rfl
  | cons c text ih =>
    rw [lowerFrom, smallLetters, List.flatMap_cons, List.map_append, List.map_append, ih,
      ← smallLetters]
    congr 1
    split
    · rename_i final
      simp only [Bool.and_eq_true, decide_eq_true_eq] at final
      obtain rfl : c = 'Σ' := Char.toNat_inj.1 final.1.1
      decide
    · rfl

theorem eq_of_inner {c d : Char} (h : inner c = d) (clear : d ≠ 'σ') : c = d := by
  unfold inner at h
  split at h
  · exact absurd h.symm clear
  · exact h

theorem inner_of_clear {c : Char} (clear : c ≠ 'ς') : inner c = c := if_neg clear

theorem map_inner_eq_iff (clear : IsClear text) : word.map inner = text ↔ word = text := by
  induction word generalizing text with
  | nil => rfl
  | cons c word ih =>
    cases text with
    | nil => simp
    | cons d text =>
      obtain ⟨first, others⟩ := List.forall_mem_cons.1 clear
      rw [List.map_cons, List.cons.injEq, List.cons.injEq, ih others]
      refine and_congr_left fun _ => ⟨fun same => eq_of_inner same first.1, ?_⟩
      rintro rfl
      exact inner_of_clear first.2

theorem suffix_map_inner_iff (clear : IsClear text) : text <:+ word.map inner ↔ text <:+ word := by
  constructor
  · rintro ⟨front, whole⟩
    obtain ⟨begun, rest, rfl, -, same⟩ := List.map_eq_append_iff.1 whole.symm
    exact ⟨begun, by rw [(map_inner_eq_iff clear).1 same]⟩
  · intro suffix
    have mapped := suffix.map inner
    rwa [(map_inner_eq_iff clear).2 rfl] at mapped

theorem toList_lower (text : String) : (lower text).toList = lowerFrom [] text.toList :=
  String.toList_ofList

/-- A text without sigmas is the small form of one just when it is so character by character. -/
theorem toList_lower_eq_iff {name : String} (clear : IsClear text) :
    (lower name).toList = text ↔ smallLetters name.toList = text := by
  rw [toList_lower, ← map_inner_eq_iff clear, map_inner_lowerFrom, map_inner_eq_iff clear]

/-- A text without sigmas ends the small form of one just when it does so character by character. -/
theorem suffix_lower_iff {name : String} (clear : IsClear text) :
    text <:+ (lower name).toList ↔ text <:+ smallLetters name.toList := by
  rw [toList_lower, ← suffix_map_inner_iff clear, map_inner_lowerFrom, suffix_map_inner_iff clear]

/-- A text of small Latin letters is its own small form. -/
theorem lower_eq_self {name : String} (each : ∀ c ∈ name.toList, c.isLower = true) :
    lower name = name := by
  rw [← String.toList_inj, toList_lower_eq_iff (isClear_of_isLower each),
    smallLetters_of_isLower each]

end Text
end Scaffold
