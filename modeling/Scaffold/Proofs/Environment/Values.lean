import Mathlib.Data.List.Basic
import Scaffold.Environment
import Scaffold.Proofs.Json.Numbers
import Scaffold.Proofs.Text.Lines

/-!
# Reading values of environment files

A value that stands in quotation marks is read without them, any other as it is. So every text is
read again from the value that it gives (`Environment.unquoted?_value_string`), and its value is on
one line if the text is.
-/

namespace Scaffold.Environment
set_option autoImplicit false

/-- The text in front of a quotation mark that ends the value. A backslash and a quotation mark
stand in it behind a backslash; in front of any other character a backslash stands for itself. -/
def unescaped? : List Char → Option (List Char)
  | ['"'] => some []
  | '\\' :: '\\' :: rest => (unescaped? rest).map ('\\' :: ·)
  | '\\' :: '"' :: rest => (unescaped? rest).map ('"' :: ·)
  | [] | '"' :: _ => none
  | c :: rest => (unescaped? rest).map (c :: ·)

/-- The text that a value gives. -/
def unquoted? (value : String) : Option String :=
  match value.toList with
  | '"' :: rest => (unescaped? rest).map String.ofList
  | _ => some value

theorem unescaped?_escape (text : List Char) :
    unescaped? (Chars.escape ['\\', '"'] text ++ ['"']) = some text := by
  induction text with
  | nil => rfl
  | cons c text ih =>
    rw [Chars.escape_cons]
    by_cases marked : c ∈ ['\\', '"']
    · rw [if_pos marked]
      rcases List.mem_pair.1 marked with rfl | rfl <;> simp [unescaped?, ih]
    · rw [if_neg marked]
      have plain : c ≠ '\\' ∧ c ≠ '"' := by simpa using marked
      rw [List.singleton_append, List.cons_append, unescaped?, ih] <;> simp [plain]

theorem unquoted?_textValue (text : String) : unquoted? (textValue text) = some text := by
  unfold textValue
  split
  · have chars : ("\"" ++ Text.escape ['\\', '"'] text ++ "\"").toList =
        '"' :: (Chars.escape ['\\', '"'] text.toList ++ ['"']) := by
      simp [Text.escape]
    rw [unquoted?, chars]
    simp only [unescaped?_escape, Option.map_some, String.ofList_toList]
  · rename_i plain
    -- a text that needs no marks does not begin with one
    unfold unquoted?
    split
    · rename_i rest chars
      refine absurd (List.any_eq_true.2 ⟨'"', ?_, by decide⟩) plain
      rw [chars]
      exact List.mem_cons_self ..
    · rfl

/-- Every text is read again from its value. -/
theorem unquoted?_value_string (text : String) : unquoted? (value (.string text)) = some text :=
  unquoted?_textValue text

/-- No text gives a value with a carriage return at its end: such a text stands in quotation
marks. -/
theorem getLast?_textValue (text : String) : (textValue text).toList.getLast? ≠ some '\r' := by
  unfold textValue
  split
  · have mark : "\"".toList = ['"'] := rfl
    rw [String.toList_append, mark, List.getLast?_concat]
    decide
  · rename_i plain
    intro last
    exact plain (List.any_eq_true.2 ⟨'\r', List.mem_of_getLast? last, by decide⟩)

theorem getLast?_value (setting : Json) : (value setting).toList.getLast? ≠ some '\r' := by
  cases setting with
  | null => decide
  | bool truth => cases truth <;> decide
  | int number =>
    intro last
    have mem := List.mem_of_getLast? last
    rw [value, Json.toList_toString_int, List.mem_append] at mem
    rcases mem with sign | digit
    · split at sign <;> simp at sign
    · exact absurd (Nat.isDigit_of_mem_toDigits (by decide) (by decide) digit) (by decide)
  | float number =>
    intro last
    have mem := List.mem_of_getLast? last
    cases number with
    | nan => exact absurd mem (by decide)
    | infinite negative => cases negative <;> exact absurd mem (by decide)
    | finite negative mantissa exponent =>
      obtain ⟨whole, fraction, power, parts, -, written, -⟩ :=
        Decimal.Binary64.written_eq negative mantissa exponent
      rw [value, written, List.mem_append] at mem
      rcases mem with sign | body
      · cases negative <;> simp at sign
      · exact absurd (parts.of_mem body) (by decide)
  | string text => exact getLast?_textValue text
  | array items => exact getLast?_textValue _
  | object members => exact getLast?_textValue _

theorem isLine_textValue {text : String} (line : Text.IsLine text) :
    Text.IsLine (textValue text) := by
  have escaped : Text.IsLine (Text.escape ['\\', '"'] text) := by
    intro c mem
    rw [Text.escape, String.toList_ofList, Chars.escape, List.mem_flatMap] at mem
    obtain ⟨d, isChar, mem⟩ := mem
    split at mem
    · rcases List.mem_pair.1 mem with rfl | rfl
      · decide
      · exact line c isChar
    · rw [List.mem_singleton.1 mem]
      exact line d isChar
  unfold textValue
  split
  · rw [Text.isLine_append, Text.isLine_append]
    exact ⟨⟨by decide, escaped⟩, by decide⟩
  · exact line

end Scaffold.Environment
