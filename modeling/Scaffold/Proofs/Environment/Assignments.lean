import Scaffold.Environment
import Scaffold.Proofs.Text.Lines
import Scaffold.Proofs.Text.Pieces
import Scaffold.Proofs.Text.Trimming

/-!
# Lines that assign a key

The line that an update writes for a key assigns that key and no other
(`Environment.assignedKey?_assignment`), also for a key that begins like the word in front of
exported keys, and the value is what stands behind its first equals sign.
-/

namespace Scaffold.Environment
set_option autoImplicit false

/-- A name for a value: a letter or an underscore, then letters, digits and underscores. -/
def isKey (key : String) : Bool :=
  match key.toList with
  | [] => false
  | first :: rest => isKeyStart first && rest.all isKeyChar

/-- The line that sets a key. -/
def assignment (key value : String) : String := key ++ "=" ++ value

/-- Whether a line assigns the key. -/
def assigns (key line : String) : Bool := assignedKey? line == some key

/-- The value on a line that sets a key. -/
def assignedValue? (line : String) : Option String := (Text.cut? '=' line).map (·.2)

section
variable {c : Char} {key line : String}

theorem isKeyChar_of_isKeyStart (h : isKeyStart c = true) : isKeyChar c = true := by
  rcases Bool.or_eq_true_iff.1 h with letter | other
  · exact Bool.or_eq_true_iff.2 (.inl (Bool.or_eq_true_iff.2 (.inl letter)))
  · exact Bool.or_eq_true_iff.2 (.inr other)

/-- The code of a character that a key may hold. -/
theorem toNat_of_isKeyChar (h : isKeyChar c = true) : 48 ≤ c.toNat ∧ c.toNat ≤ 122 := by
  delta isKeyChar Char.isAlphanum Char.isAlpha Char.isUpper Char.isLower Char.isDigit at h
  simp only [Bool.or_eq_true, Bool.and_eq_true, decide_eq_true_eq, ge_iff_le,
    UInt32.le_iff_toNat_le] at h
  have code : c.toNat = c.val.toNat := rfl
  have ends : 'A'.val.toNat = 65 ∧ 'Z'.val.toNat = 90 ∧ 'a'.val.toNat = 97 ∧ 'z'.val.toNat = 122 ∧
      '0'.val.toNat = 48 ∧ '9'.val.toNat = 57 := by decide
  rcases h with letter | rfl
  · omega
  · decide

/-- Characters of keys are in no range that leaves out their codes. -/
theorem not_has_of_isKeyChar {ranges : Text.Ranges} (apart : ∀ r ∈ ranges, r.2 < 48 ∨ 122 < r.1)
    (h : isKeyChar c = true) : ranges.has c = false := by
  have code := toNat_of_isKeyChar h
  refine Bool.eq_false_iff.2 fun inside => ?_
  obtain ⟨r, isRange, within⟩ := Text.Ranges.exists_of_hasCode inside
  have := apart r isRange
  omega

theorem not_isBlank_of_isKeyChar : isKeyChar c = true → Text.isBlank c = false :=
  not_has_of_isKeyChar (by decide)

theorem not_isLineEnd_of_isKeyChar : isKeyChar c = true → Text.isLineEnd c = false :=
  not_has_of_isKeyChar (by decide)

/-- The characters of a key. -/
theorem of_isKey (h : isKey key = true) :
    (∀ c ∈ key.toList, isKeyChar c = true) ∧ ∃ first rest, key.toList = first :: rest ∧
    isKeyStart first = true := by
  unfold isKey at h
  split at h
  · cases h
  · rename_i first rest chars
    obtain ⟨start, others⟩ := Bool.and_eq_true_iff.1 h
    rw [chars]
    exact ⟨List.forall_mem_cons.2 ⟨isKeyChar_of_isKeyStart start, List.all_eq_true.1 others⟩, first,
      rest, rfl, start⟩

/-- What a line assigns is a key. -/
theorem isKey_of_keyBeforeEquals? {chars : List Char} (h : keyBeforeEquals? chars = some key) :
    isKey key = true := by
  simp only [keyBeforeEquals?] at h
  split at h
  · rename_i first rest _ here _
    split at h
    · rename_i start
      obtain rfl := Option.some.inj h
      have all : ∀ c ∈ first :: rest, isKeyChar c = true := by
        rw [← here]
        exact List.all_eq_true.1 List.all_takeWhile
      rw [isKey, here, String.toList_ofList]
      exact Bool.and_eq_true_iff.2 ⟨start, List.all_eq_true.2 fun c mem =>
        all c (List.mem_cons_of_mem first mem)⟩
    · cases h
  · cases h

theorem isKey_of_assignedKey? (h : assignedKey? line = some key) : isKey key = true := by
  simp only [assignedKey?, Option.orElse_eq_orElse, Option.orElse_eq_or, Option.or_eq_some_iff] at h
  rcases h with exported | ⟨-, plain⟩
  · split at exported
    · split at exported
      · exact isKey_of_keyBeforeEquals? exported
      · cases exported
    · cases exported
  · exact isKey_of_keyBeforeEquals? plain

end

section
variable {key : String} (isName : isKey key = true)

include isName

theorem isTrimmed_key : Text.IsTrimmed key where
  first c mem := not_isBlank_of_isKeyChar ((of_isKey isName).1 c (List.mem_of_head? mem))
  last c mem := not_isBlank_of_isKeyChar ((of_isKey isName).1 c (List.mem_of_getLast? mem))

theorem isLine_key : Text.IsLine key :=
  fun c mem => not_isLineEnd_of_isKeyChar ((of_isKey isName).1 c mem)

theorem key_ne_empty : key ≠ "" := by
  obtain ⟨-, first, rest, chars, -⟩ := of_isKey isName
  rintro rfl
  cases chars

theorem not_mem_equals : '=' ∉ key.toList :=
  fun mem => absurd ((of_isKey isName).1 '=' mem) (by decide)

theorem keyBeforeEquals?_append (rest : List Char) :
    keyBeforeEquals? (key.toList ++ '=' :: rest) = some key := by
  obtain ⟨all, first, others, chars, start⟩ := of_isKey isName
  have ends :
      ('=' :: rest).takeWhile isKeyChar = [] ∧ ('=' :: rest).dropWhile isKeyChar = '=' :: rest := by
    constructor <;> rfl
  have equals : ('=' :: rest).dropWhile Text.isBlank = '=' :: rest := rfl
  rw [keyBeforeEquals?, List.takeWhile_append_of_pos all, List.dropWhile_append_of_pos all, ends.1,
    ends.2, List.append_nil, equals]
  simp only [chars, start, if_true]
  rw [← chars, String.ofList_toList]

/-- No white space follows the first letters of a line that sets a key, so what they are does not
matter. -/
theorem not_isBlank_of_append {front rest behind : List Char} {c : Char} (clear : '=' ∉ front)
    (chars : key.toList ++ '=' :: rest = front ++ c :: behind) : Text.isBlank c = false := by
  rcases List.append_eq_append_iff.1 chars with ⟨more, eq, eq'⟩ | ⟨more, eq, eq'⟩
  · cases more with
    | nil =>
      obtain ⟨rfl, -⟩ := List.cons.inj eq'
      decide
    | cons d more =>
      obtain ⟨rfl, -⟩ := List.cons.inj eq'
      exact absurd (by simp [eq]) clear
  · cases more with
    | nil =>
      obtain ⟨rfl, -⟩ := List.cons.inj eq'
      decide
    | cons d more =>
      obtain ⟨rfl, -⟩ := List.cons.inj eq'
      exact not_isBlank_of_isKeyChar ((of_isKey isName).1 c (by simp [eq]))

/-- The line that sets a key assigns it. -/
theorem assignedKey?_assignment (value : String) :
    assignedKey? (assignment key value) = some key := by
  have equals : "=".toList = ['='] := rfl
  have trimmed : Text.IsTrimmed (key ++ "=") := by
    have whole : key ++ "=" = key ++ "" ++ "=" := by rw [String.append_empty]
    have stays : Text.isBlank '=' = false := by decide
    have sign : Text.IsTrimmed "=" := by
      rw [Text.IsTrimmed, equals]
      exact ⟨by simp [stays], by simp [stays]⟩
    rw [whole]
    exact (isTrimmed_key isName).append (key_ne_empty isName) sign (by decide) ""
  have filled : key ++ "=" ≠ "" := fun empty => by simpa using congrArg String.toList empty
  obtain ⟨rest, chars⟩ := trimmed.exists_strip filled value
  rw [String.toList_append, equals, List.append_assoc, List.singleton_append] at chars
  rw [assignedKey?, assignment, chars, keyBeforeEquals?_append isName]
  -- behind the word for exported keys there is no white space
  split
  · rename_i c behind split
    have blank := not_isBlank_of_append isName (by decide) (Chars.dropHead?_eq_some.1 split)
    simp [blank]
  · rfl

theorem assigns_assignment (other value : String) :
    assigns other (assignment key value) = (key == other) := by
  rw [assigns, assignedKey?_assignment isName]
  rfl

theorem assignedValue?_assignment (value : String) :
    assignedValue? (assignment key value) = some value := by
  have chars : (assignment key value).toList = key.toList ++ '=' :: value.toList := by
    simp [assignment]
  rw [assignedValue?, Text.cut?, chars, Chars.cut?_append (not_mem_equals isName)]
  simp

theorem isLine_assignment {value : String} (line : Text.IsLine value) :
    Text.IsLine (assignment key value) := by
  rw [assignment, Text.isLine_append, Text.isLine_append]
  exact ⟨⟨isLine_key isName, by decide⟩, line⟩

end

end Scaffold.Environment
