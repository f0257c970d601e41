import Mathlib.Data.List.Basic
import Scaffold.Naming

/-!
# Names of small words

What a name becomes with underscores is words of small letters and digits (`Naming.isSnake_snake`),
and a name of such words stays as it is (`Naming.IsSnake.snake_eq`).
-/

namespace Scaffold.Naming
set_option autoImplicit false

/-- A small Latin letter or a digit. -/
def isSmall (c : Char) : Bool := c.isLower || c.isDigit

/-- A run of characters of one kind, one at least. -/
structure IsRun (kind : Char → Bool) (word : List Char) : Prop where
  filled : word ≠ []
  each : ∀ c ∈ word, kind c = true

/-- Nothing, or runs of small letters and digits with one underscore between every two. -/
def IsSnake (name : String) : Prop :=
  ∃ words, (∀ word ∈ words, IsRun isSmall word) ∧ name.toList = ['_'].intercalate words

section
variable {c : Char}

/-- What holds of the letters and digits among the first 128 characters holds of all. -/
theorem of_isAlphanum (p : Char → Bool)
    (each : ∀ code < 128, (Char.ofNat code).isAlphanum = true → p (Char.ofNat code) = true)
    (h : c.isAlphanum = true) : p c = true := by
  have first : c.toNat < 128 := by
    delta Char.isAlphanum Char.isAlpha Char.isUpper Char.isLower Char.isDigit at h
    simp only [Bool.or_eq_true, Bool.and_eq_true, decide_eq_true_eq, ge_iff_le,
      UInt32.le_iff_toNat_le] at h
    have code : c.toNat = c.val.toNat := rfl
    have ends : 'Z'.val.toNat = 90 ∧ 'z'.val.toNat = 122 ∧ '9'.val.toNat = 57 := by decide
    omega
  have holds := each c.toNat first
  rw [Char.ofNat_toNat] at holds
  exact holds h

theorem isAlphanum_of_isAlpha (h : c.isAlpha = true) : c.isAlphanum = true :=
  Bool.or_eq_true_iff.2 (.inl h)

theorem isAlphanum_of_isSmall (h : isSmall c = true) : c.isAlphanum = true := by
  rcases Bool.or_eq_true_iff.1 h with letter | digit
  · exact isAlphanum_of_isAlpha (Bool.or_eq_true_iff.2 (.inr letter))
  · exact Bool.or_eq_true_iff.2 (.inr digit)

theorem isSmall_toLower (h : c.isAlphanum = true) : isSmall c.toLower = true :=
  of_isAlphanum (isSmall ·.toLower) (by decide) h

theorem isUpper_eq_false (h : isSmall c = true) : c.isUpper = false := by
  have apart :=
    of_isAlphanum (fun c => !(isSmall c && c.isUpper)) (by decide) (isAlphanum_of_isSmall h)
  simpa [h] using apart

theorem toLower_eq_self (h : isSmall c = true) : c.toLower = c := by
  have apart :=
    of_isAlphanum (fun c => !isSmall c || c.toLower == c) (by decide) (isAlphanum_of_isSmall h)
  simpa [h] using apart

end

variable {word rest : List Char} {words : List (List Char)} {name : String}

theorem isRun_reverse {kind : Char → Bool} (filled : ¬ word.isEmpty = true)
    (each : ∀ c ∈ word, kind c = true) : IsRun kind word.reverse :=
  ⟨by simpa using filled, fun c mem => each c (List.mem_reverse.1 mem)⟩

/-- The words of a name are runs of letters and digits. -/
theorem isRun_of_mem_wordsFrom {found : List Char} (each : ∀ c ∈ word, c.isAlphanum = true)
    (mem : found ∈ wordsFrom word rest) : IsRun Char.isAlphanum found := by
  induction word, rest using wordsFrom.induct with
  | case1 word empty => simp [wordsFrom, empty] at mem
  | case2 word some =>
    rw [wordsFrom, if_neg some, List.mem_singleton] at mem
    exact mem ▸ isRun_reverse some each
  | case3 c rest letter ih =>
    rw [wordsFrom, if_pos letter] at mem
    exact ih (by simpa using letter) mem
  | case4 c rest letter before tail begins ih =>
    rw [wordsFrom, if_pos letter, if_pos begins] at mem
    rcases List.mem_cons.1 mem with rfl | mem
    · exact isRun_reverse (by simp) each
    · exact ih (by simpa using letter) mem
  | case5 c rest letter before tail goesOn ih =>
    rw [wordsFrom, if_pos letter, if_neg goesOn] at mem
    exact ih (List.forall_mem_cons.2 ⟨letter, each⟩) mem
  | case6 word c rest other empty ih =>
    rw [wordsFrom.eq_def] at mem
    simp only [if_neg other, if_pos empty] at mem
    exact ih (by simp) mem
  | case7 word c rest other some ih =>
    rw [wordsFrom.eq_def] at mem
    simp only [if_neg other, if_neg some] at mem
    rcases List.mem_cons.1 mem with rfl | mem
    · exact isRun_reverse some each
    · exact ih (by simp) mem

theorem isSnake_snake (name : String) : IsSnake (snake name) := by
  refine ⟨_, fun word mem => ?_, String.toList_ofList⟩
  obtain ⟨found, isWord, rfl⟩ := List.mem_map.1 mem
  obtain ⟨filled, each⟩ := isRun_of_mem_wordsFrom (by simp) isWord
  refine ⟨by simpa using filled, fun c mem => ?_⟩
  obtain ⟨d, isChar, rfl⟩ := List.mem_map.1 mem
  exact isSmall_toLower (each d isChar)

/-- No word begins at a small letter or a digit. -/
theorem wordsFrom_cons {c : Char} (small : isSmall c = true) (word rest : List Char) :
    wordsFrom word (c :: rest) = wordsFrom (c :: word) rest := by
  have letter := isAlphanum_of_isSmall small
  cases word with
  | nil => rw [wordsFrom, if_pos letter]
  | cons before tail =>
    have goesOn : ¬ beginsWord before c rest.head? = true := by
      simp [beginsWord, isUpper_eq_false small]
    rw [wordsFrom, if_pos letter, if_neg goesOn]

theorem wordsFrom_append (small : ∀ c ∈ word, isSmall c = true) (before rest : List Char) :
    wordsFrom before (word ++ rest) = wordsFrom (word.reverse ++ before) rest := by
  induction word generalizing before with
  | nil => rfl
  | cons c word ih =>
    obtain ⟨first, others⟩ := List.forall_mem_cons.1 small
    rw [List.cons_append, wordsFrom_cons first, ih others, List.reverse_cons, List.append_assoc,
      List.singleton_append]

theorem wordsFrom_underscore (filled : ¬ word.isEmpty = true) (rest : List Char) :
    wordsFrom word ('_' :: rest) = word.reverse :: wordsFrom [] rest := by
  have other : ¬ '_'.isAlphanum = true := by decide
  rw [wordsFrom.eq_def]
  simp only [if_neg other, if_neg filled]

/-- Small words between underscores are found again. -/
theorem wordsFrom_intercalate (each : ∀ word ∈ words, IsRun isSmall word) :
    wordsFrom [] (['_'].intercalate words) = words := by
  induction words with
  | nil => rfl
  | cons word words ih =>
    obtain ⟨first, others⟩ := List.forall_mem_cons.1 each
    have filled : ¬ word.reverse.isEmpty = true := by simpa using first.filled
    cases words with
    | nil =>
      have read := wordsFrom_append first.each [] []
      rw [List.append_nil, List.append_nil] at read
      rw [List.intercalate_singleton, read, wordsFrom, if_neg filled, List.reverse_reverse]
    | cons next words =>
      rw [List.intercalate_cons_cons, List.append_assoc, wordsFrom_append first.each,
        List.append_nil, List.singleton_append, wordsFrom_underscore filled, ih others,
        List.reverse_reverse]

/-- A name of small words stays as it is. -/
theorem IsSnake.snake_eq (h : IsSnake name) : snake name = name := by
  obtain ⟨words, each, whole⟩ := h
  have same : words.map (·.map Char.toLower) = words := by
    refine (List.map_congr_left fun word mem => ?_).trans (List.map_id words)
    exact (List.map_congr_left fun c isChar =>
      toLower_eq_self ((each word mem).each c isChar)).trans (List.map_id word)
  rw [snake, whole, wordsFrom_intercalate each, same, ← whole, String.ofList_toList]

end Scaffold.Naming
