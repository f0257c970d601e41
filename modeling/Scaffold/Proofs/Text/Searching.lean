import Scaffold.Section

/-!
# Where a text occurs

A text on one line occurs in no two lines at once. So behind the end of a line a search starts
afresh (`Chars.find?_append`, `Chars.findLast?_append`), and blanks in front of a line only shift
what is found.
-/

namespace Scaffold
set_option autoImplicit false

namespace Chars

variable {part text front rest : List Char} {place : Nat}

theorem isSome_dropHead? : (dropHead? part text).isSome = true ↔ part <+: text := by
  rw [Option.isSome_iff_exists]
  exact exists_congr fun rest => dropHead?_eq_some.trans eq_comm

theorem find?_cons (part : List Char) (c : Char) (text : List Char) :
    find? part (c :: text) = if part <+: c :: text then some 0
      else (find? part text).map (· + 1) := by
  simp only [find?, isSome_dropHead?]

theorem findLast?_cons (part : List Char) (c : Char) (text : List Char) :
    findLast? part (c :: text) =
      ((findLast? part text).map (· + 1)).or (if part <+: c :: text then some 0 else none) := by
  simp only [findLast?, isSome_dropHead?]
  cases findLast? part text <;> rfl

theorem find?_nil (filled : part ≠ []) : find? part [] = none := by
  simp [find?, filled]

theorem findLast?_nil (filled : part ≠ []) : findLast? part [] = none := by
  simp [findLast?, filled]

/-- The place that is found is the first one. -/
theorem find?_eq_some : find? part text = some place ↔
    place ≤ text.length ∧ part <+: text.drop place ∧ ∀ earlier < place,
    ¬ part <+: text.drop earlier := by
  induction text generalizing place with
  | nil =>
    simp only [find?, List.drop_nil, List.length_nil, List.prefix_nil, Nat.le_zero]
    by_cases empty : part = []
    · simp only [empty, List.isEmpty_nil, if_true, Option.some.injEq, true_and, not_true,
        imp_false, Nat.not_lt]
      exact ⟨fun here => ⟨here.symm, fun _ => here ▸ Nat.zero_le _⟩, fun here => here.1.symm⟩
    · simp [empty]
  | cons c text ih =>
    rw [find?_cons]
    by_cases here : part <+: c :: text
    · rw [if_pos here, Option.some.injEq]
      constructor
      · rintro rfl
        exact ⟨Nat.zero_le _, here, fun earlier before => absurd before (Nat.not_lt_zero _)⟩
      · rintro ⟨-, -, first⟩
        exact (Nat.eq_zero_or_pos place).elim Eq.symm fun later => absurd here (first 0 later)
    · rw [if_neg here]
      cases place with
      | zero => simp [here]
      | succ place =>
        rw [Option.map_eq_some_iff]
        simp only [Nat.add_right_cancel_iff, exists_eq_right, ih, List.drop_succ_cons,
          List.length_cons, Nat.add_le_add_iff_right]
        refine and_congr_right fun _ => and_congr_right fun _ =>
          ⟨fun first earlier before => ?_, fun first earlier before => ?_⟩
        · cases earlier with
          | zero => exact here
          | succ earlier => exact first earlier (Nat.lt_of_succ_lt_succ before)
        · exact first (earlier + 1) (Nat.succ_lt_succ before)

theorem find?_eq_none : find? part text = none ↔ ¬ part <:+: text := by
  induction text with
  | nil => simp [find?]
  | cons c text ih =>
    rw [find?_cons, List.infix_cons_iff]
    by_cases here : part <+: c :: text
    · simp [here]
    · simp [here, ih]

theorem has_iff : has part text = true ↔ part <:+: text := by
  rw [has, Option.isSome_iff_ne_none, ne_eq, find?_eq_none, Classical.not_not]

theorem findLast?_eq_none : findLast? part text = none ↔ ¬ part <:+: text := by
  induction text with
  | nil => simp [findLast?]
  | cons c text ih =>
    rw [findLast?_cons, List.infix_cons_iff, Option.or_eq_none_iff, Option.map_eq_none_iff, ih]
    by_cases here : part <+: c :: text <;> simp [here]

/-- The place that is found last is one at which the text occurs, and nowhere behind it does it
occur again. -/
theorem of_findLast? (h : findLast? part text = some place) :
    place ≤ text.length ∧ part <+: text.drop place := by
  induction text generalizing place with
  | nil =>
    by_cases empty : part = []
    · obtain rfl : 0 = place := by simpa [findLast?, empty] using h
      simp [empty]
    · simp [findLast?_nil empty] at h
  | cons c text ih =>
    rw [findLast?_cons, Option.or_eq_some_iff] at h
    rcases h with later | ⟨-, here⟩
    · obtain ⟨before, found, rfl⟩ := Option.map_eq_some_iff.1 later
      exact ⟨Nat.succ_le_succ (ih found).1, (ih found).2⟩
    · split at here
      · rename_i first
        obtain rfl := Option.some.inj here
        exact ⟨Nat.zero_le _, first⟩
      · cases here

/-- What is found in the front of a text is found in the text. -/
theorem find?_append_left (h : find? part front = some place) :
    find? part (front ++ rest) = some place := by
  obtain ⟨inside, here, first⟩ := find?_eq_some.1 h
  refine find?_eq_some.2 ⟨by simp; omega, ?_, fun earlier before there => first earlier before ?_⟩
  · rw [List.drop_append_of_le_length inside]
    exact here.trans (List.prefix_append ..)
  · -- an earlier place would be in the front as well
    rw [List.drop_append_of_le_length (by omega)] at there
    have fits := here.length_le
    rw [List.length_drop] at fits
    exact List.prefix_of_prefix_length_le there (List.prefix_append ..)
      (by rw [List.length_drop]; omega)

/-- In front of the first occurrence there is none. -/
theorem find?_take (filled : part ≠ []) (found : find? part text = some place) :
    find? part (text.take place) = none := by
  cases sooner : find? part (text.take place) with
  | none => rfl
  | some earlier =>
    have again : find? part (text.take place ++ text.drop place) = some earlier :=
      find?_append_left sooner
    rw [List.take_append_drop, found] at again
    obtain rfl := Option.some.inj again
    have fits := (find?_eq_some.1 sooner).2.1.length_le
    have long := List.length_pos_iff.2 filled
    rw [List.length_drop, List.length_take] at fits
    omega

/-- A text that is empty or ends with a line feed. -/
def EndsLine (text : List Char) : Prop := text = [] ∨ ∃ line, text = line ++ ['\n']

theorem EndsLine.append (first : EndsLine front) (second : EndsLine rest) :
    EndsLine (front ++ rest) := by
  rcases second with rfl | ⟨line, rfl⟩
  · rwa [List.append_nil]
  · exact .inr ⟨front ++ line, by rw [List.append_assoc]⟩

theorem EndsLine.tail {c : Char} (h : EndsLine (c :: text)) : EndsLine text := by
  rcases h with empty | ⟨line, eq⟩
  · cases empty
  · cases line with
    | nil =>
      obtain ⟨-, rfl⟩ := List.cons.inj eq
      exact .inl rfl
    | cons d line =>
      obtain ⟨-, rfl⟩ := List.cons.inj eq
      exact .inr ⟨line, rfl⟩

theorem EndsLine.drop (h : EndsLine text) (count : Nat) : EndsLine (text.drop count) := by
  induction count generalizing text with
  | zero => exact h
  | succ count ih =>
    cases text with
    | nil => exact .inl rfl
    | cons c text => exact ih h.tail

/-- A line that begins before the end of a line does not go beyond it. -/
theorem EndsLine.prefix_iff (h : EndsLine front) (filled : front ≠ []) (line : '\n' ∉ part) :
    part <+: front ++ rest ↔ part <+: front := by
  refine ⟨fun here => ?_, fun here => here.trans (List.prefix_append ..)⟩
  rcases Nat.le_total part.length front.length with short | long
  · exact List.prefix_of_prefix_length_le here (List.prefix_append ..) short
  · obtain ⟨whole, eq⟩ := List.prefix_of_prefix_length_le (List.prefix_append front rest) here long
    obtain ⟨before, rfl⟩ := h.resolve_left filled
    exact absurd (by rw [← eq]; simp) line

section

variable (filled : part ≠ []) (line : '\n' ∉ part)

include filled line

/-- Behind the end of a line a search starts afresh. -/
theorem find?_append (h : EndsLine front) :
    find? part (front ++ rest) = (find? part front).or
      ((find? part rest).map (· + front.length)) := by
  induction front with
  | nil => simp [find?_nil filled]
  | cons c front ih =>
    have apart : part <+: c :: front ++ rest ↔ part <+: c :: front :=
      h.prefix_iff (List.cons_ne_nil c front) line
    rw [List.cons_append] at apart
    rw [List.cons_append, find?_cons, find?_cons, ih h.tail]
    by_cases here : part <+: c :: front
    · rw [if_pos here, if_pos (apart.2 here), Option.some_or]
    · rw [if_neg here, if_neg fun there => here (apart.1 there)]
      cases find? part front <;> cases find? part rest <;> simp [Nat.add_assoc]

theorem findLast?_append (h : EndsLine front) :
    findLast? part (front ++ rest) = ((findLast? part rest).map (· + front.length)).or
      (findLast? part front) := by
  induction front with
  | nil => simp [findLast?_nil filled]
  | cons c front ih =>
    have apart : part <+: c :: front ++ rest ↔ part <+: c :: front :=
      h.prefix_iff (List.cons_ne_nil c front) line
    rw [List.cons_append] at apart
    rw [List.cons_append, findLast?_cons, findLast?_cons, ih h.tail]
    simp only [apart]
    cases findLast? part front <;> cases findLast? part rest <;> simp [Nat.add_assoc]

end

/-- Blanks and tabs. -/
def AreBlanks (blanks : List Char) : Prop := ∀ c ∈ blanks, c = ' ' ∨ c = '\t'

/-- What begins with a slash does not stand where a blank is. -/
theorem AreBlanks.not_prefix {c : Char} {blanks tail : List Char} (h : AreBlanks (c :: blanks))
    (text : List Char) : ¬ '/' :: tail <+: c :: text := by
  intro here
  have slash := (List.cons_prefix_cons.1 here).1
  rcases h c (List.mem_cons_self ..) with rfl | rfl <;> exact absurd slash (by decide)

/-- Blanks in front of a text shift what is found in it, if that begins with a slash. -/
theorem find?_blanks_append {blanks tail : List Char} (h : AreBlanks blanks) :
    find? ('/' :: tail) (blanks ++ text) = (find? ('/' :: tail) text).map (· + blanks.length) := by
  induction blanks with
  | nil => simp
  | cons c blanks ih =>
    rw [List.cons_append, find?_cons, if_neg (h.not_prefix _), ih fun d mem =>
      h d (List.mem_cons_of_mem c mem), Option.map_map]
    simp [Function.comp_def, Nat.add_assoc]

theorem findLast?_blanks_append {blanks tail : List Char} (h : AreBlanks blanks) :
    findLast? ('/' :: tail) (blanks ++ text) = (findLast? ('/' :: tail) text).map
      (· + blanks.length) := by
  induction blanks with
  | nil => simp
  | cons c blanks ih =>
    rw [List.cons_append, findLast?_cons, if_neg (h.not_prefix _), ih fun d mem =>
      h d (List.mem_cons_of_mem c mem), Option.map_map,
      Option.or_none]
    simp [Function.comp_def, Nat.add_assoc]

/-- A text occurs where it stands. -/
theorem find?_of_prefix (here : part <+: text) : find? part text = some 0 :=
  find?_eq_some.2 ⟨Nat.zero_le _, here, fun _ before => absurd before (Nat.not_lt_zero _)⟩

theorem findFrom?_eq_some {start : Nat} : findFrom? part start text = some place ↔
    ∃ later, find? part (text.drop start) = some later ∧ later + start = place ∧
    start ≤ text.length := by
  rw [findFrom?]
  split
  · rename_i short
    exact iff_of_false (by simp) fun ⟨_, _, _, long⟩ => absurd short (Nat.not_lt.2 long)
  · rename_i long
    rw [Option.map_eq_some_iff]
    exact exists_congr fun later => ⟨fun found => ⟨found.1, found.2, Nat.not_lt.1 long⟩,
      fun found => ⟨found.1, found.2.1⟩⟩

/-- A search that begins behind a text goes through what follows. -/
theorem findFrom?_append (part front rest : List Char) :
    findFrom? part front.length (front ++ rest) = (find? part rest).map (· + front.length) := by
  have inside : ¬ (front ++ rest).length < front.length := by rw [List.length_append]; omega
  rw [findFrom?, if_neg inside, List.drop_left]

/-- The end of a line brings no occurrence of a line with it. -/
theorem not_infix_concat (filled : part ≠ []) (line : '\n' ∉ part) (h : ¬ part <:+: text) :
    ¬ part <:+: text ++ ['\n'] := by
  rw [List.infix_concat_iff]
  rintro (atEnd | inside)
  · have last := atEnd.getLast filled
    rw [List.getLast_concat] at last
    exact line (last ▸ List.getLast_mem filled)
  · exact h inside

section

variable {c : Char}

theorem find?_char_append (apart : c ∉ front) :
    find? [c] (front ++ rest) = (find? [c] rest).map (· + front.length) := by
  induction front with
  | nil => simp
  | cons d front ih =>
    rw [List.mem_cons, not_or] at apart
    have differs : ¬ [c] <+: d :: (front ++ rest) :=
      fun here => apart.1 (List.cons_prefix_cons.1 here).1
    rw [List.cons_append, find?_cons, if_neg differs, ih apart.2, Option.map_map]
    simp [Function.comp_def, Nat.add_assoc]

theorem findLast?_char_append (apart : c ∉ rest) :
    findLast? [c] (front ++ rest) = findLast? [c] front := by
  have absent : findLast? [c] rest = none :=
    findLast?_eq_none.2 fun inside => apart (inside.subset (List.mem_singleton.2 rfl))
  induction front with
  | nil => rw [List.nil_append, absent, findLast?_nil (List.cons_ne_nil c [])]
  | cons d front ih =>
    simp only [List.cons_append, findLast?_cons, ih, List.cons_prefix_cons,
      List.nil_prefix, and_true]

theorem findLast?_concat (front : List Char) :
    findLast? [c] (front ++ [c]) = some front.length := by
  induction front with
  | nil => simp [findLast?_cons, findLast?_nil]
  | cons d front ih => rw [List.cons_append, findLast?_cons, ih]; rfl

/-- Where the line begins that follows a text of whole lines. -/
theorem EndsLine.getD_findLast? (h : EndsLine text) :
    ((findLast? ['\n'] text).map (· + 1)).getD 0 = text.length := by
  rcases h with rfl | ⟨line, rfl⟩
  · rfl
  · rw [findLast?_concat]
    simp

end

end Chars

theorem Text.has_iff {part text : String} :
    has part text = true ↔ part.toList <:+: text.toList := Chars.has_iff

end Scaffold
