import Scaffold.Pattern

/-!
# Patterns with one star

A character that means no more than itself is read as itself. Texts of such characters with a star
between them stand for every text that begins with the one and ends with the other:
`Pattern.covers_star`.
-/

namespace Scaffold.Pattern
set_option autoImplicit false

/-- Only characters that stand for themselves. -/
def IsLiteral (chars : List Char) : Prop := ∀ c ∈ chars, c ≠ '*' ∧ c ≠ '?' ∧ c ≠ '['

theorem isPattern_eq_false {text : String} : isPattern text = false ↔ IsLiteral text.toList := by
  simp [isPattern, IsLiteral, not_or, and_assoc]

theorem IsLiteral.append {front back : List Char} (first : IsLiteral front)
    (second : IsLiteral back) :
    IsLiteral (front ++ back) := fun c mem => (List.mem_append.1 mem).elim (first c) (second c)

/-- Characters in front that stand for themselves are the first parts of a pattern. -/
theorem parts_append {front : List Char} (literal : IsLiteral front) (back : List Char) :
    parts (front ++ back) = front.map .char ++ parts back := by
  induction front with
  | nil => rfl
  | cons c front ih =>
    obtain ⟨first, others⟩ := List.forall_mem_cons.1 literal
    rw [List.cons_append, List.map_cons, List.cons_append, ← ih others]
    rw [parts]
    · exact first.1
    · exact first.2.1
    · exact first.2.2

theorem parts_of_isLiteral {chars : List Char} (literal : IsLiteral chars) :
    parts chars = chars.map .char := by
  have whole := parts_append literal []
  rwa [List.append_nil, parts, List.append_nil] at whole

theorem accepts_char_append {front : List Char} {pattern : Pattern} {text : List Char} :
    accepts (front.map .char ++ pattern) text = true ↔ ∃ rest, text = front ++ rest ∧
    accepts pattern rest = true := by
  induction front generalizing text with
  | nil => simp
  | cons c front ih =>
    cases text with
    | nil => simp [accepts]
    | cons d text =>
      simp only [List.map_cons, List.cons_append, accepts, partAccepts, Bool.and_eq_true,
        decide_eq_true_eq, ih, List.cons.injEq]
      constructor
      · rintro ⟨same, rest, rfl, accepted⟩
        exact ⟨rest, ⟨same, rfl⟩, accepted⟩
      · rintro ⟨rest, ⟨same, rfl⟩, accepted⟩
        exact ⟨same, rest, rfl, accepted⟩

theorem accepts_char {chars text : List Char} :
    accepts (chars.map .char) text = true ↔ text = chars := by
  have whole := @accepts_char_append chars [] text
  rw [List.append_nil] at whole
  rw [whole]
  constructor
  · rintro ⟨rest, rfl, empty⟩
    rw [List.isEmpty_iff.1 empty, List.append_nil]
  · rintro rfl
    exact ⟨[], (List.append_nil _).symm, rfl⟩

theorem someRest_eq_true {f : List Char → Bool} {text : List Char} :
    someRest f text = true ↔ ∃ front back, text = front ++ back ∧ f back = true := by
  induction text with
  | nil =>
    constructor
    · exact fun fits => ⟨[], [], rfl, fits⟩
    · rintro ⟨front, back, eq, fits⟩
      obtain ⟨-, rfl⟩ := List.append_eq_nil_iff.1 eq.symm
      exact fits
  | cons c text ih =>
    simp only [someRest, Bool.or_eq_true, ih]
    constructor
    · rintro (here | ⟨front, back, rfl, later⟩)
      · exact ⟨[], c :: text, rfl, here⟩
      · exact ⟨c :: front, back, rfl, later⟩
    · rintro ⟨front, back, eq, fits⟩
      cases front with
      | nil => exact .inl (eq ▸ fits)
      | cons d front => exact .inr ⟨front, back, (List.cons.inj eq).2, fits⟩

/-- A star between characters that stand for themselves. -/
theorem recognizes_star {front back text : List Char} (first : IsLiteral front)
    (last : IsLiteral back) : recognizes (parts (front ++ '*' :: back)) text = true ↔
    ∃ middle, text = front ++ (middle ++ back) := by
  rw [recognizes_eq_accepts, parts_append first, accepts_char_append, parts,
    parts_of_isLiteral last]
  simp only [accepts, someRest_eq_true, accepts_char]
  constructor
  · rintro ⟨_, rfl, middle, _, rfl, rfl⟩
    exact ⟨middle, rfl⟩
  · rintro ⟨middle, rfl⟩
    exact ⟨_, rfl, middle, back, rfl, rfl⟩

/-- A pattern with one star stands for what begins and ends as it does. -/
theorem covers_star {front back path : String} (first : isPattern front = false)
    (last : isPattern back = false) :
    covers (front ++ "*" ++ back) path = true ↔ ∃ middle, path = front ++ (middle ++ back) := by
  have chars : (front ++ "*" ++ back).toList = front.toList ++ '*' :: back.toList := by simp
  rw [covers, chars, recognizes_star (isPattern_eq_false.1 first) (isPattern_eq_false.1 last)]
  constructor
  · rintro ⟨middle, eq⟩
    exact ⟨String.ofList middle, String.toList_inj.1 (by simp [eq])⟩
  · rintro ⟨middle, rfl⟩
    exact ⟨middle.toList, by simp⟩

/-- A star in front of an ending stands for what ends so. -/
theorem covers_ending {ending path : String} (literal : isPattern ending = false) :
    covers ("*" ++ ending) path = true ↔ ∃ front, path = front ++ ending := by
  simpa using @covers_star "" ending path (by decide) literal

end Scaffold.Pattern
