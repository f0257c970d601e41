import Scaffold.Definition.Field
import Scaffold.Proofs.Outcomes
import Scaffold.Proofs.Text.Numerals
import Scaffold.Proofs.Text.Pieces

/-!
# Decimal fields whose digits spell no number

A field definition is read, or it is malformed. The one definition that is neither has the type of a
decimal number with digits for precision and scale that spell no number:
`Field.numeral_iff_isUnreadable`.
-/

namespace Scaffold
set_option autoImplicit false

namespace Text

/-- Decimal digits, and not too many to be read. -/
def AreReadable (digits : String) : Prop :=
  (∀ c ∈ digits.toList, isDecimalDigit c = true) ∧ digits.toList.length ≤ maxDigits

end Text

namespace Field

open Text (AreReadable)

/-- A definition with digits for precision and scale that spell no number: superscripts and circled
digits, or too many of them. -/
def IsUnreadable (definition : String) : Prop :=
  ∃ first tokens name params precision scale, Text.split '|' definition = first :: tokens ∧
    Text.cut? ':' (Text.strip first) = some (name, params) ∧ Text.strip name = "decimal" ∧
    (Text.split ',' params).map Text.strip = [precision, scale] ∧
    (Text.isDigits precision = true ∧ Text.isDigits scale = true) ∧
    ¬ (AreReadable precision ∧ AreReadable scale)

variable {definition params segment typeName : String} {e : Text.NumeralError}

theorem readDigits_eq_error {digits : String} (h : Text.isDigits digits = true) :
    (∃ e, readDigits digits = .error e) ↔ ¬ AreReadable digits := by
  rw [AreReadable, ← Text.readInteger_of_isDigits h, readDigits]
  cases Text.readInteger digits <;> simp [Except.map]

theorem parseDecimal_numeral : (∃ e, parseDecimal definition params = .error (.numeral e)) ↔
    ∃ precision scale, (Text.split ',' params).map Text.strip = [precision, scale] ∧
      (Text.isDigits precision = true ∧ Text.isDigits scale = true) ∧
      ¬ (AreReadable precision ∧ AreReadable scale) := by
  unfold parseDecimal
  dsimp only
  split
  · rename_i precision scale parts
    have only : (∃ precision' scale', [precision, scale] = [precision', scale'] ∧
        (Text.isDigits precision' = true ∧ Text.isDigits scale' = true) ∧
        ¬ (AreReadable precision' ∧ AreReadable scale')) ↔
        (Text.isDigits precision = true ∧ Text.isDigits scale = true) ∧
        ¬ (AreReadable precision ∧ AreReadable scale) := by
      simp
    rw [parts, only]
    by_cases digits : Text.isDigits precision = true ∧ Text.isDigits scale = true
    · have first := readDigits_eq_error digits.1
      have second := readDigits_eq_error digits.2
      rw [if_neg (by simp [digits]), and_iff_right digits, not_and_or, ← first, ← second]
      cases readDigits precision with
      | error e => simp
      | ok p =>
        cases readDigits scale with
        | error e => simp
        | ok s => by_cases small : p < 1 <;> simp [small]
    · have others : (!(Text.isDigits precision && Text.isDigits scale)) = true := by
        rw [Bool.not_eq_true', Bool.eq_false_iff, ne_eq, Bool.and_eq_true]
        exact digits
      rw [if_pos others]
      simp [digits]
  · rename_i parts apart
    refine iff_of_false (by simp) ?_
    rintro ⟨precision, scale, eq, -⟩
    exact apart _ _ eq

/-- Parameters of a type that is not that of a decimal number are read or malformed. -/
theorem parseParams_ne_numeral {given : Option String} (apart : typeName ≠ "decimal") :
    parseParams definition segment typeName given ≠ .error (.numeral e) := by
  have type : FieldType.ofName? typeName ≠ some .decimal := by
    intro typed
    have named := @List.find?_some _ (fun t : FieldType => t.name == typeName) _ _ typed
    exact apart (beq_iff_eq.1 named).symm
  unfold parseParams
  dsimp only
  split
  · split <;> simp
  · split
    · simp
    · rename_i params
      unfold parseValues
      dsimp only
      split <;> simp [Except.map]
  · rename_i typed
    exact absurd typed type
  · simp
  · simp
  · simp

/-- Only the parameters of a decimal number can spell no number. -/
theorem parseParams_numeral {given : Option String} :
    (∃ e, parseParams definition segment typeName given = .error (.numeral e)) ↔
    ∃ params, typeName = "decimal" ∧ given = some params ∧
    ∃ e, parseDecimal definition params = .error (.numeral e) := by
  by_cases apart : typeName = "decimal"
  · subst apart
    have type : FieldType.ofName? "decimal" = some .decimal := by decide
    cases given with
    | none => simp [parseParams, type]
    | some params => simp [parseParams, type, map_eq_error]
  · refine iff_of_false ?_ ?_
    · rintro ⟨e, is⟩
      exact parseParams_ne_numeral apart is
    · rintro ⟨params, is, -⟩
      exact apart is

/-- Nothing is left of a blank text. -/
theorem strip_of_isBlankText {text : String} (h : ∀ c ∈ text.toList, Text.isBlank c = true) :
    Text.strip text = "" := by
  have all : text.toList.dropWhile Text.isBlank = [] := by
    have absent : (text.toList ++ []).dropWhile Text.isBlank = [].dropWhile Text.isBlank :=
      List.dropWhile_append_of_pos h
    simpa using absent
  simp [Text.strip, Chars.trim, all]

/-- A definition is neither read nor malformed exactly when its digits spell no number. -/
theorem numeral_iff_isUnreadable :
    (∃ e, parse definition = .error (.numeral e)) ↔ IsUnreadable definition := by
  have blank (isBlank : Text.isBlankText definition = true) : ¬ IsUnreadable definition := by
    rintro ⟨first, tokens, name, params, precision, scale, pieces, cut, -⟩
    have empty : Text.strip first = "" := by
      refine strip_of_isBlankText fun c mem => ?_
      obtain ⟨piece, isPiece, rfl⟩ :=
        List.mem_map.1 (pieces ▸ List.mem_cons_self .. : first ∈ Text.split '|' definition)
      rw [String.toList_ofList] at mem
      exact List.all_eq_true.1 isBlank c (Chars.mem_of_mem_split isPiece c mem)
    rw [empty] at cut
    cases cut
  unfold parse
  by_cases isBlank : Text.isBlankText definition = true
  · rw [if_pos isBlank]
    exact iff_of_false (by simp) (blank isBlank)
  · rw [if_neg isBlank]
    cases pieces : Text.split '|' definition with
    | nil =>
      refine iff_of_false (by simp) ?_
      rintro ⟨first, tokens, name, params, precision, scale, pieces', -⟩
      cases (pieces.symm.trans pieces')
    | cons first tokens =>
      have spelled : IsUnreadable definition ↔ ∃ name params, Text.cut? ':' (Text.strip first) =
          some (name, params) ∧ Text.strip name = "decimal" ∧
          ∃ e, parseDecimal definition params = .error (.numeral e) := by
        constructor
        · rintro ⟨first', tokens', name, params, precision, scale, pieces', cut, type, unread⟩
          obtain ⟨rfl, -⟩ := List.cons.inj (pieces.symm.trans pieces')
          exact ⟨name, params, cut, type, parseDecimal_numeral.2 ⟨precision, scale, unread⟩⟩
        · rintro ⟨name, params, cut, type, unread⟩
          obtain ⟨precision, scale, unread⟩ := parseDecimal_numeral.1 unread
          exact ⟨first, tokens, name, params, precision, scale, pieces, cut, type, unread⟩
      rw [spelled]
      dsimp only
      cases cut : Text.cut? ':' (Text.strip first) with
      | none =>
        refine iff_of_false ?_ (by simp)
        rintro ⟨e, unread⟩
        dsimp only at unread
        split at unread
        · cases unread
        · obtain ⟨params, -, given, -⟩ := parseParams_numeral.1 ⟨e, map_eq_error.1 unread⟩
          cases given
      | some parts =>
        obtain ⟨name, params⟩ := parts
        have filled : (Text.strip first).isEmpty ≠ true := by
          intro empty
          rw [String.isEmpty_iff.1 empty] at cut
          cases cut
        dsimp only
        rw [if_neg filled]
        by_cases empty : (Text.strip name).isEmpty = true
        · rw [if_pos empty]
          refine iff_of_false (by simp) ?_
          rintro ⟨name', params', same, type, -⟩
          obtain ⟨rfl, -⟩ := Prod.mk.inj (Option.some.inj same)
          rw [type] at empty
          exact absurd empty (by decide)
        · rw [if_neg empty]
          simp only [map_eq_error, parseParams_numeral, Option.some.injEq, Prod.mk.injEq]
          constructor
          · rintro ⟨params', type, rfl, unread⟩
            exact ⟨name, params, ⟨rfl, rfl⟩, type, unread⟩
          · rintro ⟨name', params', ⟨rfl, rfl⟩, type, unread⟩
            exact ⟨params, type, rfl, unread⟩

end Field
end Scaffold
