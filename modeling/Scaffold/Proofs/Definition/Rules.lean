import Scaffold.Definition.Rule
import Scaffold.Proofs.Outcomes
import Scaffold.Proofs.Text.Pieces
import Scaffold.Proofs.Text.Trimming

/-!
# Rules that are read

A rule that is read has conditions, one of them if it has neither bars nor commas, and each that
asks for roles names some: `Rule.isWhole_of_parse`. No bar is in a role, since bars come between
conditions.
-/

namespace Scaffold
set_option autoImplicit false

/-- What is known of a condition that is read. -/
structure Condition.IsWhole (c : Condition) : Prop where
  roles : ∀ roles, c = .role roles → roles ≠ [] ∧ ∀ role ∈ roles, role ≠ "" ∧ '|' ∉ role.toList
  userField : ∀ field, c = .userField field → field ∈ Condition.userFields

/-- What is known of a rule that is read. -/
structure Rule.IsWhole (rule : Rule) : Prop where
  conditions : ∀ c ∈ rule.conditions, c.IsWhole
  filled : rule.conditions ≠ []
  single : rule.operator = .single → ∃ c, rule.conditions = [c]

namespace Rule

variable {source text : String} {c : Condition} {rule : Rule}

/-- A condition is read as a role, a word of its own, a predicate or a comparison. -/
theorem parseCondition_eq_ok (h : parseCondition source text = .ok c) :
    (∃ names, Text.dropHead? "role:" (Text.strip text) = some names ∧
      c = .role (((Text.split ',' names).map Text.strip).filter (!·.isEmpty)) ∧
      ((Text.split ',' names).map Text.strip).filter (!·.isEmpty) ≠ []) ∨
    (∃ word, (word, c) ∈ Condition.words) ∨ c = .predicate (Text.strip text) ∨
    ∃ field, (field ∈ Condition.userFields ∧ c = .userField field) ∨
    ∃ value, c = .fieldEquals field value := by
  unfold parseCondition at h
  dsimp only at h
  split at h
  · cases h
  · split at h
    · rename_i names head
      split at h
      · cases h
      · rename_i named
        obtain rfl := Except.ok.inj h
        exact .inl ⟨names, head, rfl, fun empty => named (List.isEmpty_iff.2 empty)⟩
    · split at h
      · rename_i word condition found
        obtain rfl := Except.ok.inj h
        exact .inr (.inl ⟨word, List.mem_of_find?_eq_some found⟩)
      · obtain rfl := Except.ok.inj h
        exact .inr (.inr (.inl rfl))
      · rename_i field value _ _
        split at h
        · cases h
        · split at h
          · rename_i known
            obtain rfl := Except.ok.inj h
            exact .inr (.inr (.inr ⟨_, .inl ⟨List.contains_iff_mem.1 known, rfl⟩⟩))
          · obtain rfl := Except.ok.inj h
            exact .inr (.inr (.inr ⟨_, .inr ⟨_, rfl⟩⟩))

/-- A condition of a text without bars is whole. -/
theorem isWhole_of_parseCondition (clear : '|' ∉ text.toList)
    (h : parseCondition source text = .ok c) : c.IsWhole := by
  rcases parseCondition_eq_ok h with ⟨names, head, rfl, named⟩ | ⟨word, mem⟩ | rfl | ⟨field,
    ⟨known, rfl⟩ | ⟨value, rfl⟩⟩
  · refine ⟨fun roles same => ?_, nofun⟩
    obtain rfl := Condition.role.inj same
    refine ⟨named, fun role mem => ?_⟩
    obtain ⟨isRole, filled⟩ := List.mem_filter.1 mem
    obtain ⟨piece, isPiece, rfl⟩ := List.mem_map.1 isRole
    refine ⟨by simpa using filled, fun bar => clear ?_⟩
    have inNames : '|' ∈ names.toList := Text.mem_of_mem_split isPiece (Text.mem_of_mem_strip bar)
    obtain ⟨chars, isHead, rfl⟩ := Option.map_eq_some_iff.1 head
    rw [String.toList_ofList] at inNames
    refine Text.mem_of_mem_strip ?_
    rw [Chars.dropHead?_eq_some.1 isHead]
    exact List.mem_append_right _ inNames
  · -- no word asks for roles or compares a field
    have plain : ∀ entry ∈ Condition.words, (∀ roles, entry.2 ≠ .role roles) ∧
        ∀ field, entry.2 ≠ .userField field := by
      simp [Condition.words]
    exact ⟨fun roles same => absurd same ((plain _ mem).1 roles), fun field same =>
      absurd same ((plain _ mem).2 field)⟩
  · exact ⟨nofun, nofun⟩
  · exact ⟨nofun, fun field' same => Condition.userField.inj same ▸ known⟩
  · exact ⟨nofun, nofun⟩

/-- A rule that is read is whole. -/
theorem isWhole_of_parse (h : parse text = .ok rule) : rule.IsWhole := by
  unfold parse at h
  dsimp only at h
  split at h
  · cases h
  · -- how the text is cut into conditions, and that no bar is left in them
    obtain ⟨operator, parts, cut, filled, clear, one⟩ : ∃ operator parts,
        (if Text.hasChar '|' (Text.strip text) then
          (RuleOperator.any, Text.split '|' (Text.strip text))
          else if Text.hasChar ',' (Text.strip text) then (.all, Text.split ',' (Text.strip text))
          else (.single, [Text.strip text])) = (operator, parts) ∧ parts ≠ [] ∧
        (∀ part ∈ parts, '|' ∉ part.toList) ∧ (operator = .single → ∃ part, parts = [part]) := by
      have nonempty (sep : Char) : Text.split sep (Text.strip text) ≠ [] := by
        simp [Text.split, Chars.split_ne_nil]
      split
      · exact ⟨_, _, rfl, nonempty _, fun part mem => Text.not_mem_of_mem_split mem, fun same =>
          absurd same (by decide)⟩
      · rename_i noBar
        have noBar : '|' ∉ (Text.strip text).toList :=
          fun mem => noBar (List.contains_iff_mem.2 mem)
        split
        · exact ⟨_, _, rfl, nonempty _, fun part mem bar => noBar (Text.mem_of_mem_split mem bar),
            fun same => absurd same (by decide)⟩
        · refine ⟨_, _, rfl, List.cons_ne_nil _ _, ?_, fun _ => ⟨_, rfl⟩⟩
          simpa using noBar
    rw [cut] at h
    obtain ⟨conditions, read, rfl⟩ := map_eq_ok.1 h
    dsimp only at read ⊢
    have each := mapM_eq_ok.1 read
    refine ⟨fun c mem => ?_, ?_, fun isSingle => ?_⟩
    · obtain ⟨part, isPart, isRead⟩ := exists_of_mapM_ok read mem
      exact isWhole_of_parseCondition (clear part isPart) isRead
    · rintro rfl
      exact filled (List.forall₂_nil_right_iff.1 each)
    · obtain ⟨part, rfl⟩ := one isSingle
      obtain ⟨c, rest, -, absent, rfl⟩ := List.forall₂_cons_left_iff.1 each
      obtain rfl := List.forall₂_nil_left_iff.1 absent
      exact ⟨c, rfl⟩

end Rule
end Scaffold
