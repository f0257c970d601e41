import Scaffold.Proofs.Definition.Reading
import Scaffold.Proofs.Definition.Rules
import Scaffold.Proofs.Schema.Documents

/-!
# Definitions in a schema that was built

Whatever the document is, the fields and the rules of a schema that was built from it were read from
definitions. So what is known of all that is read is known of them: `Schema.isRead_of_build`.
-/

namespace Scaffold
set_option autoImplicit false

namespace Schema

/-- Every field and every rule of a schema was read. -/
structure IsRead (s : Schema) : Prop where
  fields : ∀ e ∈ s.entities.values, ∀ entry ∈ e.fields.entries, entry.2.IsDefinable
  pivotFields : ∀ p ∈ s.pivots.values, ∀ entry ∈ p.fields.entries, entry.2.IsDefinable
  rules : ∀ e ∈ s.entities.values, ∀ entry ∈ e.policies.entries, ∃ text,
    Rule.parse text = .ok entry.2

variable {owner : String} {members document : Json.Members} {s : Schema}

theorem isDefinable_of_fieldsOf {fields : List (String × Field)} {issues : List Issue}
    (h : fieldsOf owner members = .ok (fields, issues)) :
    ∀ entry ∈ fields, entry.2.IsDefinable := by
  induction members generalizing fields issues with
  | nil =>
    obtain ⟨rfl, -⟩ := Prod.mk.inj (Except.ok.inj h)
    simp
  | cons m rest ih =>
    obtain ⟨name, value⟩ := m
    unfold fieldsOf at h
    split at h
    · rename_i definition
      split at h
      · rename_i field read
        obtain ⟨⟨others, more⟩, readRest, same⟩ := map_eq_ok.1 h
        obtain ⟨rfl, -⟩ := Prod.mk.inj same
        exact List.forall_mem_cons.2 ⟨Field.isDefinable_of_parse read, ih readRest⟩
      · obtain ⟨⟨others, more⟩, readRest, same⟩ := map_eq_ok.1 h
        obtain ⟨rfl, -⟩ := Prod.mk.inj same
        exact ih readRest
      · cases h
    · obtain ⟨⟨others, more⟩, readRest, same⟩ := map_eq_ok.1 h
      obtain ⟨rfl, -⟩ := Prod.mk.inj same
      exact ih readRest

/-- A rule is read from a text only. -/
theorem exists_parse_of_ofJson {value : Json} {rule : Rule} (h : Rule.ofJson value = .ok rule) :
    ∃ text, Rule.parse text = .ok rule := by
  unfold Rule.ofJson at h
  split at h
  · exact ⟨_, h⟩
  · cases h

/-- The parts of a map of blocks were built. -/
theorem exists_build_of_mem_mapOf {α : Type} {nameOf : α → String}
    {make : (name : String) → Json.Members → Except BuildError { a : α // nameOf a = name }}
    {note : String → Issue} {blocks : List (Named nameOf)} {issues : List Issue}
    (h : blocksOf make note members = .ok (blocks, issues)) {a : α}
    (mem : a ∈ (mapOf blocks).values) : ∃ name config b, make name config = .ok b ∧ b.1 = a := by
  obtain ⟨entry, isEntry, rfl⟩ := List.mem_map.1 mem
  obtain ⟨block, isBlock, rfl⟩ := List.mem_map.1 (OrderedMap.mem_of_mem_ofList isEntry)
  obtain ⟨config, b, -, -, built, is⟩ := (areBlocks_of_blocksOf h).sound block isBlock
  exact ⟨_, config, b, built, is⟩

/-- What was built was read. -/
theorem isRead_of_build (h : build document = .ok s) : s.IsRead := by
  have built := isFrom_of_build h
  obtain ⟨entities, entityIssues, entitiesRead, areEntities⟩ := built.entities
  obtain ⟨pivots, pivotIssues, pivotsRead, arePivots⟩ := built.pivots
  refine ⟨fun e mem => ?_, fun p mem => ?_, fun e mem entry isEntry => ?_⟩
  · rw [areEntities] at mem
    obtain ⟨name, config, e, made, rfl⟩ := exists_build_of_mem_mapOf entitiesRead mem
    obtain ⟨fields, issues, read, same⟩ := (Entity.isFrom_of_entityOf made).fields
    rw [same]
    exact fun entry isEntry => isDefinable_of_fieldsOf read entry
      (OrderedMap.mem_of_mem_ofList isEntry)
  · rw [arePivots] at mem
    obtain ⟨name, config, p, made, rfl⟩ := exists_build_of_mem_mapOf pivotsRead mem
    simp only [pivotOf, bind_eq_ok] at made
    obtain ⟨⟨fields, issues⟩, read, same⟩ := made
    obtain rfl := Except.ok.inj same
    exact fun entry isEntry => isDefinable_of_fieldsOf read entry
      (OrderedMap.mem_of_mem_ofList isEntry)
  · rw [areEntities] at mem
    obtain ⟨name, config, e, made, rfl⟩ := exists_build_of_mem_mapOf entitiesRead mem
    rw [(Entity.isFrom_of_entityOf made).policies] at isEntry
    obtain ⟨value, -, read⟩ := mem_readable.1 (OrderedMap.mem_of_mem_ofList isEntry)
    exact exists_parse_of_ofJson read

end Schema
end Scaffold
