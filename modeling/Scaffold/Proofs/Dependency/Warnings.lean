import Scaffold.Proofs.Dependency.ForeignKeys
import Scaffold.Proofs.Outcomes
import Scaffold.Schema.Build
import Scaffold.Validation

/-!
# Warnings about cycles

The cycles of a schema are searched among its relations alone, its order among relations and foreign
keys. Since a foreign key is left out where it would close a cycle, the order breaks a relation only
if relations lead back (`Schema.before_or_reaches`); so there is a cycle to warn about exactly when
the order breaks some relation (`Schema.dependencyCycles_exact`). Which relations the warnings point
at is another question: each ends with one that the search of the relations alone breaks, and every
walk back along a relation that the order breaks goes through one of those.
-/

namespace Scaffold
set_option autoImplicit false

namespace Problem

/-- Nothing but a cycle has the code of cycles. -/
theorem code_eq_cycle {p : Problem} :
    p.code = "BELONGS_TO_CYCLE" ↔ ∃ entities, p = .cycle entities := by
  constructor
  · intro code
    cases p with
    | cycle entities => exact ⟨entities, rfl⟩
    | issue owner i =>
      rw [Problem.code] at code
      cases kind : i.code <;> simp [kind, IssueCode.name] at code
    | _ => simp [Problem.code] at code
  · rintro ⟨entities, rfl⟩
    rfl

end Problem

namespace Validation

variable {s : Schema} {entities : List String}

/-- No part of an owner is a cycle, where no check says so. -/
theorem cycle_notMem_partsProblems {α : Type} {owner : String} {parts : OrderedMap α}
    {check : String → α → List Problem}
    (checked : ∀ name part, Problem.cycle entities ∉ check name part) (issues : OrderedMap Issue)
    (names : List String) :
    Problem.cycle entities ∉ partsProblems owner parts check issues names := by
  induction names generalizing issues with
  | nil => simp [partsProblems]
  | cons name rest ih =>
    unfold partsProblems
    split
    · simp [ih]
    · simp [ih, checked]
    · exact ih issues

theorem cycle_notMem_fieldProblems (e : Entity) (name : String) (field : Field) :
    Problem.cycle entities ∉ fieldProblems s e name field := by
  intro mem
  rcases List.mem_append.1 mem with mem | mem
  · split at mem
    · split at mem <;> simp at mem
    · simp at mem
  · split at mem <;> simp at mem

theorem cycle_notMem_relationProblems (e : Entity) (name : String) (relation : Relation) :
    Problem.cycle entities ∉ relationProblems s e name relation := by
  unfold relationProblems
  intro mem
  split at mem <;> split at mem <;> simp at mem

theorem cycle_notMem_entityProblems (e : Entity) : Problem.cycle entities ∉ entityProblems s e := by
  have fields : Problem.cycle entities ∉ fieldsProblems s e := by
    intro mem
    rcases List.mem_append.1 mem with mem | mem
    · split at mem <;> simp at mem
    · exact cycle_notMem_partsProblems (cycle_notMem_fieldProblems e) _ _ mem
  have relations : Problem.cycle entities ∉ relationsProblems s e :=
    cycle_notMem_partsProblems (cycle_notMem_relationProblems e) _ _
  simp [entityProblems, optionProblems, fields, relations]

theorem cycle_notMem_pivotProblems (p : Pivot) : Problem.cycle entities ∉ pivotProblems s p := by
  simp only [pivotProblems, List.mem_append, List.mem_map, List.mem_flatMap, not_or]
  refine ⟨⟨by simp, ?_⟩, by simp⟩
  rintro ⟨entry, -, mem⟩
  split at mem
  · split at mem <;> simp at mem
  · simp at mem

end Validation

namespace Schema

variable {s : Schema} {name target : String}

theorem cycle_mem_problems {entities : List String} :
    .cycle entities ∈ s.problems ↔ entities ∈ s.dependencyCycles := by
  have models :
      Problem.cycle entities ∉ if s.entities.isEmpty then [Problem.noEntities] else [] := by
    split <;> simp
  simp [problems, models, Validation.cycle_notMem_entityProblems,
    Validation.cycle_notMem_pivotProblems]

/-- There is a warning about a cycle for each that was found. -/
theorem warns_iff : (∃ f ∈ s.findings, f.level = .warning ∧ f.code = "BELONGS_TO_CYCLE") ↔
    s.dependencyCycles ≠ [] := by
  constructor
  · rintro ⟨f, mem, -, code⟩
    obtain ⟨p, isProblem, rfl⟩ := List.mem_map.1 mem
    obtain ⟨entities, rfl⟩ := Problem.code_eq_cycle.1 code
    exact List.ne_nil_of_mem (cycle_mem_problems.1 isProblem)
  · intro filled
    obtain ⟨entities, mem⟩ := List.exists_mem_of_ne_nil _ filled
    exact ⟨(Problem.cycle entities).finding,
      List.mem_map_of_mem (cycle_mem_problems.2 mem), rfl, rfl⟩

/-- The order keeps to all relations exactly when none leads back. -/
theorem respects_iff_acyclic (s : Schema) :
    (∀ name target, s.BelongsTo name target → Before s.dependencyOrder target name) ↔
      ∀ name, ¬ Relation.TransGen s.belongsToGraph.Edge name name := by
  constructor
  · intro respects
    apply Graph.acyclic_of_before (s.dependencyOrder_perm.nodup_iff.2 s.entities.nodup)
    intro name target edge
    exact respects name target (edge_belongsToGraph.1 edge)
  · intro acyclic name target belongs
    have edge := edge_belongsToGraph.2 belongs
    apply (before_or_reaches edge).resolve_right
    intro back
    exact acyclic name (.head' edge back)

/-- The reported cycles are cycles of relations, no two through the same entities; there are none
exactly when no relations lead back, that is, when the order puts each entity after all those it
belongs to. So there is a warning exactly when the order breaks some relation. -/
theorem dependencyCycles_exact (s : Schema) :
    (∀ cycle ∈ s.dependencyCycles, s.belongsToGraph.IsCycle cycle) ∧
    (s.dependencyCycles.Pairwise fun known cycle => ¬ ∀ name, name ∈ known ↔ name ∈ cycle) ∧
    (s.dependencyCycles = [] ↔ ∀ name, ¬ Relation.TransGen s.belongsToGraph.Edge name name) ∧
    (s.dependencyCycles = [] ↔ ∀ name target, s.BelongsTo name target →
      Before s.dependencyOrder target name) ∧
    ((∃ f ∈ s.findings, f.level = .warning ∧ f.code = "BELONGS_TO_CYCLE") ↔
      ∃ name target, s.BelongsTo name target ∧ ¬ Before s.dependencyOrder target name) := by
  have closed := s.belongsToGraph_closed
  have loopless := s.belongsToGraph_loopless
  have empty :
    s.dependencyCycles = [] ↔ ∀ name, ¬ Relation.TransGen s.belongsToGraph.Edge name name :=
    Graph.cycles_eq_nil_iff closed loopless
  have respected := empty.trans s.respects_iff_acyclic.symm
  refine ⟨?_, Graph.pairwise_cycles closed loopless, empty, respected, ?_⟩
  · intro cycle mem
    exact Graph.isCycle_of_mem_cycles closed loopless mem
  · rw [warns_iff, ne_eq, respected]
    simp only [not_forall, exists_prop]

/-! ## The relations that the order breaks -/

/-- No foreign key adds to the relations: the owner of its table is the entity itself or one that it
belongs to, or relations lead back from there. -/
def ForeignKeysFollow (s : Schema) : Prop :=
  ∀ name e table owner, s.entities.get? name = some e →
    table ∈ e.fields.values.filterMap Field.foreignTable? →
    s.tables.get? table = some owner →
      owner = name ∨ s.BelongsTo name owner ∨ s.belongsToGraph.Reaches owner name

theorem dependencyGraph_eq (follow : s.ForeignKeysFollow) :
    s.dependencyGraph = s.belongsToGraph := by
  rw [← graphAfter_foreignKeys]
  refine List.foldlRecOn (motive := (· = s.belongsToGraph)) _ _ rfl ?_
  rintro _ rfl key isKey
  rcases addForeign_cases s.belongsToGraph_closed key.1 key.2 with ⟨same, -⟩ | ⟨owner, owned, apart,
    noEdge, noWalk, -⟩
  · exact same
  · obtain ⟨e, found, isTable⟩ := mem_foreignKeys.1 isKey
    rcases follow key.1 e key.2 owner found (List.mem_filterMap.2 isTable)
      owned with self | belongs | back
    · exact absurd self apart
    · exact absurd (edge_belongsToGraph.2 belongs) noEdge
    · exact absurd back noWalk

/-- Where the order breaks a relation, relations lead back, and every walk back along that relation
goes through one with which a reported cycle ends. It is that very relation exactly when the order
of the relations alone breaks it too, as is always so when no foreign key adds to the relations. -/
theorem broken_relation_closed (s : Schema) (belongs : s.BelongsTo name target)
    (broken : ¬ Before s.dependencyOrder target name) :
    s.belongsToGraph.Reaches target name ∧
    (∀ back : List String, (name :: target :: back).IsChain s.belongsToGraph.Edge →
      (target :: back).getLast? = some name →
      ∃ source next, [source, next] <:+: name :: target :: back ∧
        ∃ cycle ∈ s.dependencyCycles, [source, next] <:+ cycle) ∧
    ((∃ cycle ∈ s.dependencyCycles, [name, target] <:+ cycle) ↔
      ¬ Before s.belongsToGraph.order target name) ∧
    (s.ForeignKeysFollow → ∃ cycle ∈ s.dependencyCycles, [name, target] <:+: cycle) := by
  have closed := s.belongsToGraph_closed
  have loopless := s.belongsToGraph_loopless
  have edge := edge_belongsToGraph.2 belongs
  have closes : (∃ cycle ∈ s.dependencyCycles, [name, target] <:+ cycle) ↔
    ¬ Before s.belongsToGraph.order target name :=
    Graph.closes_iff closed loopless edge
  refine ⟨(before_or_reaches edge).resolve_left broken, ?_, closes, ?_⟩
  · intro back walk around
    have nodup := (Graph.order_perm closed).nodup_iff.2 closed.nodup
    obtain ⟨source, next, inside, edge, broken⟩ := Graph.exists_broken nodup walk around
    exact ⟨source, next, inside, (Graph.closes_iff closed loopless edge).2 broken⟩
  · intro follow
    rw [dependencyOrder, dependencyGraph_eq follow] at broken
    obtain ⟨cycle, mem, ends⟩ := closes.2 broken
    exact ⟨cycle, mem, ends.isInfix⟩

/-- A model with the given fields and relations. -/
def modelWith (fields relations : List (String × String)) : Json :=
  .object [("fields", .object (fields.map fun field => (field.1, .string field.2))),
    ("relations", .object (relations.map fun relation => (relation.1, .string relation.2)))]

/-- Three models that belong to each other in two cycles, after one with a foreign key to the last
of them. -/
def crossingDocument : Json.Members :=
  [("meta", .object []),
    ("models", .object [("X", modelWith [("c_id", "foreign:cs")] []),
      ("A", modelWith [("n", "string")] [("b", "belongsTo:B"), ("c", "belongsTo:C")]),
      ("B", modelWith [("n", "string")] [("c", "belongsTo:C")]),
      ("C", modelWith [("n", "string")] [("a", "belongsTo:A")])])]

/-- The foreign key makes the search for the order enter both cycles at `C`, the search for cycles
enters them at `A`. -/
theorem built_crossingDocument : ∃ s, build crossingDocument = .ok s ∧ s.findings.isValid = true ∧
    s.BelongsTo "A" "C" ∧ ¬ Before s.dependencyOrder "C" "A" ∧ s.belongsToGraph.Edge "C" "A" ∧
    s.dependencyCycles = [["A", "B", "C", "A"]] := by
  have checked : succeeds (build crossingDocument) (fun s => s.findings.isValid &&
      (s.belongsToGraph.targets "A").contains "C" && s.dependencyOrder == ["B", "A", "C", "X"] &&
      (s.belongsToGraph.targets "C").contains "A" &&
        s.dependencyCycles == [["A", "B", "C", "A"]]) = true := by
    decide +kernel
  obtain ⟨s, built, holds⟩ := succeeds_eq_true.1 checked
  simp only [Bool.and_eq_true, beq_iff_eq, List.contains_iff_mem] at holds
  obtain ⟨⟨⟨⟨valid, edge⟩, order⟩, back⟩, cycles⟩ := holds
  refine ⟨s, built, valid, edge_belongsToGraph.1 edge, ?_, back, cycles⟩
  rw [order]
  intro before
  exact absurd (before.idxOf_lt (by decide)) (by decide)

/-- The walk from `A` to `C` and back to `A` goes through the end of the one cycle that is
reported. -/
theorem broken_relation_closed_crossing :
    ∃ s, build crossingDocument = .ok s ∧ s.BelongsTo "A" "C" ∧
    ¬ Before s.dependencyOrder "C" "A" ∧ ∃ source next, [source, next] <:+: ["A", "C", "A"] ∧
      ∃ cycle ∈ s.dependencyCycles, [source, next] <:+ cycle := by
  obtain ⟨s, built, -, belongs, broken, back, -⟩ := built_crossingDocument
  have walk : ["A", "C", "A"].IsChain s.belongsToGraph.Edge := by
    simp [edge_belongsToGraph.2 belongs, back]
  exact ⟨s, built, belongs, broken, (broken_relation_closed s belongs broken).2.1 ["A"] walk rfl⟩

/-- A relation that the order breaks need not be in any cycle that is reported. -/
theorem broken_relation_unreported :
    ¬ ∀ (document : Json.Members) (s : Schema) (name target : String),
    build document = .ok s → s.findings.isValid = true → s.BelongsTo name target →
    ¬ Before s.dependencyOrder target name →
      ∃ cycle ∈ s.dependencyCycles, [name, target] <:+: cycle := by
  intro claimed
  obtain ⟨s, built, valid, belongs, broken, -, cycles⟩ := built_crossingDocument
  obtain ⟨cycle, mem, inside⟩ := claimed _ s "A" "C" built valid belongs broken
  rw [cycles, List.mem_singleton] at mem
  subst mem
  exact absurd inside (by decide)

end Schema
end Scaffold
