import Mathlib.Data.Multiset.AddSub
import Mathlib.Tactic.Abel
import Scaffold.Proofs.Validation.Groups

/-!
# The errors of a schema

What violates the rules of schemas, listed kind by kind (`Schema.violations`) and as it comes in the
document (`Schema.errorsIn`). The errors that are found are the second list, and it is the first one
in another order: each violation is reported once, and nothing else is (`Schema.errors_of_build`).
-/

namespace Scaffold
set_option autoImplicit false

namespace Schema

/-! The rules -/

/-- Whether a table belongs to a model. -/
def Owns (s : Schema) (table : String) : Prop := ∃ e ∈ s.entities.values, e.table = table

/-- Whether there is a model of that name. -/
def Declares (s : Schema) (model : String) : Prop := ∃ e ∈ s.entities.values, e.name = model

instance (s : Schema) : DecidablePred s.Owns := fun table =>
  inferInstanceAs (Decidable (∃ e ∈ s.entities.values, e.table = table))

instance (s : Schema) : DecidablePred s.Declares := fun model =>
  inferInstanceAs (Decidable (∃ e ∈ s.entities.values, e.name = model))

/-- A field whose table belongs to no model. -/
def strayField? (s : Schema) (note : String → String → Problem) (entry : String × Field) :
    Option Problem :=
  entry.2.foreignTable?.bind fun table => if s.Owns table then none else some (note entry.1 table)

/-- A relation, other than one to several kinds of models, that has no target or one that is no
model. -/
def strayRelation? (s : Schema) (model : String) (entry : String × Relation) : Option Problem :=
  if entry.2 = .morphTo then none
  else
    match entry.2.target? with
    | none => some (.noRelationTarget model entry.1 entry.2.kind)
    | some target =>
      if s.Declares target then none else some (.unknownRelationTarget model entry.1 target)

/-- Whether no field was declared, neither one that can be read nor a malformed one. -/
def hasNoFields (e : Entity) : Bool :=
  e.fields.entries.isEmpty && !e.issues.any (·.code == .malformedField)

/-- The violations of the rules, kind by kind. -/
def violations (s : Schema) : List Problem :=
  (if s.settings.isNone then [.noSettings] else []) ++
  (if s.entities.isEmpty then [.noEntities] else []) ++
  s.issues.map (.issue "schema") ++
  (s.entities.values.flatMap fun e => e.issues.map (.issue e.name)) ++
  (s.pivots.values.flatMap fun p => p.issues.map (.issue p.name)) ++
  (s.entities.values.flatMap fun e => if hasNoFields e then [.noFields e.name] else []) ++
  (s.entities.values.flatMap fun e =>
    e.fields.entries.filterMap (s.strayField? (.unknownForeignTable e.name))) ++
  (s.entities.values.flatMap fun e => e.relations.entries.filterMap (s.strayRelation? e.name)) ++
  (s.pivots.values.flatMap fun p =>
    p.fields.entries.filterMap (s.strayField? (.pivotUnknownTable p.name)))

/-! The document -/

/-- The errors of a model: those of its fields, then those of its relations, each in the order of
its block, then what else in the block cannot be read. -/
def modelErrors (s : Schema) (config : Json.Members) (e : Entity) : List Problem :=
  (if (config.group "fields").isEmpty then [.noFields e.name] else []) ++
  (config.group "fields").filterMap
    (partError? readField (fieldNote e.name) e.name
      (s.strayField? (.unknownForeignTable e.name))) ++
  (config.group "relations").filterMap
    (partError? Relation.ofJson (.relation e.name) e.name (s.strayRelation? e.name)) ++
  (e.issues.filter fun i => i.code != .malformedField && i.code != .malformedRelation).map
    (.issue e.name)

/-- The errors of a pivot table. -/
def pivotErrors (s : Schema) (p : Pivot) : List Problem :=
  p.issues.map (.issue p.name) ++ p.fields.entries.filterMap
    (s.strayField? (.pivotUnknownTable p.name))

/-- The errors as they come in a document: what concerns the whole of it, then its models, then its
pivot tables, each in the order in which they are declared. -/
def errorsIn (s : Schema) (document : Json.Members) : List Problem :=
  (if s.settings.isNone then [.noSettings] else []) ++
  (if s.entities.isEmpty then [.noEntities] else []) ++
  s.issues.map (.issue "schema") ++
  ((document.group "models").blocks.flatMap fun block => (s.entities.get? block.1).elim []
    (s.modelErrors block.2)) ++
  ((document.group "pivots").blocks.flatMap fun block =>
    (s.pivots.get? block.1).elim [] s.pivotErrors)

/-! Errors among the problems -/

/-- The problems that are errors. -/
def errors (problems : List Problem) : List Problem := problems.filter (·.level == .error)

theorem errors_append (problems others : List Problem) :
    errors (problems ++ others) = errors problems ++ errors others :=
  List.filter_append ..

theorem errors_flatMap {α : Type} (list : List α) (f : α → List Problem) :
    errors (list.flatMap f) = list.flatMap fun a => errors (f a) := by
  induction list with
  | nil => rfl
  | cons a rest ih => rw [List.flatMap_cons, List.flatMap_cons, errors_append, ih]

theorem errors_eq_self {problems : List Problem} (h : ∀ p ∈ problems, p.level = .error) :
    errors problems = problems :=
  List.filter_eq_self.2 fun p mem => beq_iff_eq.2 (h p mem)

theorem errors_map_eq_nil {α : Type} {list : List α} {problem : α → Problem}
    (warns : ∀ a, (problem a).level = .warning) :
    errors (list.map problem) = [] := by
  rw [errors, List.filter_eq_nil_iff]
  intro p mem
  obtain ⟨a, -, rfl⟩ := List.mem_map.1 mem
  rw [warns a]
  decide

theorem errors_issues (owner : String) (issues : List Issue) :
    errors (issues.map (.issue owner)) = issues.map (.issue owner) := by
  apply errors_eq_self
  intro p mem
  obtain ⟨i, -, rfl⟩ := List.mem_map.1 mem
  rfl

section Parts

variable {α ε : Type} {note : String → ε → Issue} {owner : String} {members : Json.Members}

/-- The errors of a group, in its order: each member that cannot be read, and what is wrong with
each that can. -/
theorem errors_partsProblems (read : Json → Except ε α) {check : String → α → List Problem}
    {wrong? : String × α → Option Problem}
    (subject : ∀ name e, (note name e).subject = owner ++ "." ++ name)
    (nodup : (members.map (·.1)).Nodup)
    (agree : ∀ name part, errors (check name part) = (wrong? (name, part)).toList) :
    errors (Validation.partsProblems owner (.ofList (readable read note members).1) check
      (.ofList ((readable read note members).2.map fun i => (i.subject, i)))
      (if (members.map (·.1)).isEmpty then (OrderedMap.ofList (readable read note members).1).keys
        else members.map (·.1))) =
      members.filterMap (partError? read note owner wrong?) := by
  have names :
    (if (members.map (·.1)).isEmpty then (OrderedMap.ofList (readable read note members).1).keys
      else members.map (·.1)) = members.map (·.1) := by
    cases members <;> rfl
  have found : ∀ m ∈ members, (OrderedMap.ofList (readable read note members).1).get? m.1 =
      (read m.2).toOption := by
    intro m mem
    rw [get?_readable nodup, (Json.get?_eq_some nodup).2 mem, Option.bind_some]
  have noted :
      (OrderedMap.ofList ((readable read note members).2.map fun i => (i.subject, i))).entries =
      (readable read note members).2.map fun i => (i.subject, i) := by
    apply OrderedMap.entries_ofList
    rw [List.map_map]
    exact nodup_subjects subject nodup
  rw [names, partsProblems_readable subject nodup found noted, errors_flatMap,
    List.filterMap_eq_flatMap_toList]
  refine List.flatMap_congr fun m _ => ?_
  unfold partError?
  cases read m.2 with
  | ok part => exact agree m.1 part
  | error e => rfl

end Parts

/-! One model -/

section Model

variable {s : Schema}

theorem has_tables {table : String} : s.tables.has table = true ↔ s.Owns table := by
  rw [OrderedMap.has_iff_mem_keys, tables, OrderedMap.mem_keys_ofList, List.map_map, List.mem_map]
  rfl

theorem has_entities {model : String} : s.entities.has model = true ↔ s.Declares model := by
  rw [OrderedMap.has_iff_mem_keys, OrderedMap.keys, Declares, OrderedMap.values, List.mem_map]
  constructor
  · rintro ⟨entry, mem, rfl⟩
    exact ⟨entry.2, List.mem_map.2 ⟨entry, mem, rfl⟩, s.entities_named entry mem⟩
  · rintro ⟨e, mem, rfl⟩
    obtain ⟨entry, isIn, rfl⟩ := List.mem_map.1 mem
    exact ⟨entry, isIn, (s.entities_named entry isIn).symm⟩

theorem errors_fieldProblems (e : Entity) (name : String) (field : Field) :
    errors (Validation.fieldProblems s e name field) =
      (s.strayField? (.unknownForeignTable e.name) (name, field)).toList := by
  have tolerated : errors (if field.type?.isSome then []
      else [.unknownFieldType e.name name field.typeName]) = [] := by
    split <;> rfl
  rw [Validation.fieldProblems, errors_append, tolerated, List.append_nil, strayField?]
  cases field.foreignTable? with
  | none => rfl
  | some table =>
    dsimp only [Option.bind_some]
    simp only [has_tables]
    split <;> rfl

theorem errors_relationProblems (e : Entity) (name : String) (relation : Relation) :
    errors (Validation.relationProblems s e name relation) =
      (s.strayRelation? e.name (name, relation)).toList := by
  have lacks : relation.target? = none → (relation.lacksTarget = true ↔ relation ≠ .morphTo) := by
    intro absent
    rw [Relation.lacksTarget, absent]
    cases relation <;> simp [Relation.kind]
  have morph : relation = .morphTo → relation.target? = none := by
    rintro rfl
    rfl
  unfold Validation.relationProblems strayRelation?
  dsimp only
  cases target : relation.target? with
  | none =>
    dsimp only
    simp only [lacks target]
    split <;> simp_all [errors, Problem.level]
  | some model =>
    have other : relation ≠ .morphTo := by
      intro is
      rw [morph is] at target
      cases target
    rw [if_neg other]
    dsimp only
    simp only [has_entities]
    split <;> rfl

variable {config : Json.Members} {name : String} {e : { e : Entity // e.name = name }}

/-- A model has no fields when none is declared. -/
theorem hasNoFields_of_entityOf (sound : (Json.object config).isSound = true)
    (h : entityOf name config = .ok e) : hasNoFields e.1 = (config.group "fields").isEmpty := by
  have unread : (e.1.issues.any (·.code == .malformedField)) = false ↔
      (readable readField (fieldNote name) (config.group "fields")).2 = [] := by
    rw [← (issues_of_entityOf h).1, List.filter_eq_nil_iff, List.any_eq_false]
  rw [hasNoFields, fields_of_entityOf h, entries_readable (Json.nodup_group sound _),
    Bool.eq_iff_iff, Bool.and_eq_true, List.isEmpty_iff, List.isEmpty_iff,
    Bool.not_eq_true', unread]
  exact readable_eq_nil

theorem hasNoFields_eq (e : Entity) :
    (e.fields.isEmpty && (Validation.issuesBySubject e .malformedField).isEmpty) =
      hasNoFields e := by
  have unread : (Validation.issuesBySubject e .malformedField).isEmpty = !e.issues.any
      (·.code == .malformedField) := by
    rw [Validation.issuesBySubject, OrderedMap.isEmpty_ofList, Bool.eq_iff_iff, List.isEmpty_iff,
      List.map_eq_nil_iff, List.filter_eq_nil_iff, Bool.not_eq_true', List.any_eq_false]
  rw [unread]
  rfl

/-- The errors among the problems of a model are those of its block. -/
theorem errors_entityProblems (sound : (Json.object config).isSound = true)
    (h : entityOf name config = .ok e) :
    errors (Validation.entityProblems s e.1) = s.modelErrors config e.1 := by
  have nodup := Json.nodup_group sound
  have built := Entity.isFrom_of_entityOf h
  have areFields := fields_of_entityOf h
  have areRelations := relations_of_entityOf h
  have undeclared := hasNoFields_of_entityOf sound h
  obtain ⟨malformedFields, malformedRelations⟩ := issues_of_entityOf h
  obtain ⟨e, rfl⟩ := e
  have fields : errors (Validation.fieldsProblems s e) = (if (config.group "fields").isEmpty then
      [.noFields e.name] else []) ++ (config.group "fields").filterMap
        (partError? readField (fieldNote e.name) e.name
          (s.strayField? (.unknownForeignTable e.name))) := by
    have empty :
        errors (if (config.group "fields").isEmpty then [Problem.noFields e.name] else []) =
        if (config.group "fields").isEmpty then [.noFields e.name] else [] := by
      split <;> rfl
    have subject :
        ∀ field fault, (fieldNote e.name field fault).subject = e.name ++ "." ++ field := by
      intro field fault
      cases fault <;> rfl
    have each := errors_partsProblems readField subject (nodup "fields") (@errors_fieldProblems s e)
    rw [Validation.fieldsProblems, errors_append, hasNoFields_eq, undeclared, empty,
      Validation.issuesBySubject, malformedFields, built.fieldNames, objectAt_fst, areFields, each]
  have relations : errors (Validation.relationsProblems s e) = (config.group "relations").filterMap
      (partError? Relation.ofJson (.relation e.name) e.name (s.strayRelation? e.name)) := by
    have subject : ∀ relation fault, (Issue.relation e.name relation fault).subject = e.name ++
      "." ++ relation := fun _ _ => rfl
    have each :=
      errors_partsProblems Relation.ofJson subject (nodup "relations")
        (@errors_relationProblems s e)
    rw [Validation.relationsProblems, Validation.issuesBySubject, malformedRelations,
      built.relationNames, objectAt_fst, areRelations, each]
  have options : errors (Validation.optionProblems e) =
      (e.issues.filter fun i => i.code != .malformedField && i.code != .malformedRelation).map
        (.issue e.name) := by
    have routes : errors (e.unknownRoutes.map (.unknownRoute e.name)) = [] :=
      errors_map_eq_nil fun _ => rfl
    have scopes : errors ((e.scopes.values.filter (!·.isSupported)).map fun scope =>
        .unsupportedScope e.name scope.name scope.source) = [] := errors_map_eq_nil fun _ => rfl
    have policies : errors ((e.policies.entries.filter (·.2.mixesOperators)).map fun entry =>
        .mixedOperators e.name entry.1 entry.2.source) = [] := errors_map_eq_nil fun _ => rfl
    have hooks : errors ((e.hooks.keys.filter fun stage => !hookStages.contains stage).map
      (.unknownHookStage e.name)) = [] :=
      errors_map_eq_nil fun _ => rfl
    simp only [Validation.optionProblems, errors_append, errors_issues, routes, scopes, policies,
      hooks, List.append_nil]
  rw [Validation.entityProblems, errors_append, errors_append, fields, relations,
    options, modelErrors]

/-- The errors among the problems of a pivot table. -/
theorem errors_pivotProblems (p : Pivot) :
    errors (Validation.pivotProblems s p) = s.pivotErrors p := by
  have unique : errors ((p.unique.filter fun column => !p.fields.has column).map
    (.pivotUnknownUnique p.name)) = [] :=
    errors_map_eq_nil fun _ => rfl
  rw [Validation.pivotProblems, errors_append, errors_append, errors_issues, unique,
    List.append_nil, errors_flatMap, pivotErrors,
    List.filterMap_eq_flatMap_toList]
  refine congrArg _ (List.flatMap_congr fun entry _ => ?_)
  obtain ⟨name, field⟩ := entry
  dsimp only [strayField?]
  cases field.foreignTable? with
  | none => rfl
  | some table =>
    dsimp only [Option.bind_some]
    simp only [has_tables]
    split <;> rfl

end Model

/-! The whole schema -/

variable {document : Json.Members} {s : Schema}

/-- The models come in the order of their blocks. -/
theorem flatMap_entities (sound : (Json.object document).isSound = true)
    (built : build document = .ok s) (f : Entity → List Problem) : s.entities.values.flatMap f =
      (document.group "models").blocks.flatMap fun block =>
        (s.entities.get? block.1).elim [] f := by
  obtain ⟨blocks, issues, read, areEntities⟩ := (isFrom_of_build built).entities
  rw [objectAt_fst] at read
  rw [areEntities, flatMap_mapOf (Json.nodup_group sound _) read]

/-- So do the pivot tables. -/
theorem flatMap_pivots (sound : (Json.object document).isSound = true)
    (built : build document = .ok s) (f : Pivot → List Problem) : s.pivots.values.flatMap f =
      (document.group "pivots").blocks.flatMap fun block => (s.pivots.get? block.1).elim [] f := by
  obtain ⟨blocks, issues, read, arePivots⟩ := (isFrom_of_build built).pivots
  rw [objectAt_fst] at read
  rw [arePivots, flatMap_mapOf (Json.nodup_group sound _) read]

/-- The block of a model, and the model that is read from it. -/
theorem exists_entity_of_mem_blocks (sound : (Json.object document).isSound = true)
    (built : build document = .ok s) {name : String} {config : Json.Members}
    (mem : (name, config) ∈ (document.group "models").blocks) :
    ∃ e : { e : Entity // e.name = name }, entityOf name config = .ok e ∧
    s.entities.get? name = some e.1 ∧
      (Json.object config).isSound = true := by
  have nodup := Json.nodup_group sound
  obtain ⟨blocks, issues, read, areEntities⟩ := (isFrom_of_build built).entities
  rw [objectAt_fst] at read
  obtain ⟨e, made, found⟩ := exists_of_mem_blocks (nodup _) read mem
  have isBlock := (Json.get?_eq_some (nodup _)).2 (mem_blocks.1 mem).1
  exact ⟨e, made, areEntities ▸ found,
    Json.isSound_of_get? (Json.isSound_object.1 (Json.isSound_group sound _)).2 isBlock⟩

/-- The errors among the problems of a schema are those of its document, in order. -/
theorem errors_problems (sound : (Json.object document).isSound = true)
    (built : build document = .ok s) : errors s.problems = s.errorsIn document := by
  have models : errors (s.entities.values.flatMap (Validation.entityProblems s)) =
      (document.group "models").blocks.flatMap fun block => (s.entities.get? block.1).elim []
        (s.modelErrors block.2) := by
    rw [errors_flatMap, flatMap_entities sound built]
    refine List.flatMap_congr fun block mem => ?_
    obtain ⟨name, config⟩ := block
    obtain ⟨e, made, found, soundBlock⟩ := exists_entity_of_mem_blocks sound built mem
    rw [found]
    exact errors_entityProblems soundBlock made
  have pivots : errors (s.pivots.values.flatMap (Validation.pivotProblems s)) =
      (document.group "pivots").blocks.flatMap fun block =>
        (s.pivots.get? block.1).elim [] s.pivotErrors := by
    simp only [errors_flatMap, errors_pivotProblems]
    exact flatMap_pivots sound built _
  have cycles : errors (s.dependencyCycles.map .cycle) = [] := errors_map_eq_nil fun _ => rfl
  have settings : errors (if s.settings.isNone then [.noSettings] else []) =
      if s.settings.isNone then [.noSettings] else [] := by
    split <;> rfl
  have entities : errors (if s.entities.isEmpty then [.noEntities] else []) =
      if s.entities.isEmpty then [.noEntities] else [] := by
    split <;> rfl
  rw [problems]
  simp only [errors_append, models, pivots, cycles, settings, entities, errors_issues,
    List.append_nil]
  rfl

/-! One error for each violation -/

/-- Issues by their kinds: those about fields, those about relations, and the others. -/
theorem perm_by_code (issues : List Issue) :
    issues.Perm (issues.filter (·.code == .malformedField) ++
      (issues.filter (·.code == .malformedRelation) ++
        issues.filter fun i => i.code != .malformedField && i.code != .malformedRelation)) := by
  have fields := (List.filter_append_perm (fun i : Issue => i.code == .malformedField) issues).symm
  have others := (List.filter_append_perm (fun i : Issue => i.code == .malformedRelation)
    (issues.filter fun i => !(i.code == .malformedField))).symm
  rw [List.filter_filter, List.filter_filter] at others
  have relations :
      (issues.filter fun i => (i.code == .malformedRelation) && !(i.code == .malformedField)) =
      issues.filter (·.code == .malformedRelation) := by
    refine List.filter_congr fun i _ => ?_
    cases i.code <;> rfl
  have rest :
      (issues.filter fun i => !(i.code == .malformedRelation) && !(i.code == .malformedField)) =
      issues.filter fun i => i.code != .malformedField && i.code != .malformedRelation := by
    refine List.filter_congr fun i _ => ?_
    cases i.code <;> rfl
  rw [relations, rest] at others
  exact fields.trans (others.append_left _)

/-- The errors of a model are its violations in another order. -/
theorem modelErrors_perm {config : Json.Members} {name : String}
    {e : { e : Entity // e.name = name }} (sound : (Json.object config).isSound = true)
    (h : entityOf name config = .ok e) : (s.modelErrors config e.1).Perm
      (e.1.issues.map (.issue e.1.name) ++
        ((if hasNoFields e.1 then [.noFields e.1.name] else []) ++
          (e.1.fields.entries.filterMap (s.strayField? (.unknownForeignTable e.1.name)) ++
            e.1.relations.entries.filterMap (s.strayRelation? e.1.name)))) := by
  have nodup := Json.nodup_group sound
  have areFields := fields_of_entityOf h
  have areRelations := relations_of_entityOf h
  have undeclared := hasNoFields_of_entityOf sound h
  obtain ⟨malformedFields, malformedRelations⟩ := issues_of_entityOf h
  obtain ⟨e, rfl⟩ := e
  have issues := (perm_by_code e.issues).map (Problem.issue e.name)
  have fields := @partErrors_perm _ _ readField (fieldNote e.name) e.name (config.group "fields")
    (s.strayField? (.unknownForeignTable e.name))
  have relations :=
    @partErrors_perm _ _ Relation.ofJson (.relation e.name) e.name (config.group "relations")
    (s.strayRelation? e.name)
  rw [malformedFields, malformedRelations, List.map_append, List.map_append] at issues
  rw [areFields, areRelations, entries_readable (nodup _), entries_readable (nodup _),
    undeclared, modelErrors]
  rw [← Multiset.coe_eq_coe] at issues fields relations ⊢
  simp only [← Multiset.coe_add] at issues fields relations ⊢
  rw [issues, fields, relations]
  abel

/-- The errors in the order of the document are the violations of the rules, each as often. -/
theorem errorsIn_perm (sound : (Json.object document).isSound = true)
    (built : build document = .ok s) : (s.errorsIn document).Perm s.violations := by
  have models : ((document.group "models").blocks.flatMap fun block =>
      (s.entities.get? block.1).elim [] (s.modelErrors block.2)).Perm
      (s.entities.values.flatMap fun e => e.issues.map (.issue e.name) ++
        ((if hasNoFields e then [.noFields e.name] else []) ++
          (e.fields.entries.filterMap (s.strayField? (.unknownForeignTable e.name)) ++
            e.relations.entries.filterMap (s.strayRelation? e.name)))) := by
    rw [flatMap_entities sound built]
    refine List.Perm.flatMap_left _ fun block mem => ?_
    obtain ⟨name, config⟩ := block
    obtain ⟨e, made, found, soundBlock⟩ := exists_entity_of_mem_blocks sound built mem
    rw [found]
    exact modelErrors_perm soundBlock made
  have pivots : ((document.group "pivots").blocks.flatMap fun block =>
      (s.pivots.get? block.1).elim [] s.pivotErrors) =
      s.pivots.values.flatMap fun p =>
        p.issues.map (.issue p.name) ++ p.fields.entries.filterMap
          (s.strayField? (.pivotUnknownTable p.name)) :=
    (flatMap_pivots sound built _).symm
  have split {α : Type} (list : List α) (f g : α → List Problem) :
      ((list.flatMap fun a => f a ++ g a : List Problem) : Multiset Problem) =
        list.flatMap f + list.flatMap g := by
    rw [Multiset.coe_add, Multiset.coe_eq_coe]
    exact (List.flatMap_append_perm list f g).symm
  rw [errorsIn, pivots, violations]
  rw [← Multiset.coe_eq_coe] at models ⊢
  simp only [← Multiset.coe_add, split] at models ⊢
  rw [models]
  abel

/-- The errors found in a schema are the violations of the rules, each reported once and nothing
else: first what concerns the whole document, then the models in the order of declaration, each with
the errors of its fields, in their order, before those of its relations, in theirs, and last the
pivot tables. -/
theorem errors_of_build (sound : (Json.object document).isSound = true)
    (built : build document = .ok s) :
    s.findings.errors = (s.errorsIn document).map Problem.finding ∧
    (s.errorsIn document).Perm s.violations := by
  refine ⟨?_, errorsIn_perm sound built⟩
  rw [← errors_problems sound built, findings, Findings.errors, Findings.ofLevel, List.filter_map]
  rfl

/-- A document without settings, whose one model has fields and relations of all sorts. -/
def mixedDocument : Json.Members :=
  [("models", .object [
    ("Order", .object [
      ("fields", .object [("note", .int 5), ("user_id", .string "foreign:users"),
        ("total", .string "decimal:x,2"), ("code", .string "string")]),
      ("relations", .object [("buyer", .string "belongsTo:User"), ("lines", .string "has:Line"),
        ("owner", .string "morphTo"), ("again", .string "hasOne:Order"),
        ("parent", .string "belongsTo")]),
      ("routes", .int 1)]),
    ("Empty", .object [])]),
   ("pivots", .object [("order_tag",
     .object [("fields", .object [("tag_id", .string "foreign:tags")])])])]

/-- Its errors come in the order of the document, the malformed parts among the others. -/
theorem errors_of_mixedDocument :
    (Json.object mixedDocument).isSound = true ∧ ∃ s, build mixedDocument = .ok s ∧
    s.findings.errors = (s.errorsIn mixedDocument).map Problem.finding ∧
    (s.errorsIn mixedDocument).Perm s.violations ∧
    s.errorsIn mixedDocument = [.noSettings, .issue "Order" (.fieldNotText "Order" "note"),
      .unknownForeignTable "Order" "user_id" "users",
      .issue "Order" (.field "Order" "total" ⟨"decimal:x,2", "decimal:x,2", .decimalDigits⟩),
      .unknownRelationTarget "Order" "buyer" "User",
      .issue "Order" (.relation "Order" "lines" ⟨"has:Line", .unknownKind "has"⟩),
      .noRelationTarget "Order" "parent" .belongsTo, .issue "Order" (.routes "Order"),
      .noFields "Empty", .pivotUnknownTable "order_tag" "tag_id" "tags"] := by
  have sound : (Json.object mixedDocument).isSound = true := by decide +kernel
  have run : succeeds (build mixedDocument) (fun s => s.errorsIn mixedDocument == [.noSettings,
      .issue "Order" (.fieldNotText "Order" "note"), .unknownForeignTable "Order" "user_id" "users",
      .issue "Order" (.field "Order" "total" ⟨"decimal:x,2", "decimal:x,2", .decimalDigits⟩),
      .unknownRelationTarget "Order" "buyer" "User",
      .issue "Order" (.relation "Order" "lines" ⟨"has:Line", .unknownKind "has"⟩),
      .noRelationTarget "Order" "parent" .belongsTo, .issue "Order" (.routes "Order"),
      .noFields "Empty", .pivotUnknownTable "order_tag" "tag_id" "tags"]) =
        true := by decide +kernel
  obtain ⟨s, built, list⟩ := succeeds_eq_true.1 run
  obtain ⟨found, perm⟩ := errors_of_build sound built
  exact ⟨sound, s, built, found, perm, eq_of_beq list⟩

end Schema
end Scaffold
