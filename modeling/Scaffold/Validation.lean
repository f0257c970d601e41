import Scaffold.Dependency
import Scaffold.Validation.Finding

/-!
# Validation

What is wrong with a schema, each problem once: first what concerns the document, then every
entity in the order of declaration, its fields before its relations, then the pivots, and last the
cycles. A schema is valid when none of its problems is an error.
-/

namespace Scaffold
set_option autoImplicit false

/-- A problem of a schema. -/
inductive Problem where
  | noSettings
  | noEntities
  | issue (owner : String) (issue : Issue)
  | noFields (entity : String)
  | unknownForeignTable (entity field table : String)
  | unknownFieldType (entity field typeName : String)
  | noRelationTarget (entity relation : String) (kind : RelationKind)
  | unknownRelationTarget (entity relation target : String)
  | unknownRoute (entity route : String)
  | unsupportedScope (entity scope source : String)
  | mixedOperators (entity action rule : String)
  | unknownHookStage (entity stage : String)
  | pivotUnknownTable (pivot field table : String)
  | pivotUnknownUnique (pivot field : String)
  | cycle (entities : List String)
  deriving DecidableEq, Repr

namespace Problem

def level : Problem → Level
  | unknownFieldType .. | unknownRoute .. | unsupportedScope .. | mixedOperators ..
  | unknownHookStage .. | pivotUnknownUnique .. | cycle _ => .warning
  | _ => .error

def code : Problem → String
  | noSettings => "MISSING_META"
  | noEntities => "NO_ENTITIES"
  | issue _ i => i.code.name
  | noFields _ => "ENTITY_HAS_NO_FIELDS"
  | unknownForeignTable .. => "UNKNOWN_FOREIGN_TABLE"
  | unknownFieldType .. => "UNKNOWN_FIELD_TYPE"
  | noRelationTarget .. => "RELATION_TARGET_MISSING"
  | unknownRelationTarget .. => "UNKNOWN_RELATION_TARGET"
  | unknownRoute .. => "UNKNOWN_ROUTE_ACTION"
  | unsupportedScope .. => "UNSUPPORTED_SCOPE"
  | mixedOperators .. => "POLICY_RULE_MIXED_OPERATORS"
  | unknownHookStage .. => "UNKNOWN_HOOK_STAGE"
  | pivotUnknownTable .. => "PIVOT_UNKNOWN_TABLE"
  | pivotUnknownUnique .. => "PIVOT_UNIQUE_UNKNOWN_FIELD"
  | cycle _ => "BELONGS_TO_CYCLE"

/-- A part of an entity, as messages name it. -/
def part (entity kind name : String) : String :=
  "Model '" ++ entity ++ "' " ++ kind ++ " '" ++ name ++ "'"

def message : Problem → String
  | noSettings => "Missing 'meta' section in schema."
  | noEntities => "No models defined in schema."
  | issue _ i => i.message
  | noFields entity => "Model '" ++ entity ++ "' has no fields defined."
  | unknownForeignTable entity field table =>
    part entity "field" field ++ " references unknown table '" ++ table ++ "'."
  | unknownFieldType entity field typeName =>
    part entity "field" field ++ " has unknown type '" ++ typeName ++
      "'; it is passed through unchanged."
  | noRelationTarget entity relation kind =>
    part entity "relation" relation ++ " (" ++ kind.name ++ ") does not name a target model."
  | unknownRelationTarget entity relation target =>
    part entity "relation" relation ++ " references unknown model '" ++ target ++ "'."
  | unknownRoute entity route =>
    part entity "route" route ++ " is not one of list/show/create/update/delete and is ignored."
  | unsupportedScope entity scope source =>
    part entity "scope" scope ++ " ('" ++ source ++ "') is not a supported form and is skipped."
  | mixedOperators entity action rule =>
    part entity "policy" action ++ " mixes '|' and ','; it is read as an OR of '" ++ rule ++
      "' split on '|'."
  | unknownHookStage entity stage =>
    part entity "hook stage" stage ++ " is never called by the generated controller."
  | pivotUnknownTable pivot field table =>
    "Pivot '" ++ pivot ++ "' field '" ++ field ++ "' references unknown table '" ++ table ++ "'."
  | pivotUnknownUnique pivot field =>
    "Pivot '" ++ pivot ++ "' unique constraint names undeclared field '" ++ field ++ "'."
  | cycle entities =>
    "Circular model dependency detected: " ++ Text.join " → " entities ++
      ". Generation order will not respect every edge."

/-- The places that a problem concerns. -/
def context : Problem → Json.Members
  | noSettings | noEntities => []
  | issue owner i => [("owner", .string owner), ("subject", .string i.subject)]
  | noFields entity => [("entity", .string entity)]
  | unknownForeignTable entity field table =>
    [("entity", .string entity), ("field", .string field), ("table", .string table)]
  | unknownFieldType entity field typeName =>
    [("entity", .string entity), ("field", .string field), ("type", .string typeName)]
  | noRelationTarget entity relation _ =>
    [("entity", .string entity), ("relation", .string relation)]
  | unknownRelationTarget entity relation target =>
    [("entity", .string entity), ("relation", .string relation), ("target", .string target)]
  | unknownRoute entity route => [("entity", .string entity), ("route", .string route)]
  | unsupportedScope entity scope _ => [("entity", .string entity), ("scope", .string scope)]
  | mixedOperators entity action rule =>
    [("entity", .string entity), ("action", .string action), ("rule", .string rule)]
  | unknownHookStage entity stage => [("entity", .string entity), ("stage", .string stage)]
  | pivotUnknownTable pivot field table =>
    [("pivot", .string pivot), ("field", .string field), ("table", .string table)]
  | pivotUnknownUnique pivot field => [("pivot", .string pivot), ("field", .string field)]
  | cycle entities => [("cycle", .array (entities.map .string))]

def finding (p : Problem) : Finding := ⟨p.level, p.code, p.message, p.context⟩

end Problem

namespace Validation

/-- The issues of one kind about the parts of an entity, under the places they concern. -/
def issuesBySubject (e : Entity) (code : IssueCode) : OrderedMap Issue :=
  .ofList ((e.issues.filter (·.code == code)).map fun i => (i.subject, i))

/-- The problems of parts under their names, in the order of the names. An issue about a part takes
the place of what else is wrong with it; the issues about no part that is named come last. -/
def partsProblems {α : Type} (owner : String) (parts : OrderedMap α)
    (check : String → α → List Problem) (issues : OrderedMap Issue) : List String → List Problem
  | [] => issues.values.map (.issue owner)
  | name :: rest =>
    match issues.get? (owner ++ "." ++ name), parts.get? name with
    | some issue, _ =>
      .issue owner issue :: partsProblems owner parts check
        (issues.erase (owner ++ "." ++ name)) rest
    | none, some part => check name part ++ partsProblems owner parts check issues rest
    | none, none => partsProblems owner parts check issues rest

/-- The problems of a field that could be read. -/
def fieldProblems (s : Schema) (e : Entity) (name : String) (field : Field) : List Problem :=
  (match field.foreignTable? with
    | some table => if s.tables.has table then [] else [.unknownForeignTable e.name name table]
    | none => []) ++
  (if field.type?.isSome then [] else [.unknownFieldType e.name name field.typeName])

/-- The problems of an entity's fields in the order of declaration. -/
def fieldsProblems (s : Schema) (e : Entity) : List Problem :=
  let malformed := issuesBySubject e .malformedField
  (if e.fields.isEmpty && malformed.isEmpty then [.noFields e.name] else []) ++
    partsProblems e.name e.fields (fieldProblems s e) malformed
      (if e.fieldNames.isEmpty then e.fields.keys else e.fieldNames)

/-- The problems of a relation that could be read. -/
def relationProblems (s : Schema) (e : Entity) (name : String) (relation : Relation) :
    List Problem :=
  match relation.target? with
  | some target => if s.entities.has target then [] else [.unknownRelationTarget e.name name target]
  | none => if relation.lacksTarget then [.noRelationTarget e.name name relation.kind] else []

/-- The problems of an entity's relations in the order of declaration. -/
def relationsProblems (s : Schema) (e : Entity) : List Problem :=
  partsProblems e.name e.relations (relationProblems s e) (issuesBySubject e .malformedRelation)
    (if e.relationNames.isEmpty then e.relations.keys else e.relationNames)

/-- The other issues of an entity, and what in it is tolerated. -/
def optionProblems (e : Entity) : List Problem :=
  ((e.issues.filter fun i => i.code != .malformedField && i.code != .malformedRelation).map
    (.issue e.name)) ++
  e.unknownRoutes.map (.unknownRoute e.name) ++
  ((e.scopes.values.filter (!·.isSupported)).map fun scope =>
    .unsupportedScope e.name scope.name scope.source) ++
  ((e.policies.entries.filter (·.2.mixesOperators)).map fun (action, rule) =>
    .mixedOperators e.name action rule.source) ++
  ((e.hooks.keys.filter fun stage => !hookStages.contains stage).map (.unknownHookStage e.name))

def entityProblems (s : Schema) (e : Entity) : List Problem :=
  fieldsProblems s e ++ relationsProblems s e ++ optionProblems e

def pivotProblems (s : Schema) (p : Pivot) : List Problem :=
  p.issues.map (.issue p.name) ++
  (p.fields.entries.flatMap fun (name, field) =>
    match field.foreignTable? with
    | some table => if s.tables.has table then [] else [.pivotUnknownTable p.name name table]
    | none => []) ++
  (p.unique.filter fun column => !p.fields.has column).map (.pivotUnknownUnique p.name)

end Validation

/-- Everything that is wrong with a schema. -/
def Schema.problems (s : Schema) : List Problem :=
  (if s.settings.isNone then [.noSettings] else []) ++
  (if s.entities.isEmpty then [.noEntities] else []) ++
  s.issues.map (.issue "schema") ++
  s.entities.values.flatMap (Validation.entityProblems s) ++
  s.pivots.values.flatMap (Validation.pivotProblems s) ++
  s.dependencyCycles.map .cycle

/-- The findings about a schema. -/
def Schema.findings (s : Schema) : Findings := s.problems.map Problem.finding

end Scaffold
