import Scaffold.Definition.Action
import Scaffold.Definition.Field
import Scaffold.Definition.Relation
import Scaffold.Definition.Rule
import Scaffold.Definition.Scope
import Scaffold.Naming
import Scaffold.OrderedMap

/-!
# Schemas

What a schema document declares: entities with their fields, relations, routes, policies and
hooks, pivot tables, routes written by hand, and the settings of the project. A part of the
document that could not be read stands as an issue in its place.
-/

namespace Scaffold
set_option autoImplicit false

/-- What a route does with an entity. -/
inductive RouteAction where
  | list
  | display
  | create
  | update
  | delete
  deriving DecidableEq, Repr

namespace RouteAction

def all : List RouteAction := [list, display, create, update, delete]

def name : RouteAction → String
  | list => "list"
  | display => "show"
  | create => "create"
  | update => "update"
  | delete => "delete"

/-- The method of the controller that serves the route. -/
def method : RouteAction → String
  | list => "index"
  | display => "show"
  | create => "store"
  | update => "update"
  | delete => "destroy"

/-- The action that a word of the schema names; three methods name theirs too. -/
def ofWord? (word : String) : Option RouteAction :=
  match word with
  | "list" | "index" => some list
  | "show" => some display
  | "create" | "store" => some create
  | "update" => some update
  | "delete" | "destroy" => some delete
  | _ => none

end RouteAction

/-- A part of the document that could not be read. -/
inductive Issue where
  | notAnObject (subject found : String)
  | fieldNotText (owner field : String)
  | field (owner field : String) (error : Field.Malformed)
  | relation (entity relation : String) (error : Relation.Malformed)
  | policy (entity action : String) (error : Rule.Malformed)
  | action (entity group stage : String) (error : Action.Malformed)
  | routes (entity : String)
  | factory (entity : String)
  | model (name : String)
  | pivot (name : String)
  | customRoutes
  | customRouteKind (index : Nat)
  | customRouteParts (index : Nat)
  deriving DecidableEq, Repr

/-- The groups into which issues fall. -/
inductive IssueCode where
  | malformedField
  | malformedRelation
  | malformedPolicy
  | malformedAction
  | invalidStructure
  deriving DecidableEq, Repr

def IssueCode.name : IssueCode → String
  | malformedField => "MALFORMED_FIELD_SPEC"
  | malformedRelation => "MALFORMED_RELATION_SPEC"
  | malformedPolicy => "MALFORMED_POLICY_RULE"
  | malformedAction => "MALFORMED_ACTION"
  | invalidStructure => "INVALID_SCHEMA_STRUCTURE"

namespace Issue

def code : Issue → IssueCode
  | fieldNotText .. | field .. => .malformedField
  | relation .. => .malformedRelation
  | policy .. => .malformedPolicy
  | action .. => .malformedAction
  | _ => .invalidStructure

/-- The place in the document. -/
def subject : Issue → String
  | notAnObject place _ => place
  | fieldNotText owner name | field owner name _ => owner ++ "." ++ name
  | relation entity name _ => entity ++ "." ++ name
  | policy entity name _ => entity ++ ".policies." ++ name
  | action entity group stage _ => entity ++ "." ++ group ++ "." ++ stage
  | routes entity => entity ++ ".routes"
  | factory entity => entity ++ ".factory"
  | model name | pivot name => name
  | customRoutes => "custom.routes"
  | customRouteKind index | customRouteParts index => "custom.routes[" ++ toString index ++ "]"

def message : Issue → String
  | notAnObject place found => "'" ++ place ++ "' must be an object, got " ++ found ++ "."
  | fieldNotText owner name =>
    "'" ++ owner ++ "' field '" ++ name ++ "' must be a definition string."
  | field owner name error => "'" ++ owner ++ "' field '" ++ name ++ "': " ++ error.message
  | relation entity name error => "'" ++ entity ++ "' relation '" ++ name ++ "': " ++ error.message
  | policy entity name error => "'" ++ entity ++ "' policy '" ++ name ++ "': " ++ error.message
  | action entity group stage error =>
    "'" ++ entity ++ "' " ++ group ++ " '" ++ stage ++ "': " ++ error.message
  | routes entity => "'" ++ entity ++ "' routes must be a list of route names."
  | factory entity =>
    "'" ++ entity ++ "' factory must be true, false or " ++
      "\x7b\"count\": <n>, \"states\": [...]\x7d."
  | model name => "Model '" ++ name ++ "' must be a named object."
  | pivot name => "Pivot '" ++ name ++ "' must be a named object."
  | customRoutes => "'custom.routes' must be a list."
  | customRouteKind index => "Custom route #" ++ toString index ++ " must be an object."
  | customRouteParts index =>
    "Custom route #" ++ toString index ++ " needs a 'uri' and a 'controller'."

end Issue

/-- What a generated listing shows unless it is asked otherwise. -/
structure IndexFilter where
  conditions : OrderedMap String
  order : Option (String × Direction)
  relations : List String

/-- How many rows a seeder makes, and the named states of the factory. -/
structure Factory where
  count : Nat := 10
  states : List String := []
  deriving DecidableEq, Repr

/-- One model that the schema declares. -/
structure Entity where
  name : String
  table : String
  fields : OrderedMap Field
  relations : OrderedMap Relation
  routes : List RouteAction
  unknownRoutes : List String
  scopes : OrderedMap Scope
  policies : OrderedMap Rule
  hooks : OrderedMap (List Action)
  observers : OrderedMap (List Action)
  filters : Option IndexFilter
  factory : Option Factory
  seeder : Bool
  cache : OrderedMap Json
  /-- The names of all declared fields, readable or not. -/
  fieldNames : List String
  /-- The names of all declared relations, readable or not. -/
  relationNames : List String
  issues : List Issue

namespace Entity

def className (e : Entity) : String := Naming.studly e.name

def variableName (e : Entity) : String := Naming.camel e.name

def hasRoutes (e : Entity) : Bool := !e.routes.isEmpty

def hasFactory (e : Entity) : Bool := e.factory.isSome

def hasPolicies (e : Entity) : Bool := !e.policies.isEmpty

def hasObservers (e : Entity) : Bool := !e.observers.isEmpty

def hasSoftDeletes (e : Entity) : Bool := e.fields.has "deleted_at"

/-- The targets of the relations by which the entity belongs to another. -/
def belongsToTargets (e : Entity) : List String :=
  e.relations.values.filterMap fun r => if r.isBelongsTo then r.target? else none

/-- The fields that hold files. -/
def fileFields (e : Entity) : List (String × Field) := e.fields.entries.filter (·.2.isFile)

/-- How an entity shows in a report. -/
def shown (e : Entity) : String :=
  "<Entity " ++ e.name ++ " (" ++ toString e.fields.size ++ " fields, " ++
    toString e.relations.size ++ " relations)>"

end Entity

/-- A table between two others; it has a migration and nothing else. -/
structure Pivot where
  name : String
  fields : OrderedMap Field
  unique : List String
  issues : List Issue

/-- A route written by hand. -/
structure CustomRoute where
  method : String
  uri : String
  controller : String
  middleware : List String
  name : Option String
  deriving DecidableEq, Repr

/-- How users prove who they are. -/
structure Auth where
  enabled : Bool := false
  provider : String := "sanctum"
  guards : List String := ["web", "api"]
  statefulDomains : List String := []
  deriving DecidableEq, Repr

/-- Whether tokens of the Sanctum package are used. -/
def Auth.usesTokens (auth : Auth) : Bool := auth.provider == "sanctum"

/-- The settings of the project. -/
structure Meta where
  project : String := "GeneratedAPI"
  version : String := "1.0.0"
  auth : Auth := {}
  middlewares : List String := []
  app : OrderedMap Json := .empty
  database : OrderedMap Json := .empty
  mail : OrderedMap Json := .empty
  cache : OrderedMap Json := .empty
  queues : OrderedMap Json := .empty
  cors : OrderedMap Json := .empty

/-- A schema with the document it was built from. Entities and pivot tables stand under their own
names. -/
structure Schema where
  settings : Option Meta
  entities : OrderedMap Entity
  pivots : OrderedMap Pivot
  customRoutes : List CustomRoute
  document : Json.Members
  issues : List Issue
  entities_named : ∀ entry ∈ entities.entries, entry.2.name = entry.1
  pivots_named : ∀ entry ∈ pivots.entries, entry.2.name = entry.1

namespace Schema

/-- The settings, or the ones that hold when the document has none. -/
def settingsOrDefault (s : Schema) : Meta := s.settings.getD {}

def project (s : Schema) : String := s.settingsOrDefault.project

def version (s : Schema) : String := s.settingsOrDefault.version

def auth (s : Schema) : Auth := s.settingsOrDefault.auth

def middlewares (s : Schema) : List String := s.settingsOrDefault.middlewares

/-- The name of the entity that owns each table; of several the last. -/
def tables (s : Schema) : OrderedMap String :=
  .ofList (s.entities.values.map fun e => (e.table, e.name))

def entityOfTable? (s : Schema) (table : String) : Option Entity :=
  (s.tables.get? table).bind s.entities.get?

/-- How a schema shows in a report. -/
def shown (s : Schema) : String :=
  "<Schema " ++ s.project ++ " (" ++ toString s.entities.size ++ " entities, " ++
    toString s.pivots.size ++ " pivots)>"

end Schema
end Scaffold
