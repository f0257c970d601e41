import Scaffold.Schema
import Scaffold.Text.LetterCase

/-!
# Building a schema

A decoded document becomes a schema. Whatever has the wrong form is recorded as an issue, and the
rest is built all the same; only a number that cannot be read, a count that is infinite and a
table without a name stop the building.
-/

namespace Scaffold.Schema
set_option autoImplicit false

open Text (NumeralError)

/-- Why no schema can be built from a document. -/
inductive BuildError where
  | numeral (e : NumeralError)
  | infiniteCount
  | noTable
  deriving DecidableEq, Repr

def BuildError.message : BuildError → String
  | numeral e => e.message
  | infiniteCount => "cannot convert float infinity to integer"
  | noTable => "1 in Entity"

/-- A part of the schema and the issues met while it was built. -/
abbrev Built (α : Type) := α × List Issue

/-- The members of an object; what is absent or null has none. -/
def objectAt (value : Option Json) (subject : String) : Built Json.Members :=
  match value with
  | none | some .null => ([], [])
  | some (.object members) => (members, [])
  | some value => ([], [.notAnObject subject value.kind])

/-- The texts of a list; a single text stands for a list of one. -/
def textsAt : Option Json → List String
  | some (.string text) => [text]
  | some (.array items) => items.map Json.plain
  | _ => []

/-- The text of a value, unless it is absent, empty or otherwise void. -/
def textAt? (value : Option Json) : Option String := (value.filter Json.isTruthy).map Json.plain

def textAt (value : Option Json) (default : String) : String := (textAt? value).getD default

/-- The fields that can be read, in order, with an issue for each that cannot. -/
def fieldsOf (owner : String) : Json.Members → Except BuildError (Built (List (String × Field)))
  | [] => .ok ([], [])
  | (name, value) :: rest =>
    match value with
    | .string definition =>
      match Field.parse definition with
      | .ok field =>
        (fieldsOf owner rest).map fun (fields, issues) => ((name, field) :: fields, issues)
      | .error (.malformed e) =>
        (fieldsOf owner rest).map fun (fields, issues) => (fields, .field owner name e :: issues)
      | .error (.numeral e) => .error (.numeral e)
    | _ => (fieldsOf owner rest).map fun (fields, issues) =>
        (fields, .fieldNotText owner name :: issues)

/-- The members that can be read, with an issue for each that cannot. -/
def readable {α ε : Type} (read : Json → Except ε α) (issue : String → ε → Issue) :
    Json.Members → Built (List (String × α))
  | [] => ([], [])
  | (name, value) :: rest =>
    let (parts, issues) := readable read issue rest
    match read value with
    | .ok part => ((name, part) :: parts, issues)
    | .error e => (parts, issue name e :: issues)

/-- The routes that are known, each once, and the words that name none. -/
def routesOf (entity : String) : Option Json → Built (List RouteAction × List String)
  | none | some .null => (([], []), [])
  | some (.array items) =>
    let words := items.map fun item => Text.strip item.plain
    (((words.filterMap RouteAction.ofWord?).eraseDups,
      words.filter fun word => (RouteAction.ofWord? word).isNone), [])
  | some _ => (([], []), [.routes entity])

/-- The field and direction by which a listing is ordered. -/
def orderOf? : Option Json → Option (String × Direction)
  | some (.string field) => if field.isEmpty then none else some (field, .ascending)
  | some (.array (field :: rest)) =>
    let direction := rest.head?.bind fun word => Direction.ofWord? word.plain
    some (field.plain, direction.getD .ascending)
  | _ => none

/-- The filter of the listing, unless none is given. -/
def filterOf (entity : String) (filters : Json.Members) : Built (Option IndexFilter) :=
  let (index, indexIssues) := objectAt (filters.get? "index") (entity ++ ".filters.index")
  if index.isEmpty then (none, indexIssues)
  else
    let (conditions, issues) := objectAt (index.get? "where") (entity ++ ".filters.index.where")
    (some {
      conditions := .ofList (conditions.map fun m => (m.1, m.2.plain))
      order := orderOf? (index.get? "orderBy")
      relations := textsAt (index.get? "with") }, indexIssues ++ issues)

/-- The whole number that a count gives: an error if it is infinite, nothing if it gives none. -/
def countOf : Option Json → Except BuildError (Option Int)
  | none => .ok (some 10)
  | some (.int value) => .ok (some value)
  | some (.bool value) => .ok (some (if value then 1 else 0))
  | some (.float (.infinite _)) => .error .infiniteCount
  | some (.float value) => .ok value.truncate?
  | some (.string text) => .ok (Text.readInteger text).toOption
  | some _ => .ok none

def factoryOf (entity : String) : Option Json → Except BuildError (Built (Option Factory))
  | none | some .null | some (.bool false) => .ok (none, [])
  | some (.bool true) => .ok (some {}, [])
  | some (.object members) =>
    let get (key : String) := Json.Members.get? members key
    (countOf (get "count")).map fun count =>
      match count with
      | some count =>
        if count < 0 then (none, [.factory entity])
        else (some ⟨count.toNat, textsAt (get "states")⟩, [])
      | none => (none, [.factory entity])
  | some _ => .ok (none, [.factory entity])

/-- The actions of hooks or observers, whichever `group` names. -/
def actionsOf (entity group : String) (config : Json.Members) : Built (OrderedMap (List Action)) :=
  let (members, issues) := objectAt (config.get? group) (entity ++ "." ++ group)
  let (actions, more) := readable Action.listOfJson (.action entity group) members
  (.ofList actions, issues ++ more)

/-- One entity from its block of the document. -/
def entityOf (name : String) (config : Json.Members) :
    Except BuildError { e : Entity // e.name = name } := do
  let table := textAt (config.get? "table") (Naming.table name)
  let (fieldMembers, fieldsIssue) := objectAt (config.get? "fields") (name ++ ".fields")
  let (fields, fieldIssues) ← fieldsOf name fieldMembers
  let (relationMembers, relationsIssue) := objectAt (config.get? "relations") (name ++ ".relations")
  let (relations, relationIssues) := readable Relation.ofJson (.relation name) relationMembers
  let ((routes, unknownRoutes), routeIssues) := routesOf name (config.get? "routes")
  let (scopes, scopesIssue) := objectAt (config.get? "scopes") (name ++ ".scopes")
  let (policyMembers, policiesIssue) := objectAt (config.get? "policies") (name ++ ".policies")
  let (policies, policyIssues) := readable Rule.ofJson (.policy name) policyMembers
  let (hooks, hookIssues) := actionsOf name "hooks" config
  let (observers, observerIssues) := actionsOf name "observers" config
  let (filterMembers, filtersIssue) := objectAt (config.get? "filters") (name ++ ".filters")
  let (filters, filterIssues) := filterOf name filterMembers
  let (factory, factoryIssues) ← factoryOf name (config.get? "factory")
  let (cache, cacheIssue) := objectAt (config.get? "cache") (name ++ ".cache")
  if table.isEmpty then .error .noTable
  return ⟨{
    name, table, routes, unknownRoutes, hooks, observers, filters, factory
    fields := .ofList fields
    relations := .ofList relations
    scopes := .ofList (scopes.map fun m => (m.1, Scope.ofJson m.1 m.2))
    policies := .ofList policies
    seeder := (config.get? "seeder").any Json.isTrue
    cache := .ofList cache
    fieldNames := fieldMembers.map (·.1)
    relationNames := relationMembers.map (·.1)
    issues := fieldsIssue ++ fieldIssues ++ relationsIssue ++ relationIssues ++ routeIssues ++
      scopesIssue ++ policiesIssue ++ policyIssues ++ hookIssues ++ observerIssues ++
      filtersIssue ++ filterIssues ++ factoryIssues ++ cacheIssue }, rfl⟩

/-- One pivot table from its block of the document. -/
def pivotOf (name : String) (config : Json.Members) :
    Except BuildError { p : Pivot // p.name = name } := do
  let (members, fieldsIssue) := objectAt (config.get? "fields") (name ++ ".fields")
  let (fields, issues) ← fieldsOf name members
  return ⟨⟨name, .ofList fields, textsAt (config.get? "unique"), fieldsIssue ++ issues⟩, rfl⟩

/-- A part of the schema under its own name. -/
abbrev Named {α : Type} (nameOf : α → String) := { entry : String × α // nameOf entry.2 = entry.1 }

/-- The named blocks of a group; a block that is no object, or whose name is blank, is an issue. -/
def blocksOf {α : Type} {nameOf : α → String}
    (build : (name : String) → Json.Members → Except BuildError { a : α // nameOf a = name })
    (issue : String → Issue) : Json.Members → Except BuildError (Built (List (Named nameOf)))
  | [] => .ok ([], [])
  | (name, value) :: rest =>
    match value, Text.isBlankText name with
    | .object config, false => do
      let block ← build name config
      let (blocks, issues) ← blocksOf build issue rest
      return (⟨(name, block), block.2⟩ :: blocks, issues)
    | _, _ => (blocksOf build issue rest).map fun (blocks, issues) => (blocks, issue name :: issues)

/-- The map of named parts; of two under one name the last. -/
def mapOf {α : Type} {nameOf : α → String} (blocks : List (Named nameOf)) : OrderedMap α :=
  .ofList (blocks.map (·.1))

theorem named_of_mem_mapOf {α : Type} {nameOf : α → String} {blocks : List (Named nameOf)} :
    ∀ entry ∈ (mapOf blocks).entries, nameOf entry.2 = entry.1 := by
  intro entry h
  obtain ⟨block, -, rfl⟩ := List.mem_map.1 (OrderedMap.mem_of_mem_ofList h)
  exact block.2

def authOf (members : Json.Members) : Auth :=
  let guards := textsAt (members.get? "guards")
  { enabled := (members.get? "enabled").any Json.isTruthy
    provider := textAt (members.get? "provider") "sanctum"
    guards := if guards.isEmpty then ["web", "api"] else guards
    statefulDomains := textsAt (members.get? "stateful_domains") }

/-- The settings of a document. -/
def settingsOf : Option Json → Built (Option Meta)
  | none | some .null => (none, [])
  | some (.object members) =>
    let get (key : String) := Json.Members.get? members key
    let block (name : String) : Built (OrderedMap Json) :=
      let (entries, issues) := objectAt (get name) ("meta." ++ name)
      (.ofList entries, issues)
    let (auth, authIssues) := objectAt (get "auth") "meta.auth"
    let (app, appIssues) := block "app"
    let (database, databaseIssues) := block "database"
    let (mail, mailIssues) := block "mail"
    let (cache, cacheIssues) := block "cache"
    let (queues, queuesIssues) := block "queues"
    let (cors, corsIssues) := block "cors"
    (some {
      project := textAt (get "project") "GeneratedAPI"
      version := textAt (get "version") "1.0.0"
      auth := authOf auth
      middlewares := textsAt (get "middlewares")
      app, database, mail, cache, queues, cors },
      authIssues ++ appIssues ++ databaseIssues ++ mailIssues ++ cacheIssues ++
        queuesIssues ++ corsIssues)
  | some value => (none, [.notAnObject "meta" value.kind])

/-- One route written by hand, the item of the list at `index`. -/
def customRouteOf (index : Nat) : Json → Except Issue CustomRoute
  | .object members =>
    let get (key : String) := Json.Members.get? members key
    let uri := textAt (get "uri") ""
    let controller := textAt (get "controller") ""
    if uri.isEmpty || controller.isEmpty then .error (.customRouteParts index)
    else .ok {
      method := Text.lower (textAt (get "method") "get")
      uri, controller
      middleware := textsAt (get "middleware")
      name := textAt? (get "name") }
  | _ => .error (.customRouteKind index)

def customRoutesFrom : Nat → List Json → Built (List CustomRoute)
  | _, [] => ([], [])
  | index, item :: rest =>
    let (routes, issues) := customRoutesFrom (index + 1) rest
    match customRouteOf index item with
    | .ok route => (route :: routes, issues)
    | .error issue => (routes, issue :: issues)

def customRoutesOf : Option Json → Built (List CustomRoute)
  | none | some .null => ([], [])
  | some (.array items) => customRoutesFrom 0 items
  | some _ => ([], [.customRoutes])

/-- The schema of a document. -/
def build (document : Json.Members) : Except BuildError Schema := do
  let (settings, settingsIssues) := settingsOf (document.get? "meta")
  let (models, modelsIssue) := objectAt (document.get? "models") "models"
  let (entities, entityIssues) ← blocksOf entityOf .model models
  let (pivotMembers, pivotsIssue) := objectAt (document.get? "pivots") "pivots"
  let (pivots, pivotIssues) ← blocksOf pivotOf .pivot pivotMembers
  let (custom, customIssue) := objectAt (document.get? "custom") "custom"
  let (customRoutes, routeIssues) := customRoutesOf (custom.get? "routes")
  return {
    settings, customRoutes, document
    entities := mapOf entities
    pivots := mapOf pivots
    issues := settingsIssues ++ modelsIssue ++ entityIssues ++ pivotsIssue ++ pivotIssues ++
      customIssue ++ routeIssues
    entities_named := named_of_mem_mapOf
    pivots_named := named_of_mem_mapOf }

end Scaffold.Schema
