import Scaffold.Proofs.Schema.Flaws

/-!
# Which documents become schemas

Three things stop the building of a schema: a definition of a field with digits that spell no
number, a factory with infinitely many rows, and a model whose table has no name
(`Schema.Obstacle`). From a document without them a schema is built, whatever else it holds; it has
each part that can be read and an issue for each that cannot (`Schema.Represents`).
-/

namespace Scaffold
set_option autoImplicit false

/-- The items of the list under a key, if there is one. -/
def Json.Members.items (members : Json.Members) (key : String) : List Json :=
  match members.get? key with
  | some (.array items) => items
  | _ => []

namespace Schema

/-- The fields that can be read stand under their names. -/
def HoldsFields (members : Json.Members) (fields : OrderedMap Field) : Prop :=
  ∀ name field, fields.get? name = some field ↔
    ∃ definition, members.get? name = some (.string definition) ∧ Field.parse definition = .ok field

/-- The parts that can be read stand under their names. -/
def HoldsParts {α ε : Type} (read : Json → Except ε α) (members : Json.Members)
    (parts : OrderedMap α) : Prop :=
  ∀ name part, parts.get? name = some part ↔ ∃ value, members.get? name = some value ∧
    read value = .ok part

theorem holdsParts_readable {α ε : Type} {read : Json → Except ε α} {note : String → ε → Issue}
    {members : Json.Members} (nodup : (members.map (·.1)).Nodup) :
    HoldsParts read members (.ofList (readable read note members).1) := by
  intro name part
  rw [get?_readable nodup, Option.bind_eq_some_iff]
  refine exists_congr fun v => and_congr Iff.rfl ?_
  cases read v <;> simp [Except.toOption]

end Schema

/-! Entities -/

namespace Entity

open Schema

/-- What stops the building of an entity. -/
inductive Obstacle (name : String) (config : Json.Members) : Prop where
  | digits {field definition : String} (mem : (field, .string definition) ∈ config.group "fields")
      (unreadable : Field.IsUnreadable definition)
  | infinite {members : Json.Members} {negative : Bool}
      (found : config.get? "factory" = some (.object members))
      (count : members.get? "count" = some (.float (.infinite negative)))
  | nameless (untitled : textAt (config.get? "table") (Naming.table name) = "")

/-- An entity that has all that can be read of its block, with the issues of the rest. -/
structure Represents (e : Entity) (name : String) (config : Json.Members) : Prop where
  named : e.name = name
  table : e.table = textAt (config.get? "table") (Naming.table name)
  fields : HoldsFields (config.group "fields") e.fields
  relations : HoldsParts Relation.ofJson (config.group "relations") e.relations
  routes : ∀ action, action ∈ e.routes ↔ ∃ item ∈ config.items "routes",
    RouteAction.ofWord? (Text.strip item.plain) = some action
  unknownRoutes : ∀ word, word ∈ e.unknownRoutes ↔
    RouteAction.ofWord? word = none ∧ ∃ item ∈ config.items "routes", Text.strip item.plain = word
  scopes : ∀ scope spec, e.scopes.get? scope = some spec ↔
    ∃ value, (config.group "scopes").get? scope = some value ∧ Scope.ofJson scope value = spec
  policies : HoldsParts Rule.ofJson (config.group "policies") e.policies
  hooks : HoldsParts Action.listOfJson (config.group "hooks") e.hooks
  observers : HoldsParts Action.listOfJson (config.group "observers") e.observers
  unfiltered : e.filters = none ↔ (config.group "filters").group "index" = []
  conditions : ∀ filter, e.filters = some filter → ∀ field text,
    filter.conditions.get? field = some text ↔ ∃ value,
    (((config.group "filters").group "index").group "where").get? field = some value ∧
    value.plain = text
  listing : ∀ filter, e.filters = some filter →
    filter.order = orderOf? (((config.group "filters").group "index").get? "orderBy") ∧
      filter.relations = textsAt (((config.group "filters").group "index").get? "with")
  factory : ∀ f, e.factory = some f ↔ config.get? "factory" = some (.bool true) ∧ f = {} ∨
    ∃ members count, config.get? "factory" = some (.object members) ∧
    countOf (Json.Members.get? members "count") = .ok (some count) ∧
      0 ≤ count ∧ f = ⟨count.toNat, textsAt (Json.Members.get? members "states")⟩
  seeder : e.seeder = true ↔ config.get? "seeder" = some (.bool true)
  cache : e.cache.entries = config.group "cache"
  fieldNames : e.fieldNames = (config.group "fields").map (·.1)
  relationNames : e.relationNames = (config.group "relations").map (·.1)
  issues : ∀ issue, issue ∈ e.issues ↔ Flaw name config issue

end Entity

namespace Schema

variable {name : String} {config : Json.Members}

theorem exists_countOf_iff {value : Option Json} :
    (∃ count, countOf value = .ok count) ↔
    ∀ negative, value ≠ some (.float (.infinite negative)) := by
  unfold countOf
  split <;> simp_all

theorem exists_factoryOf_iff {value : Option Json} : (∃ read, factoryOf name value = .ok read) ↔
    ∀ (members : Json.Members) (negative : Bool), value = some (.object members) →
      members.get? "count" ≠ some (.float (.infinite negative)) := by
  unfold factoryOf
  split
  case h_5 members =>
    have counted := @exists_countOf_iff (Json.Members.get? members "count")
    simp only [map_eq_ok]
    constructor
    · rintro ⟨-, count, isCount, -⟩ others negative is
      obtain rfl := Json.object.inj (Option.some.inj is)
      exact counted.1 ⟨count, isCount⟩ negative
    · intro finite
      obtain ⟨count, isCount⟩ := counted.2 fun negative => finite members negative rfl
      exact ⟨_, count, isCount, rfl⟩
  all_goals simp_all

/-- An entity is built unless one of the obstacles is met. -/
theorem exists_entityOf_iff :
    (∃ e, entityOf name config = .ok e) ↔ ¬ Entity.Obstacle name config := by
  have fieldsIff :
      (∃ read, fieldsOf name (objectAt (config.get? "fields") (name ++ ".fields")).1 = .ok read) ↔
      AreClear (config.group "fields") := by
    rw [objectAt_fst]
    exact exists_fieldsOf_iff
  have factoryIff := @exists_factoryOf_iff name (config.get? "factory")
  constructor
  · rintro ⟨e, made⟩ obstacle
    unfold entityOf at made
    simp only [bind_eq_ok] at made
    obtain ⟨fields, fieldsRead, factory, factoryRead, made⟩ := made
    cases obstacle with
    | digits mem unreadable => exact fieldsIff.1 ⟨fields, fieldsRead⟩ _ _ mem unreadable
    | infinite found count => exact factoryIff.1 ⟨factory, factoryRead⟩ _ _ found count
    | nameless untitled =>
      rw [if_pos (String.isEmpty_iff.2 untitled)] at made
      cases made
  · intro free
    obtain ⟨fields, fieldsRead⟩ :=
      fieldsIff.2 fun field definition mem unreadable => free (.digits mem unreadable)
    obtain ⟨factory, factoryRead⟩ :=
      factoryIff.2 fun members negative found count => free (.infinite found count)
    have named : ¬ (textAt (config.get? "table") (Naming.table name)).isEmpty = true :=
      fun empty => free (.nameless (String.isEmpty_iff.1 empty))
    cases outcome : entityOf name config with
    | ok e => exact ⟨e, rfl⟩
    | error stop =>
      unfold entityOf at outcome
      simp only [fieldsRead, factoryRead, bind, Except.bind, if_neg named] at outcome
      cases outcome

/-- What is found when every member has a part. -/
theorem get?_mapped {α : Type} {members : Json.Members} (nodup : (members.map (·.1)).Nodup)
    (part : String → Json → α) {name : String} {a : α} :
    (OrderedMap.ofList (members.map fun m => (m.1, part m.1 m.2))).get? name = some a ↔
      ∃ value, members.get? name = some value ∧ part name value = a := by
  have names : (members.map fun m => (m.1, part m.1 m.2)).map (·.1) = members.map (·.1) := by
    rw [List.map_map]
    rfl
  rw [OrderedMap.get?_eq_some, OrderedMap.entries_ofList (names ▸ nodup), List.mem_map]
  constructor
  · rintro ⟨⟨other, value⟩, mem, same⟩
    obtain ⟨rfl, rfl⟩ := Prod.mk.inj same
    exact ⟨value, (Json.get?_eq_some nodup).2 mem, rfl⟩
  · rintro ⟨value, found, rfl⟩
    exact ⟨(name, value), (Json.get?_eq_some nodup).1 found, rfl⟩

theorem holdsParts_actionsOf {group : String} (nodup : ((config.group group).map (·.1)).Nodup) :
    HoldsParts Action.listOfJson (config.group group) (actionsOf name group config).1 := by
  unfold actionsOf
  dsimp only
  rw [objectAt_fst]
  exact holdsParts_readable nodup

theorem routesOf_fst : (routesOf name (config.get? "routes")).1 =
    ((((config.items "routes").map fun item => Text.strip item.plain).filterMap
      RouteAction.ofWord?).eraseDups,
      ((config.items "routes").map fun item => Text.strip item.plain).filter fun word =>
        (RouteAction.ofWord? word).isNone) := by
  unfold routesOf Json.Members.items
  split <;> simp_all

theorem isEmpty_filterOf {filters : Json.Members} :
    (filterOf name filters).1 = none ↔ filters.group "index" = [] := by
  unfold filterOf
  dsimp only
  rw [objectAt_fst, ← List.isEmpty_iff]
  split <;> simp_all

theorem filterOf_eq_some {filters : Json.Members} {filter : IndexFilter}
    (h : (filterOf name filters).1 = some filter) :
    filter.conditions = .ofList (((filters.group "index").group "where").map fun m =>
      (m.1, m.2.plain)) ∧ filter.order = orderOf? ((filters.group "index").get? "orderBy") ∧
        filter.relations = textsAt ((filters.group "index").get? "with") := by
  unfold filterOf at h
  dsimp only at h
  rw [objectAt_fst] at h
  split at h
  · cases h
  · obtain rfl := Option.some.inj h
    exact ⟨by rw [objectAt_fst], rfl, rfl⟩

theorem factoryOf_eq_some {value : Option Json} {factory : Option Factory}
    (h : (factoryOf name value).map (·.1) = .ok factory)
    {f : Factory} : factory = some f ↔ value = some (.bool true) ∧ f = {} ∨
      ∃ (members : Json.Members) (count : Int), value = some (.object members) ∧
      countOf (members.get? "count") = .ok (some count) ∧
        0 ≤ count ∧ f = ⟨count.toNat, textsAt (members.get? "states")⟩ := by
  obtain ⟨⟨made, issues⟩, built, rfl⟩ := map_eq_ok.1 h
  unfold factoryOf at built
  split at built
  · obtain ⟨rfl, -⟩ := Prod.mk.inj (Except.ok.inj built)
    simp
  · obtain ⟨rfl, -⟩ := Prod.mk.inj (Except.ok.inj built)
    simp
  · obtain ⟨rfl, -⟩ := Prod.mk.inj (Except.ok.inj built)
    simp
  · obtain ⟨rfl, -⟩ := Prod.mk.inj (Except.ok.inj built)
    simp [eq_comm]
  · rename_i members
    obtain ⟨count, isCount, built⟩ := map_eq_ok.1 built
    have only : (∃ (others : Json.Members) (count : Int),
        some (Json.object members) = some (.object others) ∧
        countOf (others.get? "count") = .ok (some count) ∧ 0 ≤ count ∧
        f = ⟨count.toNat, textsAt (others.get? "states")⟩) ↔
        ∃ given, count = some given ∧ 0 ≤ given ∧
        f = ⟨given.toNat, textsAt (Json.Members.get? members "states")⟩ := by
      constructor
      · rintro ⟨others, given, is, counted, rest⟩
        obtain rfl := Json.object.inj (Option.some.inj is)
        exact ⟨given, Except.ok.inj (isCount.symm.trans counted), rest⟩
      · rintro ⟨given, rfl, rest⟩
        exact ⟨members, given, rfl, isCount, rest⟩
    rw [only]
    cases count with
    | none =>
      obtain ⟨rfl, -⟩ := Prod.mk.inj built
      simp
    | some count =>
      dsimp only at built
      split at built
      · rename_i negative
        obtain ⟨rfl, -⟩ := Prod.mk.inj built
        simp [Int.not_le.2 negative]
      · rename_i natural
        obtain ⟨rfl, -⟩ := Prod.mk.inj built
        simp [Int.not_lt.1 natural, eq_comm]
  · rename_i v noNull noFalse noTrue noObject
    obtain ⟨rfl, -⟩ := Prod.mk.inj (Except.ok.inj built)
    simp_all

theorem represents_of_entityOf (sound : (Json.object config).isSound = true)
    {e : { e : Entity // e.name = name }} (h : entityOf name config = .ok e) :
    e.1.Represents name config := by
  have built := Entity.isFrom_of_entityOf h
  have issues (issue : Issue) := @mem_issues_of_entityOf name config issue e h
  have nodup := Json.nodup_group sound
  obtain ⟨e, rfl⟩ := e
  dsimp only at built issues ⊢
  obtain ⟨fields, fieldIssues, fieldsRead, areFields⟩ := built.fields
  rw [objectAt_fst] at fieldsRead
  constructor
  case named => rfl
  case table => exact built.table
  case fields =>
    intro field spec
    rw [areFields]
    exact get?_fieldsOf (nodup _) fieldsRead
  case relations =>
    rw [built.relations, objectAt_fst]
    exact holdsParts_readable (nodup _)
  case routes =>
    intro action
    simp [built.routes, routesOf_fst, List.mem_eraseDups]
  case unknownRoutes =>
    intro word
    simp [built.unknownRoutes, routesOf_fst, and_comm]
  case scopes =>
    intro scope spec
    rw [built.scopes, objectAt_fst]
    exact get?_mapped (nodup _) Scope.ofJson
  case policies =>
    rw [built.policies, objectAt_fst]
    exact holdsParts_readable (nodup _)
  case hooks =>
    rw [built.hooks]
    exact holdsParts_actionsOf (nodup _)
  case observers =>
    rw [built.observers]
    exact holdsParts_actionsOf (nodup _)
  case unfiltered => rw [built.filters, objectAt_fst, isEmpty_filterOf]
  case conditions =>
    intro filter isFilter field text
    rw [built.filters, objectAt_fst] at isFilter
    rw [(filterOf_eq_some isFilter).1]
    exact get?_mapped (Json.nodup_group (Json.isSound_group (Json.isSound_group sound _) _) _)
      fun _ v => v.plain
  case listing =>
    intro filter isFilter
    rw [built.filters, objectAt_fst] at isFilter
    exact (filterOf_eq_some isFilter).2
  case factory =>
    intro f
    exact factoryOf_eq_some built.factory
  case seeder =>
    have flag (v : Json) : v.isTrue = true ↔ v = .bool true := by
      cases v <;> simp [Json.isTrue]
    simp [built.seeder, Option.any_eq_true, flag]
  case cache =>
    rw [built.cache, objectAt_fst, OrderedMap.entries_ofList (nodup _)]
  case fieldNames => rw [built.fieldNames, objectAt_fst]
  case relationNames => rw [built.relationNames, objectAt_fst]
  case issues => exact issues

end Schema

/-! Pivot tables -/

namespace Pivot

open Schema

/-- What stops the building of a pivot table. -/
inductive Obstacle (config : Json.Members) : Prop where
  | digits {field definition : String} (mem : (field, .string definition) ∈ config.group "fields")
      (unreadable : Field.IsUnreadable definition)

/-- A pivot table that has all that can be read of its block, with the issues of the rest. -/
structure Represents (p : Pivot) (name : String) (config : Json.Members) : Prop where
  named : p.name = name
  fields : HoldsFields (config.group "fields") p.fields
  unique : p.unique = textsAt (config.get? "unique")
  issues : ∀ issue, issue ∈ p.issues ↔ Flaw name config issue

end Pivot

namespace Schema

variable {name : String} {config : Json.Members}

/-- A pivot table is built unless the obstacle is met. -/
theorem exists_pivotOf_iff : (∃ p, pivotOf name config = .ok p) ↔ ¬ Pivot.Obstacle config := by
  have fieldsIff :
      (∃ read, fieldsOf name (objectAt (config.get? "fields") (name ++ ".fields")).1 = .ok read) ↔
      AreClear (config.group "fields") := by
    rw [objectAt_fst]
    exact exists_fieldsOf_iff
  constructor
  · rintro ⟨p, made⟩ ⟨mem, unreadable⟩
    simp only [pivotOf, bind_eq_ok] at made
    obtain ⟨fields, fieldsRead, -⟩ := made
    exact fieldsIff.1 ⟨fields, fieldsRead⟩ _ _ mem unreadable
  · intro free
    obtain ⟨fields, fieldsRead⟩ :=
      fieldsIff.2 fun field definition mem unreadable => free (.digits mem unreadable)
    cases outcome : pivotOf name config with
    | ok p => exact ⟨p, rfl⟩
    | error stop =>
      simp only [pivotOf, fieldsRead, bind, Except.bind] at outcome
      cases outcome

theorem represents_of_pivotOf (sound : (Json.object config).isSound = true)
    {p : { p : Pivot // p.name = name }} (h : pivotOf name config = .ok p) :
    p.1.Represents name config := by
  have issues (issue : Issue) := @mem_issues_of_pivotOf name config issue p h
  refine ⟨p.2, ?_, ?_, issues⟩
  · simp only [pivotOf, bind_eq_ok, objectAt_fst] at h
    obtain ⟨⟨fields, fieldIssues⟩, fieldsRead, made⟩ := h
    obtain rfl := Except.ok.inj made
    intro field spec
    exact get?_fieldsOf (Json.nodup_group sound _) fieldsRead
  · simp only [pivotOf, bind_eq_ok] at h
    obtain ⟨fields, -, made⟩ := h
    obtain rfl := Except.ok.inj made
    rfl

/-! Whole documents -/

section Blocks

variable {α : Type} {nameOf : α → String}
  {make : (name : String) → Json.Members → Except BuildError { a : α // nameOf a = name }}
  {note : String → Issue} {members : Json.Members}

/-- A group of blocks is built if each of them is. -/
theorem exists_blocksOf_iff : (∃ read, @blocksOf α nameOf make note members = .ok read) ↔
    ∀ name config, (name, .object config) ∈ members → Text.isBlankText name = false →
    ∃ b, make name config = .ok b := by
  constructor
  · rintro ⟨⟨blocks, issues⟩, read⟩ name config mem named
    obtain ⟨b, built, -⟩ := (areBlocks_of_blocksOf read).complete name config mem named
    exact ⟨b, built⟩
  · intro each
    induction members with
    | nil => exact ⟨_, rfl⟩
    | cons m rest ih =>
      obtain ⟨name, value⟩ := m
      obtain ⟨others, read⟩ :=
        ih fun name config mem => each name config (List.mem_cons_of_mem _ mem)
      unfold blocksOf
      split
      · rename_i config named
        obtain ⟨b, built⟩ := each name config (List.mem_cons_self ..) named
        exact ⟨_, by rw [built, read]; rfl⟩
      · exact ⟨_, by rw [read]; rfl⟩

end Blocks

/-- What stops the building of a schema. -/
inductive Obstacle (document : Json.Members) : Prop where
  | model {name : String} {config : Json.Members}
      (mem : (name, .object config) ∈ document.group "models")
      (named : Text.isBlankText name = false) (stops : Entity.Obstacle name config)
  | pivot {name : String} {config : Json.Members}
      (mem : (name, .object config) ∈ document.group "pivots")
      (named : Text.isBlankText name = false) (stops : Pivot.Obstacle config)

end Schema

/-- Settings that have all that can be read of their block. -/
structure Meta.Represents (settings : Meta) (members : Json.Members) : Prop where
  project : settings.project = Schema.textAt (members.get? "project") "GeneratedAPI"
  version : settings.version = Schema.textAt (members.get? "version") "1.0.0"
  auth : settings.auth = Schema.authOf (members.group "auth")
  middlewares : settings.middlewares = Schema.textsAt (members.get? "middlewares")
  app : settings.app.entries = members.group "app"
  database : settings.database.entries = members.group "database"
  mail : settings.mail.entries = members.group "mail"
  cache : settings.cache.entries = members.group "cache"
  queues : settings.queues.entries = members.group "queues"
  cors : settings.cors.entries = members.group "cors"

namespace Schema

/-- A schema that has all that can be read of its document, with the issues of the rest. -/
structure Represents (s : Schema) (document : Json.Members) : Prop where
  settings : ∀ members, document.get? "meta" = some (.object members) → ∃ settings,
    s.settings = some settings ∧ settings.Represents members
  unset : (∀ members, document.get? "meta" ≠ some (.object members)) → s.settings = none
  entities : ∀ name config, (document.group "models").get? name = some (.object config) →
    Text.isBlankText name = false → ∃ e, s.entities.get? name = some e ∧ e.Represents name config
  onlyEntities : ∀ name e, s.entities.get? name = some e →
    Text.isBlankText name = false ∧ ∃ config, (document.group "models").get? name =
      some (.object config)
  pivots : ∀ name config, (document.group "pivots").get? name = some (.object config) →
    Text.isBlankText name = false → ∃ p, s.pivots.get? name = some p ∧ p.Represents name config
  onlyPivots : ∀ name p, s.pivots.get? name = some p →
    Text.isBlankText name = false ∧ ∃ config, (document.group "pivots").get? name =
      some (.object config)
  customRoutes : s.customRoutes =
    ((document.group "custom").items "routes").zipIdx.filterMap fun item =>
      (customRouteOf item.2 item.1).toOption
  source : s.document = document
  issues : ∀ issue, issue ∈ s.issues ↔ Flaw document issue

theorem settingsOf_of_object {members : Json.Members}
    (sound : (Json.object members).isSound = true) :
    ∃ settings, (settingsOf (some (.object members))).1 = some settings ∧
    settings.Represents members := by
  have entries (key subject : String) :
      (OrderedMap.ofList (objectAt (members.get? key) subject).1).entries = members.group key := by
    rw [objectAt_fst, OrderedMap.entries_ofList (Json.nodup_group sound key)]
  refine ⟨_, rfl, ⟨rfl, rfl, ?_, rfl, ?_, ?_, ?_, ?_, ?_, ?_⟩⟩
  · exact congrArg authOf (objectAt_fst members "auth" "meta.auth")
  all_goals exact entries _ _

theorem settingsOf_eq_none {value : Option Json} (h : ∀ members, value ≠ some (.object members)) :
    (settingsOf value).1 = none := by
  unfold settingsOf
  split <;> simp_all

theorem customRoutesFrom_fst (start : Nat) (items : List Json) : (customRoutesFrom start items).1 =
    (items.zipIdx start).filterMap fun item => (customRouteOf item.2 item.1).toOption := by
  induction items generalizing start with
  | nil => rfl
  | cons item rest ih =>
    simp only [customRoutesFrom, List.zipIdx_cons, List.filterMap_cons]
    cases customRouteOf start item <;> simp [Except.toOption, ih]

theorem customRoutesOf_fst (custom : Json.Members) : (customRoutesOf (custom.get? "routes")).1 =
    (custom.items "routes").zipIdx.filterMap fun item =>
      (customRouteOf item.2 item.1).toOption := by
  unfold customRoutesOf
  split
  · rename_i absent
    simp [Json.Members.items, absent]
  · rename_i void
    simp [Json.Members.items, void]
  · rename_i items is
    simp only [Json.Members.items, is]
    exact customRoutesFrom_fst 0 items
  · rename_i v noNull noList is
    have noItems : custom.items "routes" = [] := by
      unfold Json.Members.items
      split
      · rename_i items list
        exact absurd (Option.some.inj (is.symm.trans list)) (noList items)
      · rfl
    rw [noItems]
    rfl

variable {document : Json.Members}

/-- A schema is built unless one of the obstacles is met. -/
theorem exists_build_iff : (∃ s, build document = .ok s) ↔ ¬ Obstacle document := by
  have models :
      (∃ read, blocksOf entityOf .model (objectAt (document.get? "models") "models").1 = .ok read) ↔
      ∀ name config, (name, .object config) ∈ document.group "models" →
      Text.isBlankText name = false →
        ¬ Entity.Obstacle name config := by
    simp only [exists_blocksOf_iff, exists_entityOf_iff, objectAt_fst]
  have pivots :
      (∃ read, blocksOf pivotOf .pivot (objectAt (document.get? "pivots") "pivots").1 = .ok read) ↔
      ∀ name config, (name, .object config) ∈ document.group "pivots" →
      Text.isBlankText name = false → ¬ Pivot.Obstacle config := by
    simp only [exists_blocksOf_iff, exists_pivotOf_iff, objectAt_fst]
  constructor
  · rintro ⟨s, made⟩ obstacle
    unfold build at made
    simp only [bind_eq_ok] at made
    obtain ⟨entities, entitiesRead, tables, tablesRead, -⟩ := made
    cases obstacle with
    | model mem named stops => exact models.1 ⟨entities, entitiesRead⟩ _ _ mem named stops
    | pivot mem named stops => exact pivots.1 ⟨tables, tablesRead⟩ _ _ mem named stops
  · intro free
    obtain ⟨entities, entitiesRead⟩ :=
      models.2 fun name config mem named stops => free (.model mem named stops)
    obtain ⟨tables, tablesRead⟩ :=
      pivots.2 fun name config mem named stops => free (.pivot mem named stops)
    cases outcome : build document with
    | ok s => exact ⟨s, rfl⟩
    | error stop =>
      unfold build at outcome
      simp only [entitiesRead, tablesRead, bind, Except.bind] at outcome
      cases outcome

theorem represents_of_build (sound : (Json.object document).isSound = true) {s : Schema}
    (h : build document = .ok s) : s.Represents document := by
  have built := isFrom_of_build h
  have nodup := Json.nodup_group sound
  have soundAt {group name : String} {config : Json.Members}
      (found : (document.group group).get? name = some (.object config)) :
      (Json.object config).isSound = true :=
    Json.isSound_of_get? (Json.isSound_object.1 (Json.isSound_group sound group)).2 found
  obtain ⟨entities, entityIssues, entitiesRead, areEntities⟩ := built.entities
  obtain ⟨pivots, pivotIssues, pivotsRead, arePivots⟩ := built.pivots
  rw [objectAt_fst] at entitiesRead pivotsRead
  have models := areBlocks_of_blocksOf entitiesRead
  have tables := areBlocks_of_blocksOf pivotsRead
  constructor
  case settings =>
    intro members is
    rw [built.settings, is]
    exact settingsOf_of_object (Json.isSound_of_get? (Json.isSound_object.1 sound).2 is)
  case unset =>
    intro noObject
    rw [built.settings, settingsOf_eq_none noObject]
  case entities =>
    intro name config found named
    obtain ⟨e, made, -⟩ := models.complete name config ((Json.get?_eq_some (nodup _)).1 found) named
    refine ⟨e.1, ?_, represents_of_entityOf (soundAt found) made⟩
    rw [areEntities, models.get?_eq_some (nodup _)]
    exact ⟨config, e, found, named, made, rfl⟩
  case onlyEntities =>
    intro name e found
    rw [areEntities, models.get?_eq_some (nodup _)] at found
    obtain ⟨config, -, isBlock, named, -⟩ := found
    exact ⟨named, config, isBlock⟩
  case pivots =>
    intro name config found named
    obtain ⟨p, made, -⟩ := tables.complete name config ((Json.get?_eq_some (nodup _)).1 found) named
    refine ⟨p.1, ?_, represents_of_pivotOf (soundAt found) made⟩
    rw [arePivots, tables.get?_eq_some (nodup _)]
    exact ⟨config, p, found, named, made, rfl⟩
  case onlyPivots =>
    intro name p found
    rw [arePivots, tables.get?_eq_some (nodup _)] at found
    obtain ⟨config, -, isBlock, named, -⟩ := found
    exact ⟨named, config, isBlock⟩
  case customRoutes =>
    rw [built.customRoutes, objectAt_fst, customRoutesOf_fst]
  case source => exact built.document
  case issues => exact fun issue => mem_issues_of_build h

/-- A schema is built from every document without an obstacle and from no other; it has each part of
the document that can be read, and an issue for each that cannot. -/
theorem builds_iff (sound : (Json.object document).isSound = true) :
    (∃ s, build document = .ok s ∧ s.Represents document) ↔ ¬ Obstacle document := by
  rw [← exists_build_iff]
  constructor
  · rintro ⟨s, made, -⟩
    exact ⟨s, made⟩
  · rintro ⟨s, made⟩
    exact ⟨s, made, represents_of_build sound made⟩

/-- A document with one model that has one field. -/
def withField (definition : String) : Json.Members :=
  [("models", .object [("Order", .object [("fields", .object [("price", .string definition)])])])]

/-- A malformed field is no obstacle: its model is built with an issue. -/
theorem builds_malformedField :
    (Json.object (withField "decimal:x,2")).isSound = true ∧ ¬ Obstacle (withField "decimal:x,2") ∧
    ∃ s e, build (withField "decimal:x,2") = .ok s ∧ s.entities.get? "Order" = some e ∧
      .field "Order" "price" ⟨"decimal:x,2", "decimal:x,2", .decimalDigits⟩ ∈ e.issues := by
  have sound : (Json.object (withField "decimal:x,2")).isSound = true := by decide +kernel
  have built : succeeds (build (withField "decimal:x,2")) (fun _ => true) = true := by
    decide +kernel
  have malformed : Field.parse "decimal:x,2" =
      .error (.malformed ⟨"decimal:x,2", "decimal:x,2", .decimalDigits⟩) := by
    decide +kernel
  obtain ⟨s, made, -⟩ := succeeds_eq_true.1 built
  have free : ¬ Obstacle (withField "decimal:x,2") := exists_build_iff.1 ⟨s, made⟩
  obtain ⟨s, made, represents⟩ := (builds_iff sound).2 free
  obtain ⟨e, found, block⟩ :=
    represents.entities "Order" [("fields", .object [("price", .string "decimal:x,2")])]
      rfl (by decide +kernel)
  exact ⟨sound, free, s, e, made, found,
    (block.issues _).2 (.field (.malformed (List.mem_singleton.2 rfl) malformed))⟩

/-- Digits that spell no number are one: no schema is built. -/
theorem unbuilt_superscript : ¬ ∀ document : Json.Members, (Json.object document).isSound = true →
    ∃ s, build document = .ok s := by
  intro all
  obtain ⟨s, made⟩ := all (withField "decimal:²,2") (by decide +kernel)
  have stopped : succeeds (build (withField "decimal:²,2")) (fun _ => true) = false := by
    decide +kernel
  rw [made] at stopped
  cases stopped

end Schema
end Scaffold
