import Scaffold.Artifact
import Scaffold.Proofs.Json.Shapes
import Scaffold.Proofs.OrderedMaps
import Scaffold.Proofs.Outcomes
import Scaffold.Schema.Build

/-!
# Where the order of a document shows

The order in which a group of a document declares its parts is the order in which they are
generated; that of any other members is lost when a schema is built, unless an object stands where a
text is expected.
-/

namespace Scaffold
set_option autoImplicit false

open Json (Shape AlikeAs MembersAlike)

namespace Schema

/-- An action of a hook or an observer. -/
def actionShape : Shape := .record [("action", .fixed), ("message", .fixed)]

/-- The block of an entity; the order of its groups counts if they are `ordered`. -/
def entityShape (ordered : Bool) : Shape :=
  .record [("table", .fixed), ("fields", .all ordered .fixed), ("relations", .all ordered .fixed),
    ("routes", .fixed), ("scopes", .all ordered .fixed), ("policies", .all ordered .fixed),
    ("hooks", .all false actionShape),
    ("observers", .all false actionShape),
    ("filters", .record [("index", .record [("where", .all ordered .fixed), ("orderBy", .fixed),
      ("with", .fixed)])]),
    ("factory", .record [("states", .fixed)])]

/-- The block of a pivot table. -/
def pivotShape (ordered : Bool) : Shape :=
  .record [("fields", .all ordered .fixed), ("unique", .fixed)]

/-- A route written by hand. -/
def routeShape : Shape :=
  .record [("method", .fixed), ("uri", .fixed), ("controller", .fixed), ("middleware", .fixed),
    ("name", .fixed)]

/-- The settings. -/
def settingsShape : Shape :=
  .record [("auth", .record [("provider", .fixed)]), ("middlewares", .fixed)]

/-- A whole document. Without order, it counts only inside of what is read as a text. -/
def documentShape (ordered : Bool) : Shape :=
  .record [("meta", settingsShape), ("models", .all ordered (entityShape ordered)),
    ("pivots", .all ordered (pivotShape ordered)), ("custom", .record [("routes", routeShape)])]

variable {shape : Shape} {members others : Json.Members}

theorem membersAlike_nil : MembersAlike shape [] [] :=
  ⟨rfl, rfl, by simp [Json.alikeAs, Json.alikeMembers]⟩

/-- Two groups that may be missing have members that are alike. -/
theorem objectAt_alike {v w : Option Json} (h : Option.Rel (AlikeAs shape) v w) (subject : String) :
    MembersAlike shape (objectAt v subject).1 (objectAt w subject).1 := by
  cases h with
  | none => exact membersAlike_nil
  | @some a b like =>
    rcases like.cases with ⟨rfl, scalar⟩ | ⟨items, others, rfl, rfl, -⟩ | ⟨members, others,
      rfl, rfl, alike⟩
    · cases a <;> first | exact membersAlike_nil | exact absurd scalar Bool.false_ne_true
    · exact membersAlike_nil
    · exact alike

theorem isEmpty_eq (h : MembersAlike shape members others) : members.isEmpty = others.isEmpty := by
  have length := h.perm_names.length_eq
  rw [List.length_map, List.length_map] at length
  rw [Bool.eq_iff_iff, List.isEmpty_iff_length_eq_zero, List.isEmpty_iff_length_eq_zero, length]

theorem isTruthy_eq {a b : Json} (h : AlikeAs shape a b) : a.isTruthy = b.isTruthy := by
  rcases h.cases with ⟨rfl, -⟩ | ⟨items, others, rfl, rfl, all⟩ | ⟨members, others, rfl, rfl, alike⟩
  · rfl
  · cases all <;> rfl
  · exact congrArg not (isEmpty_eq alike)

theorem any_isTruthy_alike {v w : Option Json} (h : Option.Rel (AlikeAs shape) v w) :
    v.any Json.isTruthy = w.any Json.isTruthy := by
  cases h with
  | none => rfl
  | some like => exact isTruthy_eq like

theorem any_isTrue_alike {v w : Option Json} (h : Option.Rel (AlikeAs shape) v w) :
    v.any Json.isTrue = w.any Json.isTrue := by
  cases h with
  | none => rfl
  | some like =>
    rcases like.cases with ⟨rfl, -⟩ | ⟨items, others, rfl, rfl, -⟩ | ⟨members, others, rfl,
      rfl, -⟩ <;> rfl

section Readable

variable {α ε : Type} {read : Json → Except ε α} {issue : String → ε → Issue}

/-- The parts that can be read are those of the members that can. -/
theorem mem_readable {name : String} {part : α} :
    (name, part) ∈ (readable read issue members).1 ↔ ∃ v, (name, v) ∈ members ∧
    read v = .ok part := by
  induction members with
  | nil => simp [readable]
  | cons m rest ih =>
    obtain ⟨other, v⟩ := m
    simp only [readable]
    cases one : read v with
    | ok a =>
      simp only [List.mem_cons, ih, Prod.mk.injEq]
      constructor
      · rintro (⟨rfl, rfl⟩ | ⟨w, mem, eq⟩)
        · exact ⟨v, .inl ⟨rfl, rfl⟩, one⟩
        · exact ⟨w, .inr mem, eq⟩
      · rintro ⟨w, ⟨rfl, rfl⟩ | mem, eq⟩
        · exact .inl ⟨rfl, Except.ok.inj (eq.symm.trans one)⟩
        · exact .inr ⟨w, mem, eq⟩
    | error e =>
      simp only [List.mem_cons, ih, Prod.mk.injEq]
      constructor
      · rintro ⟨w, mem, eq⟩
        exact ⟨w, .inr mem, eq⟩
      · rintro ⟨w, ⟨rfl, rfl⟩ | mem, eq⟩
        · cases (eq.symm.trans one)
        · exact ⟨w, mem, eq⟩

theorem sublist_readable :
    ((readable read issue members).1.map (·.1)).Sublist (members.map (·.1)) := by
  induction members with
  | nil => exact .slnil
  | cons m rest ih =>
    obtain ⟨name, v⟩ := m
    simp only [readable]
    cases read v with
    | ok a => exact ih.cons_cons name
    | error e => exact ih.cons name

/-- What is found among the parts is what the member under that name gives. -/
theorem get?_readable (nodup : (members.map (·.1)).Nodup) (name : String) :
    (OrderedMap.ofList (readable read issue members).1).get? name = (members.get? name).bind
      fun v => (read v).toOption := by
  refine Option.ext fun part => ?_
  rw [OrderedMap.get?_eq_some, OrderedMap.entries_ofList (nodup.sublist sublist_readable),
    mem_readable, Option.bind_eq_some_iff]
  refine exists_congr fun v => and_congr (Json.get?_eq_some nodup).symm ?_
  cases read v <;> simp [Except.toOption]

end Readable

/-! Actions -/

theorem ofItem_alike {a b : Json} (h : AlikeAs actionShape a b) :
    (Action.ofItem a).toOption = (Action.ofItem b).toOption := by
  rcases h.cases with ⟨rfl, -⟩ | ⟨items, others, rfl, rfl, -⟩ | ⟨members, others, rfl, rfl, alike⟩
  · rfl
  · rfl
  · have action : Json.Members.get? members "action" = Json.Members.get? others "action" :=
      Json.eq_of_rel (alike.get? "action")
    have message : Json.Members.get? members "message" = Json.Members.get? others "message" :=
      Json.eq_of_rel (alike.get? "message")
    simp only [Action.ofItem, action, message]
    split
    · rfl
    · rfl

theorem listOfJson_alike {a b : Json} (h : AlikeAs actionShape a b) :
    (Action.listOfJson a).toOption = (Action.listOfJson b).toOption := by
  rcases h.cases with ⟨rfl, -⟩ | ⟨items, others, rfl, rfl, all⟩ | ⟨members, others, rfl, rfl, -⟩
  · rfl
  · exact toOption_mapM (all.imp fun _ _ => ofItem_alike)
  · have one := ofItem_alike h
    simp only [Action.listOfJson]
    cases first : Action.ofItem (.object members) <;>
      cases second : Action.ofItem (.object others) <;>
      simp_all [Except.toOption, Except.map]

/-- A group of actions gives the same ones under every name. -/
theorem actionsOf_alike {config config' : Json.Members} {group : String}
    (h : Option.Rel (AlikeAs (.all false actionShape)) (config.get? group) (config'.get? group))
    (entity stage : String) :
    (actionsOf entity group config).1.get? stage =
      (actionsOf entity group config').1.get? stage := by
  have alike := objectAt_alike h (entity ++ "." ++ group)
  simp only [actionsOf, get?_readable alike.nodup, get?_readable alike.nodup']
  have each := alike.get? stage
  revert each
  generalize Json.Members.get? _ stage = v
  generalize Json.Members.get? _ stage = w
  intro each
  cases each with
  | none => rfl
  | some same => exact listOfJson_alike same

/-- The filter of a listing, whose conditions come in one order. -/
theorem filterOf_alike {filters filters' : Json.Members}
    (h : MembersAlike (.record
      [("index", .record [("where", .all true .fixed), ("orderBy", .fixed), ("with", .fixed)])])
      filters filters') (entity : String) : (filterOf entity filters).1 =
        (filterOf entity filters').1 := by
  have index := objectAt_alike (h.get? "index") (entity ++ ".filters.index")
  have conditions := (objectAt_alike (index.get? "where") (entity ++ ".filters.index.where")).eq
  have order := Json.eq_of_rel (index.get? "orderBy")
  have relations := Json.eq_of_rel (index.get? "with")
  simp only [filterOf, isEmpty_eq index]
  split
  · rfl
  · simp only [conditions, order, relations]

theorem countOf_alike {v w : Option Json} (h : Option.Rel (AlikeAs shape) v w) :
    countOf v = countOf w := by
  cases h with
  | none => rfl
  | some like =>
    rcases like.cases with ⟨rfl, -⟩ | ⟨items, others, rfl, rfl, -⟩ | ⟨members, others, rfl,
      rfl, -⟩ <;> rfl

/-- Whether there is a factory, and which. -/
theorem factoryOf_alike {v w : Option Json}
    (h : Option.Rel (AlikeAs (.record [("states", .fixed)])) v w) (entity : String) :
    (factoryOf entity v).map (·.1) = (factoryOf entity w).map (·.1) := by
  cases h with
  | none => rfl
  | some like =>
    rcases like.cases with ⟨rfl, -⟩ | ⟨items, others, rfl, rfl, -⟩ | ⟨members, others,
      rfl, rfl, alike⟩
    · rfl
    · rfl
    · have count := countOf_alike (alike.get? "count")
      have states := Json.eq_of_rel (alike.get? "states")
      simp only [factoryOf, count, states]

end Schema

/-! Entities -/

namespace Entity

open Schema

/-- What an entity is built from. -/
structure IsFrom (config : Json.Members) (e : Entity) : Prop where
  table : e.table = textAt (config.get? "table") (Naming.table e.name)
  fields : ∃ fields issues,
    fieldsOf e.name (objectAt (config.get? "fields") (e.name ++ ".fields")).1 =
    .ok (fields, issues) ∧ e.fields = .ofList fields
  relations : e.relations = .ofList (readable Relation.ofJson (.relation e.name)
    (objectAt (config.get? "relations") (e.name ++ ".relations")).1).1
  routes : e.routes = (routesOf e.name (config.get? "routes")).1.1
  unknownRoutes : e.unknownRoutes = (routesOf e.name (config.get? "routes")).1.2
  scopes : e.scopes = .ofList ((objectAt (config.get? "scopes") (e.name ++ ".scopes")).1.map
    fun m => (m.1, Scope.ofJson m.1 m.2))
  policies : e.policies = .ofList (readable Rule.ofJson (.policy e.name)
    (objectAt (config.get? "policies") (e.name ++ ".policies")).1).1
  hooks : e.hooks = (actionsOf e.name "hooks" config).1
  observers : e.observers = (actionsOf e.name "observers" config).1
  filters :
    e.filters = (filterOf e.name (objectAt (config.get? "filters") (e.name ++ ".filters")).1).1
  factory : (factoryOf e.name (config.get? "factory")).map (·.1) = .ok e.factory
  seeder : e.seeder = (config.get? "seeder").any Json.isTrue
  cache : e.cache = .ofList (objectAt (config.get? "cache") (e.name ++ ".cache")).1
  fieldNames : e.fieldNames = (objectAt (config.get? "fields") (e.name ++ ".fields")).1.map (·.1)
  relationNames :
    e.relationNames = (objectAt (config.get? "relations") (e.name ++ ".relations")).1.map (·.1)

theorem isFrom_of_entityOf {name : String} {config : Json.Members}
    {e : { e : Entity // e.name = name }} (h : entityOf name config = .ok e) :
    e.1.IsFrom config := by
  unfold entityOf at h
  simp only [bind_eq_ok] at h
  obtain ⟨⟨fields, fieldIssues⟩, fieldsRead, ⟨factory, factoryIssues⟩, factoryRead, h⟩ := h
  split at h
  · cases h
  · obtain rfl := Except.ok.inj h
    constructor
    case fields => exact ⟨fields, fieldIssues, fieldsRead, rfl⟩
    case factory => simp [factoryRead, Except.map]
    all_goals rfl

/-- Entities of one form: nothing differs but the order of hooks, observers and settings of the
cache, and what could not be read. -/
structure Agrees (e e' : Entity) : Prop where
  name : e.name = e'.name
  table : e.table = e'.table
  fields : e.fields = e'.fields
  relations : e.relations = e'.relations
  routes : e.routes = e'.routes
  scopes : e.scopes = e'.scopes
  policies : e.policies = e'.policies
  hooks : ∀ stage, e.hooks.get? stage = e'.hooks.get? stage
  observers : ∀ event, e.observers.get? event = e'.observers.get? event
  filters : e.filters = e'.filters
  factory : e.factory = e'.factory
  seeder : e.seeder = e'.seeder
  cache : e.cache.isEmpty = e'.cache.isEmpty

variable {name : String} {config config' : Json.Members} {e e' : { e : Entity // e.name = name }}

/-- Blocks whose groups come in one order give entities of one form. -/
theorem agrees_of_entityOf (h : entityOf name config = .ok e) (h' : entityOf name config' = .ok e')
    (alike : MembersAlike (entityShape true) config config') : e.1.Agrees e'.1 := by
  obtain ⟨e, named⟩ := e
  obtain ⟨e', named'⟩ := e'
  have built := isFrom_of_entityOf h
  have built' := isFrom_of_entityOf h'
  dsimp only at built built' ⊢
  have same : e.name = e'.name := named.trans named'.symm
  have group (key subject : String) (ordered : (entityShape true).inside key = .all true .fixed) :
      (objectAt (config.get? key) subject).1 = (objectAt (config'.get? key) subject).1 :=
    (objectAt_alike (ordered ▸ alike.get? key) subject).eq
  have cached := objectAt_alike (alike.get? "cache") (e.name ++ ".cache")
  obtain ⟨fields, issues, read, isFields⟩ := built.fields
  obtain ⟨fields', issues', read', isFields'⟩ := built'.fields
  constructor
  case name => exact same
  case table => rw [built.table, built'.table, same, Json.eq_of_rel (alike.get? "table")]
  case fields =>
    rw [same, group "fields" _ rfl, read'] at read
    rw [isFields, isFields', (Prod.mk.inj (Except.ok.inj read)).1]
  case relations => rw [built.relations, built'.relations, same, group "relations" _ rfl]
  case routes => rw [built.routes, built'.routes, same, Json.eq_of_rel (alike.get? "routes")]
  case scopes => rw [built.scopes, built'.scopes, same, group "scopes" _ rfl]
  case policies => rw [built.policies, built'.policies, same, group "policies" _ rfl]
  case hooks =>
    intro stage
    rw [built.hooks, built'.hooks, same]
    exact actionsOf_alike (alike.get? "hooks") _ stage
  case observers =>
    intro event
    rw [built.observers, built'.observers, same]
    exact actionsOf_alike (alike.get? "observers") _ event
  case filters =>
    rw [built.filters, built'.filters, same]
    exact filterOf_alike (objectAt_alike (alike.get? "filters") _) _
  case factory =>
    have both := factoryOf_alike (alike.get? "factory") e.name
    rw [built.factory, same, built'.factory] at both
    exact Except.ok.inj both
  case seeder =>
    rw [built.seeder, built'.seeder]
    exact any_isTrue_alike (alike.get? "seeder")
  case cache =>
    rw [built.cache, built'.cache, OrderedMap.isEmpty, OrderedMap.isEmpty,
      OrderedMap.entries_ofList cached.nodup, ← same,
      OrderedMap.entries_ofList cached.nodup']
    exact isEmpty_eq cached

end Entity
end Scaffold
