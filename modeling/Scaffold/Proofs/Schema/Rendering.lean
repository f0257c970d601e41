import Scaffold.Generation.Emission
import Scaffold.Proofs.Schema.Documents

/-!
# What schemas of one form generate

No renderer looks at what may differ between schemas of one form, so each page is the same of both,
and so are all files that a run makes: `Schema.Agrees.entityPages`, `Schema.Agrees.sharedPages` and
`Schema.Agrees.ofSchema`.
-/

namespace Scaffold
set_option autoImplicit false

open Text (NumeralError)

/-- The class of a related entity hangs on its name only. -/
theorem Render.relatedClass?_eq (s : Schema) (relation : Relation) :
    relatedClass? s relation = relation.target?.map Naming.studly := by
  rw [relatedClass?]
  refine congrArg (Option.map · relation.target?) (funext fun target => ?_)
  cases found : s.entities.get? target with
  | none => rfl
  | some e => exact congrArg Naming.studly (s.entities_named _ (OrderedMap.get?_eq_some.1 found))

/-- All pages that belong to no entity, whether the schema has what they are for or not. -/
def Render.sharedPages (s : Schema) (order : List String) : List String :=
  [routesPage (routesSection s), databaseSeederPage s order, authProviderPage s,
    observerProviderPage s, authControllerPage s]

/-- All pages about an entity, whether it has what they are for or not. -/
def Render.entityPages (s : Schema) (e : Entity) : List (Except NumeralError String) :=
  [.ok (modelPage s e), entityMigration e, usersMigration e, .ok (controllerPage s e),
    factoryPage s e, .ok (seederPage s e), .ok (policyPage e), .ok (observerPage e)]

namespace Entity

/-- An entity without what may differ among those of one form. -/
def core (e : Entity) : Entity :=
  { e with
    hooks := .empty, observers := .empty, cache := .empty, unknownRoutes := [],
    fieldNames := [], relationNames := [], issues := [] }

namespace Agrees

variable {e e' : Entity}

theorem core (h : e.Agrees e') : e.core = e'.core := by
  simp only [Entity.core, h.name, h.table, h.fields, h.relations, h.routes, h.scopes, h.policies,
    h.filters, h.factory, h.seeder]

/-- What does not look at what may differ is the same of both. -/
theorem of_core {α : Type} (h : e.Agrees e') (f : Entity → α) (only : ∀ e, f e = f e.core) :
    f e = f e' := by
  rw [only e, h.core, ← only e']

theorem hasObservers (h : e.Agrees e') : e.hasObservers = e'.hasObservers := by
  have same : e.observers.isEmpty = e'.observers.isEmpty := by
    rw [Bool.eq_iff_iff, OrderedMap.isEmpty_iff, OrderedMap.isEmpty_iff]
    exact forall_congr' fun event => by rw [h.observers]
  exact congrArg not same

theorem className (h : e.Agrees e') : e.className = e'.className := congrArg Naming.studly h.name

theorem variableName (h : e.Agrees e') : e.variableName = e'.variableName :=
  congrArg Naming.camel h.name

/-! Pages that look at one entity only -/

theorem checkLines (h : e.Agrees e') (forUpdate : Bool) :
    Render.checkLines e forUpdate = Render.checkLines e' forUpdate :=
  h.of_core (Render.checkLines · forUpdate) fun _ => rfl

theorem hookCall (h : e.Agrees e') (stage line : String) :
    Render.hookCall e stage line = Render.hookCall e' stage line := by
  have has : e.hooks.has stage = e'.hooks.has stage := congrArg Option.isSome (h.hooks stage)
  rw [Render.hookCall, Render.hookCall, has]

theorem routeMethod (h : e.Agrees e') (route : RouteAction) :
    Render.routeMethod e route = Render.routeMethod e' route := by
  cases route with
  | list => exact h.of_core Render.listMethod fun _ => rfl
  | display => exact h.of_core Render.displayMethod fun _ => rfl
  | create =>
    simp only [Render.routeMethod, Render.createMethod, h.className, h.variableName,
      h.checkLines, h.hookCall]
  | update =>
    simp only [Render.routeMethod, Render.updateMethod, h.className, h.variableName,
      h.checkLines, h.hookCall]
  | delete =>
    simp only [Render.routeMethod, Render.deleteMethod, h.className, h.variableName, h.hookCall]

theorem stagesOf (h : e.Agrees e') : Render.stagesOf e = Render.stagesOf e' := by
  simp only [Render.stagesOf, h.hooks]

theorem handlerMethod (h : e.Agrees e') (stage : String) (actions : List Action) :
    Render.handlerMethod e stage actions = Render.handlerMethod e' stage actions :=
  h.of_core (Render.handlerMethod · stage actions) fun _ => rfl

theorem fileMethods (h : e.Agrees e') (name : String) (field : Field) :
    Render.fileMethods e name field = Render.fileMethods e' name field :=
  h.of_core (Render.fileMethods · name field) fun _ => rfl

theorem observerPage (h : e.Agrees e') : Render.observerPage e = Render.observerPage e' := by
  have events : Render.eventsOf e = Render.eventsOf e' := by
    simp only [Render.eventsOf, h.observers]
  have method (event : String) (actions : List Action) :
    Render.eventMethod e event actions = Render.eventMethod e' event actions :=
    h.of_core (Render.eventMethod · event actions) fun _ => rfl
  simp only [Render.observerPage, h.className, h.variableName, events, method]

end Agrees
end Entity

theorem Pivot.Agrees.pivotMigration {p p' : Pivot} (h : p.Agrees p') :
    Render.pivotMigration p = Render.pivotMigration p' := by
  unfold Render.pivotMigration
  rw [h.name, h.fields, h.unique]

namespace Schema.Agrees

variable {s t : Schema} {e e' : Entity}

theorem enabled (h : s.Agrees t) : s.auth.enabled = t.auth.enabled := h.settings.enabled

theorem provider (h : s.Agrees t) : s.auth.provider = t.auth.provider := h.settings.provider

theorem usesTokens (h : s.Agrees t) : s.auth.usesTokens = t.auth.usesTokens :=
  congrArg (· == "sanctum") h.provider

theorem values (h : s.Agrees t) :
    List.Forall₂ Entity.Agrees s.entities.values t.entities.values := by
  rw [OrderedMap.values, OrderedMap.values, List.forall₂_map_left_iff, List.forall₂_map_right_iff]
  exact h.entities.imp fun _ _ both => both.2

theorem keys (h : s.Agrees t) : s.entities.keys = t.entities.keys := by
  rw [← List.forall₂_eq_eq_eq, OrderedMap.keys, OrderedMap.keys, List.forall₂_map_left_iff,
    List.forall₂_map_right_iff]
  exact h.entities.imp fun _ _ both => both.1

/-- Under each name both have entities of one form, or neither has one. -/
theorem get? (h : s.Agrees t) (name : String) :
    Option.Rel Entity.Agrees (s.entities.get? name) (t.entities.get? name) := by
  rw [OrderedMap.get?, OrderedMap.get?]
  have pairs := h.entities
  generalize s.entities.entries = entries at pairs
  generalize t.entities.entries = others at pairs
  induction pairs with
  | nil => exact .none
  | @cons x y rest rest' both _ ih =>
    obtain ⟨key, e⟩ := x
    obtain ⟨_, e'⟩ := y
    obtain ⟨rfl, agrees⟩ := both
    simp only [List.lookup_cons]
    cases name == key with
    | true => exact .some agrees
    | false => exact ih

theorem has (h : s.Agrees t) (name : String) : s.entities.has name = t.entities.has name := by
  rw [Bool.eq_iff_iff, OrderedMap.has_iff_mem_keys, OrderedMap.has_iff_mem_keys, h.keys]

theorem tables (h : s.Agrees t) : s.tables = t.tables := by
  refine congrArg OrderedMap.ofList ?_
  rw [← List.forall₂_eq_eq_eq, List.forall₂_map_left_iff, List.forall₂_map_right_iff]
  exact h.values.imp fun _ _ agrees => by rw [agrees.table, agrees.name]

/-! The order of entities -/

theorem belongsToGraph (h : s.Agrees t) : s.belongsToGraph = t.belongsToGraph := by
  rw [Schema.belongsToGraph, Schema.belongsToGraph, ← List.forall₂_eq_eq_eq,
    List.forall₂_map_left_iff, List.forall₂_map_right_iff]
  refine h.entities.imp fun x y both => ?_
  have targets : x.2.belongsToTargets = y.2.belongsToTargets :=
    both.2.of_core Entity.belongsToTargets fun _ => rfl
  simp only [both.1, targets, h.has]

theorem dependencyOrder (h : s.Agrees t) : s.dependencyOrder = t.dependencyOrder := by
  have graph : s.dependencyGraph = t.dependencyGraph := by
    rw [Schema.dependencyGraph, Schema.dependencyGraph, h.belongsToGraph, h.tables]
    have pairs := h.entities
    generalize s.entities.entries = entries at pairs
    generalize t.entities.entries = others at pairs
    generalize t.belongsToGraph = graph
    induction pairs generalizing graph with
    | nil => rfl
    | @cons x y _ _ both _ ih =>
      obtain ⟨name, e⟩ := x
      obtain ⟨_, e'⟩ := y
      obtain ⟨rfl, agrees⟩ := both
      have fields : e.fields = e'.fields := agrees.fields
      simp only [List.foldl_cons, fields, ih]
  rw [Schema.dependencyOrder, graph, ← Schema.dependencyOrder]

/-! Pages about an entity -/

theorem authMiddleware (h : s.Agrees t) : Render.authMiddleware s = Render.authMiddleware t := by
  rw [Render.authMiddleware, Render.authMiddleware, h.usesTokens]

theorem modelPage (h : s.Agrees t) (agrees : e.Agrees e') :
    Render.modelPage s e = Render.modelPage t e' := by
  have users : Render.isUsers e = Render.isUsers e' := agrees.of_core Render.isUsers fun _ => rfl
  have soft : e.hasSoftDeletes = e'.hasSoftDeletes :=
    agrees.of_core Entity.hasSoftDeletes fun _ => rfl
  have hidden : Render.hiddenColumns e = Render.hiddenColumns e' :=
    agrees.of_core Render.hiddenColumns fun _ => rfl
  have relation (name : String) (r : Relation) :
      Render.relationMethod s name r = Render.relationMethod t name r := by
    unfold Render.relationMethod
    rw [Render.relatedClass?_eq, Render.relatedClass?_eq]
  simp only [Render.modelPage, Render.modelImports, Render.modelTraits, users, soft, hidden,
    relation, h.enabled, h.usesTokens, agrees.className, agrees.table, agrees.fields,
    agrees.relations, agrees.scopes, agrees.cache]

theorem controllerPage (h : s.Agrees t) (agrees : e.Agrees e') :
    Render.controllerPage s e = Render.controllerPage t e' := by
  have middleware (rule : Rule) : Render.ruleMiddleware s rule = Render.ruleMiddleware t rule := by
    rw [Render.ruleMiddleware, Render.ruleMiddleware, h.authMiddleware]
  have guards : Render.guards s e = Render.guards t e' := by
    have both : Render.guards s e = Render.guards t e := by simp only [Render.guards, middleware]
    rw [both]
    exact agrees.of_core (Render.guards t) fun _ => rfl
  have constructor_ : Render.constructorLines s e = Render.constructorLines t e' := by
    unfold Render.constructorLines Render.middlewareLines
    rw [guards]
  have files : e.fileFields = e'.fileFields := agrees.of_core Entity.fileFields fun _ => rfl
  simp only [Render.controllerPage, constructor_, files, agrees.stagesOf, agrees.routeMethod,
    agrees.handlerMethod, agrees.fileMethods, agrees.className, agrees.routes]

theorem modelOfTable (h : s.Agrees t) (table : String) :
    Render.modelOfTable s table = Render.modelOfTable t table := by
  have owner :
      (s.entityOfTable? table).map (·.className) = (t.entityOfTable? table).map (·.className) := by
    rw [entityOfTable?, entityOfTable?, h.tables]
    cases t.tables.get? table with
    | none => rfl
    | some name =>
      have owners := h.get? name
      rw [Option.bind_some, Option.bind_some]
      generalize s.entities.get? name = owner at owners
      generalize t.entities.get? name = owner' at owners
      cases owners with
      | none => rfl
      | some agrees => exact congrArg some agrees.className
  rw [Render.modelOfTable, owner, ← Render.modelOfTable]

theorem factoryPage (h : s.Agrees t) (agrees : e.Agrees e') :
    Render.factoryPage s e = Render.factoryPage t e' := by
  have sample (name : String) (field : Field) :
      Render.sample s name field = Render.sample t name field := by
    simp only [Render.sample, h.modelOfTable]
  have values : Render.definitionLines s e = Render.definitionLines t e' := by
    simp only [Render.definitionLines, sample, agrees.fields]
  have states : Render.factoryStates e = Render.factoryStates e' :=
    agrees.of_core Render.factoryStates fun _ => rfl
  simp only [Render.factoryPage, values, states, agrees.className]

theorem seederPage (agrees : e.Agrees e') : Render.seederPage s e = Render.seederPage t e' := by
  have parents : Render.parentsOf s e = Render.parentsOf t e' := by
    simp only [Render.parentsOf, Render.relatedClass?_eq, agrees.relations, agrees.className]
  have made : e.hasFactory = e'.hasFactory := congrArg Option.isSome agrees.factory
  simp only [Render.seederPage, parents, made, agrees.className, agrees.factory]

theorem entityPages (h : s.Agrees t) (agrees : e.Agrees e') :
    Render.entityPages s e = Render.entityPages t e' := by
  have migration : Render.entityMigration e = Render.entityMigration e' :=
    agrees.of_core Render.entityMigration fun _ => rfl
  have users : Render.usersMigration e = Render.usersMigration e' :=
    agrees.of_core Render.usersMigration fun _ => rfl
  have policy : Render.policyPage e = Render.policyPage e' :=
    agrees.of_core Render.policyPage fun _ => rfl
  rw [Render.entityPages, h.modelPage agrees, migration, users, h.controllerPage agrees,
    h.factoryPage agrees, seederPage agrees, policy, agrees.observerPage, ← Render.entityPages]

/-! Pages about all entities -/

/-- The entities that have something come in one order. -/
theorem filter_values (h : s.Agrees t) {p : Entity → Bool}
    (same : ∀ {e e' : Entity}, e.Agrees e' → p e = p e') :
    List.Forall₂ Entity.Agrees (s.entities.values.filter p) (t.entities.values.filter p) :=
  List.rel_filter (fun _ _ agrees => by simp only [same agrees]) h.values

theorem map_filter_values (h : s.Agrees t) {α : Type} {p : Entity → Bool} {f : Entity → α}
    (same : ∀ {e e' : Entity}, e.Agrees e' → p e = p e')
    (value : ∀ {e e' : Entity}, e.Agrees e' → f e = f e') :
    (s.entities.values.filter p).map f = (t.entities.values.filter p).map f := by
  rw [← List.forall₂_eq_eq_eq, List.forall₂_map_left_iff, List.forall₂_map_right_iff]
  exact (h.filter_values same).imp fun _ _ agrees => value agrees

theorem routesSection (h : s.Agrees t) : Render.routesSection s = Render.routesSection t := by
  have declared : Render.declaredRoutes s = Render.declaredRoutes t := by
    have lines :=
      h.map_filter_values (p := Entity.hasRoutes) (f := fun e => Render.entityRoutes e ++ [""])
      (fun agrees => agrees.of_core Entity.hasRoutes fun _ => rfl)
      (fun agrees => agrees.of_core (fun e => Render.entityRoutes e ++ [""]) fun _ => rfl)
    unfold Render.declaredRoutes
    rw [List.flatMap_def, lines, ← List.flatMap_def, h.customRoutes]
  have auth : Render.authRoutes s = Render.authRoutes t := by
    unfold Render.authRoutes
    rw [h.usesTokens, h.authMiddleware]
  have middlewares : s.middlewares = t.middlewares := h.settings.middlewares
  unfold Render.routesSection
  rw [declared, auth, h.enabled, middlewares]

theorem seederCalls (h : s.Agrees t) (order : List String) :
    Render.seederCalls s order = Render.seederCalls t order := by
  refine congrArg (List.filterMap · order) (funext fun name => ?_)
  have both := h.get? name
  generalize s.entities.get? name = v at both
  generalize t.entities.get? name = w at both
  cases both with
  | none => rfl
  | some agrees => simp only [agrees.seeder, agrees.className]

theorem authProviderPage (h : s.Agrees t) :
    Render.authProviderPage s = Render.authProviderPage t := by
  have classes := h.map_filter_values (p := Entity.hasPolicies) (f := Entity.className)
    (fun agrees => agrees.of_core Entity.hasPolicies fun _ => rfl) (fun agrees => agrees.className)
  unfold Render.authProviderPage
  rw [classes]

theorem observerProviderPage (h : s.Agrees t) :
    Render.observerProviderPage s = Render.observerProviderPage t := by
  have classes := h.map_filter_values (p := Entity.hasObservers) (f := Entity.className)
    (fun agrees => agrees.hasObservers) (fun agrees => agrees.className)
  unfold Render.observerProviderPage
  rw [classes]

theorem databaseSeederPage (h : s.Agrees t) (order : List String) :
    Render.databaseSeederPage s order = Render.databaseSeederPage t order := by
  unfold Render.databaseSeederPage
  rw [h.seederCalls]

theorem authControllerPage (h : s.Agrees t) :
    Render.authControllerPage s = Render.authControllerPage t := by
  unfold Render.authControllerPage
  rw [h.usesTokens]

theorem sharedPages (h : s.Agrees t) (order : List String) :
    Render.sharedPages s order = Render.sharedPages t order := by
  rw [Render.sharedPages, h.routesSection, h.databaseSeederPage, h.authProviderPage,
    h.observerProviderPage, h.authControllerPage, ← Render.sharedPages]

/-! Emissions -/

theorem ofEntity (h : s.Agrees t) (options : Options) (agrees : e.Agrees e') :
    Emission.ofEntity s options e = Emission.ofEntity t options e' := by
  have metadata : Emission.entityMetadata e = Emission.entityMetadata e' :=
    agrees.of_core Emission.entityMetadata fun _ => rfl
  have migration : Emission.entityMigration e = Emission.entityMigration e' :=
    agrees.of_core Emission.entityMigration fun _ => rfl
  have suffix : Artifact.migrationSuffix? e = Artifact.migrationSuffix? e' :=
    agrees.of_core Artifact.migrationSuffix? fun _ => rfl
  have policies : e.hasPolicies = e'.hasPolicies := agrees.of_core Entity.hasPolicies fun _ => rfl
  have policy : Render.policyPage e = Render.policyPage e' :=
    agrees.of_core Render.policyPage fun _ => rfl
  have routes : e.hasRoutes = e'.hasRoutes := agrees.of_core Entity.hasRoutes fun _ => rfl
  have factory : e.hasFactory = e'.hasFactory := agrees.of_core Entity.hasFactory fun _ => rfl
  unfold Emission.ofEntity Artifact.modelPath Artifact.controllerPath Artifact.factoryPath
    Artifact.seederPath Artifact.policyPath Artifact.observerPath
  rw [metadata, migration, suffix, policies, policy, routes, factory, agrees.seeder,
    agrees.hasObservers, agrees.className, h.modelPage agrees, h.controllerPage agrees,
    h.factoryPage agrees, seederPage agrees, agrees.observerPage]

theorem ofSchema (h : s.Agrees t) (options : Options) (order : List String) :
    Emission.ofSchema s options order = Emission.ofSchema t options order := by
  have entities : List.Forall₂ Entity.Agrees (order.filterMap s.entities.get?)
      (order.filterMap t.entities.get?) := by
    have same : List.Forall₂ (· = ·) order order := List.forall₂_eq_eq_eq ▸ rfl
    exact List.rel_filterMap (fun name _ is => is ▸ h.get? name) same
  have ofEntities : (order.filterMap s.entities.get?).flatMap (Emission.ofEntity s options) =
      (order.filterMap t.entities.get?).flatMap (Emission.ofEntity t options) := by
    rw [← List.forall₂_eq_eq_eq]
    refine List.rel_flatMap entities fun e e' agrees => ?_
    rw [h.ofEntity options agrees, List.forall₂_eq_eq_eq]
  have pivots : s.pivots.values.map Emission.ofPivot = t.pivots.values.map Emission.ofPivot := by
    rw [OrderedMap.values, OrderedMap.values, List.map_map, List.map_map, ← List.forall₂_eq_eq_eq,
      List.forall₂_map_left_iff, List.forall₂_map_right_iff]
    refine h.pivots.imp fun x y both => ?_
    simp only [Function.comp, Emission.ofPivot, both.2.name, both.2.pivotMigration]
  have seeder : Emission.databaseSeeder s options.mode order =
      Emission.databaseSeeder t options.mode order := by
    unfold Emission.databaseSeeder
    rw [h.databaseSeederPage, h.seederCalls]
  have common : Emission.common s options order = Emission.common t options order := by
    unfold Emission.common
    rw [h.routesSection, seeder, h.authProviderPage, h.observerProviderPage, h.authControllerPage,
      h.enabled, h.provider]
  unfold Emission.ofSchema
  rw [ofEntities, pivots, common]

end Schema.Agrees
end Scaffold
