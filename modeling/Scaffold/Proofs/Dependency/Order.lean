import Scaffold.Proofs.Dependency.Search
import Scaffold.Proofs.OrderedMaps

/-!
# The order of the entities

`dependencyGraph` grows out of `belongsToGraph` by edges none of which closes a cycle, so a cycle
runs through relations only (`Graph.Grown`). `Schema.dependencyOrder_respects` draws the conclusion
for the order of the entities.
-/

namespace Scaffold
set_option autoImplicit false

namespace Graph

/-- Without a walk back from its target to its source, a new edge closes no walk around an old
one. -/
theorem reaches_back_addEdge {graph : Graph} {source target first second : String}
    (isNode : source ∈ graph.nodes) (noWalk : ¬ graph.Reaches target source)
    (edge : graph.Edge first second) (back : (graph.addEdge source target).Reaches second first) :
    graph.Reaches second first := by
  rcases (reaches_addEdge isNode).1 back with back | ⟨before, after⟩
  · exact back
  · exact absurd (after.trans (.head edge before)) noWalk

/-- `graph` has grown out of `base` by edges none of which closed a cycle. -/
structure Grown (base graph : Graph) : Prop where
  closed : graph.IsClosed
  nodes : graph.nodes = base.nodes
  /-- An edge is an old one, or on no cycle. -/
  edges : ∀ first second, graph.Edge first second → base.Edge first second ∨
    ¬ graph.Reaches second first
  /-- A cycle through an old edge is an old one. -/
  cycles : ∀ first second, base.Edge first second → graph.Reaches second first →
    base.Reaches second first
  kept : ∀ first second, base.Edge first second → graph.Edge first second

theorem Grown.refl {base : Graph} (closed : base.IsClosed) : Grown base base where
  closed := closed
  nodes := rfl
  edges _ _ edge := .inl edge
  cycles _ _ _ back := back
  kept _ _ edge := edge

theorem Grown.addEdge {base graph : Graph} (grown : Grown base graph) {source target : String}
    (isNode : source ∈ graph.nodes) (targetIsNode : target ∈ graph.nodes)
    (noWalk : ¬ graph.Reaches target source) : Grown base (graph.addEdge source target) where
  closed := grown.closed.addEdge isNode targetIsNode
  nodes := (nodes_addEdge ..).trans grown.nodes
  edges first second edge := by
    rcases (edge_addEdge isNode).1 edge with edge | ⟨rfl, rfl⟩
    · refine (grown.edges first second edge).imp_right fun noCycle back => noCycle ?_
      exact reaches_back_addEdge isNode noWalk edge back
    · refine .inr fun back => noWalk ?_
      exact ((reaches_addEdge isNode).1 back).elim id And.left
  cycles first second edge back := by
    refine grown.cycles first second edge ?_
    exact reaches_back_addEdge isNode noWalk (grown.kept first second edge) back
  kept first second edge := (edge_addEdge isNode).2 (.inl (grown.kept first second edge))

end Graph

namespace Schema

theorem nodes_belongsToGraph (s : Schema) : s.belongsToGraph.nodes = s.entities.keys := by
  simp [Graph.nodes, belongsToGraph, OrderedMap.keys]

/-- An entity belongs to another one of the schema. -/
def BelongsTo (s : Schema) (name target : String) : Prop :=
  ∃ e, s.entities.get? name = some e ∧ target ∈ e.belongsToTargets ∧
    s.entities.has target = true ∧ target ≠ name

theorem lookup_map_entries {α β : Type} (f : String → α → β) (entries : List (String × α))
    (name : String) : (entries.map fun entry => (entry.1, f entry.1 entry.2)).lookup name =
      (entries.lookup name).map (f name) := by
  induction entries with
  | nil => rfl
  | cons entry rest ih =>
    rw [List.map_cons, List.lookup_cons, List.lookup_cons, ih]
    cases here : name == entry.1 with
    | true => rw [eq_of_beq here]; rfl
    | false => rfl

theorem edge_belongsToGraph {s : Schema} {name target : String} :
    s.belongsToGraph.Edge name target ↔ s.BelongsTo name target := by
  have found : s.belongsToGraph.lookup name = (s.entities.get? name).map fun e =>
      (e.belongsToTargets.filter fun target => s.entities.has target && target != name).eraseDups :=
    lookup_map_entries (fun name (e : Entity) =>
      (e.belongsToTargets.filter fun target => s.entities.has target && target != name).eraseDups)
        s.entities.entries name
  rw [Graph.Edge, Graph.targets, found, BelongsTo]
  cases s.entities.get? name with
  | none => simp
  | some e => simp [List.mem_eraseDups]

theorem belongsToGraph_closed (s : Schema) : s.belongsToGraph.IsClosed where
  nodup := s.nodes_belongsToGraph ▸ s.entities.nodup
  target_mem source target edge := by
    obtain ⟨-, -, -, known, -⟩ := edge_belongsToGraph.1 edge
    rw [nodes_belongsToGraph]
    exact OrderedMap.has_iff_mem_keys.1 known

/-- The owner of a table is an entity. -/
theorem owner_mem {s : Schema} {table owner : String} (h : s.tables.get? table = some owner) :
    owner ∈ s.entities.keys := by
  obtain ⟨e, mem, eq⟩ := List.mem_map.1 (OrderedMap.mem_of_mem_ofList (OrderedMap.mem_of_get? h))
  obtain ⟨entry, isEntry, rfl⟩ := List.mem_map.1 mem
  obtain rfl : entry.2.name = owner := (Prod.mk.inj eq).2
  rw [s.entities_named entry isEntry]
  exact List.mem_map_of_mem isEntry

/-- A foreign key adds the edge to the owner of its table. It adds none where the table has no
owner, where the owner is the entity itself or a target already, and where a walk leads back from
the owner. -/
theorem addForeign_cases {tables : OrderedMap String} {graph : Graph} (closed : graph.IsClosed)
    (entity table : String) :
    (addForeign tables graph entity table = graph ∧ ∀ owner, tables.get? table = some owner →
      owner = entity ∨ graph.Edge entity owner ∨ graph.Reaches owner entity) ∨
    ∃ owner, tables.get? table = some owner ∧ owner ≠ entity ∧ ¬ graph.Edge entity owner ∧
    ¬ graph.Reaches owner entity ∧
      addForeign tables graph entity table = graph.addEdge entity owner := by
  unfold addForeign
  cases tables.get? table with
  | none => exact .inl ⟨rfl, by simp⟩
  | some owner =>
    have skipped : (owner == entity || (graph.targets entity).contains owner ||
        graph.reaches owner entity) = true ↔ owner = entity ∨ graph.Edge entity owner ∨
        graph.Reaches owner entity := by
      simp only [Bool.or_eq_true, beq_iff_eq, List.contains_iff_mem, Graph.reaches_iff closed,
        or_assoc, Graph.Edge]
    by_cases known : owner = entity ∨ graph.Edge entity owner ∨ graph.Reaches owner entity
    · refine .inl ⟨if_pos (skipped.2 known), ?_⟩
      intro _ same
      exact Option.some.inj same ▸ known
    · have new := known
      rw [not_or, not_or] at new
      exact .inr ⟨owner, rfl, new.1, new.2.1, new.2.2, if_neg (mt skipped.1 known)⟩

theorem addForeign_grown {s : Schema} {base graph : Graph} (grown : Graph.Grown base graph)
    (nodes : base.nodes = s.entities.keys) {entity : String} (isEntity : entity ∈ s.entities.keys)
    (table : String) : Graph.Grown base (addForeign s.tables graph entity table) := by
  have nodes : graph.nodes = s.entities.keys := grown.nodes.trans nodes
  rcases addForeign_cases grown.closed entity table with ⟨same, -⟩ | ⟨owner, owned, -, -,
    noWalk, added⟩
  · rwa [same]
  · rw [added]
    exact grown.addEdge (nodes ▸ isEntity) (nodes ▸ owner_mem owned) noWalk

/-- The foreign keys in the order of declaration, each as its entity and the table to which it
refers. -/
def foreignKeys (s : Schema) : List (String × String) :=
  s.entities.entries.flatMap fun entry =>
    (entry.2.fields.values.filterMap Field.foreignTable?).map fun table => (entry.1, table)

/-- An entity has a foreign key to a table. -/
def RefersTo (s : Schema) (name table : String) : Prop :=
  ∃ e, s.entities.get? name = some e ∧ ∃ field ∈ e.fields.values, field.foreignTable? = some table

theorem mem_foreignKeys {s : Schema} {name table : String} :
    (name, table) ∈ s.foreignKeys ↔ s.RefersTo name table := by
  simp only [foreignKeys, List.mem_flatMap, List.mem_map, List.mem_filterMap, RefersTo,
    OrderedMap.get?_eq_some]
  constructor
  · rintro ⟨entry, isEntry, _, isTable, rfl, rfl⟩
    exact ⟨entry.2, isEntry, isTable⟩
  · rintro ⟨e, isEntry, isTable⟩
    exact ⟨(name, e), isEntry, table, isTable, rfl⟩

/-- The graph of the relations after some foreign keys were looked at. -/
def graphAfter (s : Schema) (keys : List (String × String)) : Graph :=
  keys.foldl (fun graph key => addForeign s.tables graph key.1 key.2) s.belongsToGraph

theorem graphAfter_concat (s : Schema) (keys : List (String × String)) (key : String × String) :
    s.graphAfter (keys ++ [key]) = addForeign s.tables (s.graphAfter keys) key.1 key.2 := by
  rw [graphAfter, List.foldl_append]
  rfl

theorem graphAfter_foreignKeys (s : Schema) : s.graphAfter s.foreignKeys = s.dependencyGraph := by
  simp only [graphAfter, foreignKeys, dependencyGraph, List.foldl_flatMap, List.foldl_map]

theorem entity_of_foreignKey {s : Schema} {key : String × String} (h : key ∈ s.foreignKeys) :
    key.1 ∈ s.entities.keys := by
  obtain ⟨name, table⟩ := key
  obtain ⟨e, found, -⟩ := mem_foreignKeys.1 h
  exact OrderedMap.mem_keys.2 ⟨e, found⟩

theorem graphAfter_grown {s : Schema} {keys : List (String × String)}
    (known : keys ⊆ s.foreignKeys) : Graph.Grown s.belongsToGraph (s.graphAfter keys) := by
  induction keys using List.reverseRecOn with
  | nil => exact .refl s.belongsToGraph_closed
  | append_singleton keys key ih =>
    obtain ⟨known, isKey⟩ := List.append_subset.1 known
    rw [graphAfter_concat]
    exact addForeign_grown (ih known) s.nodes_belongsToGraph
      (entity_of_foreignKey (isKey (List.mem_singleton_self key))) key.2

theorem foreignKey_mem_nodes {s : Schema} {keys : List (String × String)}
    (known : keys ⊆ s.foreignKeys) {key : String × String} (isKey : key ∈ s.foreignKeys) :
    key.1 ∈ (s.graphAfter keys).nodes := by
  rw [(graphAfter_grown known).nodes, nodes_belongsToGraph]
  exact entity_of_foreignKey isKey

/-- The graph goes on to grow with the foreign keys that are looked at later. -/
theorem graphAfter_append_grown {s : Schema} {keys more : List (String × String)}
    (known : keys ++ more ⊆ s.foreignKeys) :
    Graph.Grown (s.graphAfter keys) (s.graphAfter (keys ++ more)) := by
  have base := graphAfter_grown (List.append_subset.1 known).1
  induction more using List.reverseRecOn with
  | nil =>
    rw [List.append_nil]
    exact .refl base.closed
  | append_singleton more key ih =>
    rw [← List.append_assoc] at known ⊢
    obtain ⟨known, isKey⟩ := List.append_subset.1 known
    have isEntity := entity_of_foreignKey (isKey (List.mem_singleton_self key))
    rw [graphAfter_concat]
    exact addForeign_grown (ih known) (base.nodes.trans s.nodes_belongsToGraph) isEntity key.2

theorem dependencyGraph_grown (s : Schema) : Graph.Grown s.belongsToGraph s.dependencyGraph := by
  rw [← graphAfter_foreignKeys]
  exact graphAfter_grown (List.Subset.refl _)

/-- The order lists the entities. -/
theorem dependencyOrder_perm (s : Schema) : s.dependencyOrder.Perm s.entities.keys := by
  rw [← nodes_belongsToGraph, ← s.dependencyGraph_grown.nodes]
  exact Graph.order_perm s.dependencyGraph_grown.closed

/-- An entity comes after the one it belongs to, unless relations lead back from there. -/
theorem before_or_reaches {s : Schema} {name target : String}
    (edge : s.belongsToGraph.Edge name target) :
    Before s.dependencyOrder target name ∨ s.belongsToGraph.Reaches target name := by
  have grown := s.dependencyGraph_grown
  refine (Graph.before_or_reaches grown.closed (grown.kept name target edge)).imp_right ?_
  exact grown.cycles name target edge

/-- The order lists every entity exactly once, and an entity comes after each one it depends on from
which no walk leads back to it. These are the owners of the tables that the foreign keys of the
graph refer to, the entities it belongs to on no cycle of such relations, and all of them when there
is no such cycle. -/
theorem dependencyOrder_respects (s : Schema) :
    s.dependencyOrder.Perm s.entities.keys ∧ s.dependencyOrder.Nodup ∧
      (∀ u v, s.dependencyGraph.Edge u v → ¬ s.dependencyGraph.Reaches v u →
        Before s.dependencyOrder v u) ∧
      (∀ u v, s.dependencyGraph.Edge u v → ¬ s.belongsToGraph.Edge u v →
        Before s.dependencyOrder v u) ∧
      (∀ u v, s.belongsToGraph.Edge u v → ¬ s.belongsToGraph.Reaches v u →
        Before s.dependencyOrder v u) ∧
      ((∀ u, ¬ Relation.TransGen s.belongsToGraph.Edge u u) →
        ∀ u v, s.dependencyGraph.Edge u v → Before s.dependencyOrder v u) := by
  have grown := s.dependencyGraph_grown
  have perm := s.dependencyOrder_perm
  have respected : ∀ u v, s.dependencyGraph.Edge u v → ¬ s.dependencyGraph.Reaches v u →
      Before s.dependencyOrder v u := by
    intro u v edge noCycle
    exact (Graph.before_or_reaches grown.closed edge).resolve_right noCycle
  have foreign : ∀ u v, s.dependencyGraph.Edge u v → ¬ s.belongsToGraph.Edge u v →
      Before s.dependencyOrder v u := by
    intro u v edge new
    exact respected u v edge ((grown.edges u v edge).resolve_left new)
  have belonging : ∀ u v, s.belongsToGraph.Edge u v → ¬ s.belongsToGraph.Reaches v u →
      Before s.dependencyOrder v u := by
    intro u v edge noCycle
    exact respected u v (grown.kept u v edge) fun back => noCycle (grown.cycles u v edge back)
  refine ⟨perm, perm.nodup_iff.2 s.entities.nodup, respected, foreign, belonging,
    fun acyclic u v edge => ?_⟩
  by_cases old : s.belongsToGraph.Edge u v
  · exact belonging u v old fun back => acyclic u (.head' old back)
  · exact foreign u v edge old

end Schema
end Scaffold
