import Scaffold.Proofs.Dependency.Circles
import Scaffold.Proofs.Dependency.Warnings

/-!
# What foreign keys do to the order of relations

A foreign key closes no cycle, so the relations that the order breaks lie on circles of relations
with or without it (`Schema.before_or_reaches`). But it can lead the search into a circle by another
entity, and then the order breaks another relation of the circle. Main statement: the foreign keys
displace no relation exactly when each circle has the same entity last, with and without them
(`Schema.keeps_relations_iff`).
-/

namespace Scaffold
set_option autoImplicit false

namespace Graph

variable {base graph : Graph} {inside : String → Bool} {node first second source target : String}

/-! ## Circles of a graph that grows -/

/-- Nodes that are connected after a graph has grown were so before. -/
theorem Grown.reaches_of_connected (grown : Grown base graph)
    (connected : graph.Connected first second) : base.Reaches first second := by
  obtain ⟨walk, back⟩ := connected
  induction walk using Relation.ReflTransGen.head_induction_on with
  | refl => exact .refl
  | @head first next edge onward ih =>
    have around : graph.Reaches next first := onward.trans back
    have old := (grown.edges first next edge).resolve_right fun noWalk => noWalk around
    exact .head old (ih (back.tail edge))

theorem Grown.isCircle (grown : Grown base graph) (circle : base.IsCircle inside) :
    graph.IsCircle inside where
  node_mem node here := grown.nodes ▸ circle.node_mem node here
  reaches first second isFirst isSecond :=
    grown.reaches (circle.reaches first second isFirst isSecond)
  whole node other here connected :=
    circle.whole node other here ⟨grown.reaches_of_connected connected,
      grown.reaches_of_connected connected.symm⟩

/-- An edge that closes no cycle is no edge of a circle. -/
theorem Grown.targetsInside_addEdge (grown : Grown base graph) (circle : base.IsCircle inside)
    (isNode : source ∈ graph.nodes) (noWalk : ¬ graph.Reaches target source) :
    (graph.addEdge source target).targetsInside inside = graph.targetsInside inside := by
  funext node
  unfold targetsInside
  split
  · rename_i here
    rw [targets_addEdge isNode]
    split
    · rename_i same
      have outside : ¬ inside target = true := by
        intro isTarget
        exact noWalk (grown.reaches (circle.reaches target source isTarget (same ▸ here)))
      rw [List.filter_append, List.filter_cons_of_neg outside, List.filter_nil, List.append_nil]
    · rfl
  · rfl

/-- The circle of a node. -/
def circleOf (graph : Graph) (node other : String) : Bool :=
  graph.reaches node other && graph.reaches other node

theorem circleOf_iff (closed : graph.IsClosed) :
    graph.circleOf first second = true ↔ graph.Connected first second := by
  rw [circleOf, Bool.and_eq_true, reaches_iff closed, reaches_iff closed, Connected]

theorem mem_nodes_of_reaches (closed : graph.IsClosed) (isNode : first ∈ graph.nodes)
    (walk : graph.Reaches first second) : second ∈ graph.nodes := by
  rcases walk.cases_tail with same | ⟨_, -, edge⟩
  · exact same ▸ isNode
  · exact closed.target_mem _ _ edge

theorem isCircle_circleOf (closed : graph.IsClosed) (isNode : node ∈ graph.nodes) :
    graph.IsCircle (graph.circleOf node) where
  node_mem _ here := mem_nodes_of_reaches closed isNode ((circleOf_iff closed).1 here).1
  reaches _ _ isFirst isSecond :=
    ((circleOf_iff closed).1 isFirst).2.trans ((circleOf_iff closed).1 isSecond).1
  whole _ _ here connected := by
    obtain ⟨there, back⟩ := (circleOf_iff closed).1 here
    exact (circleOf_iff closed).2 ⟨there.trans connected.1, connected.2.trans back⟩

/-! ## The last node of a circle -/

/-- Of the nodes connected with `node`, an order puts `last` last. -/
def PutsLast (graph : Graph) (order : List String) (node last : String) : Prop :=
  graph.Connected node last ∧ ∀ other, graph.Connected node other → other = last ∨
    Before order other last

theorem putsLast_iff {order : List String} {last : String} (closed : graph.IsClosed)
    (perm : order.Perm graph.nodes) (isNode : node ∈ graph.nodes) :
    graph.PutsLast order node last ↔ (order.filter (graph.circleOf node)).getLast? = some last := by
  have mem {other : String} (connected : graph.Connected node other) :
    other ∈ order.filter (graph.circleOf node) :=
    List.mem_filter.2 ⟨perm.mem_iff.2 (mem_nodes_of_reaches closed isNode connected.1),
      (circleOf_iff closed).2 connected⟩
  have connected {other : String} (mem : other ∈ order.filter (graph.circleOf node)) :
    graph.Connected node other :=
    (circleOf_iff closed).1 (List.mem_filter.1 mem).2
  have before_iff {first second : String} (isFirst : first ∈ order.filter (graph.circleOf node))
      (isSecond : second ∈ order.filter (graph.circleOf node)) :
      Before (order.filter (graph.circleOf node)) first second ↔ Before order first second :=
    before_filter_iff (List.mem_filter.1 isFirst).2 (List.mem_filter.1 isSecond).2
  constructor
  · rintro ⟨isLast, latest⟩
    have nodup := (perm.nodup_iff.2 closed.nodup).filter (graph.circleOf node)
    obtain ⟨inner, final, whole⟩ :=
      (List.eq_nil_or_concat' _).resolve_left (List.ne_nil_of_mem (mem isLast))
    have isFinal : final ∈ order.filter (graph.circleOf node) := by
      rw [whole]
      exact List.mem_append_right _ (List.mem_singleton_self final)
    rcases latest final (connected isFinal) with rfl | before
    · rw [whole, List.getLast?_concat]
    · have before := (before_iff isFinal (mem isLast)).2 before
      rw [whole] at before nodup
      exact absurd before (not_before_last nodup)
  · intro final
    have isLast := List.mem_of_getLast? final
    refine ⟨connected isLast, fun other isOther => ?_⟩
    have isOther := mem isOther
    rw [← before_iff isOther isLast]
    obtain ⟨inner, whole⟩ := List.getLast?_eq_some_iff.1 final
    rw [whole] at isOther ⊢
    rcases List.mem_append.1 isOther with earlier | same
    · exact .inr (before_append_singleton earlier)
    · exact .inl (List.mem_singleton.1 same)

/-- The search breaks the same edges of a circle, before and after the graph has grown, exactly when
the same node of the circle is last. -/
theorem keeps_circle_iff (closed : base.IsClosed) (grown : Grown base graph)
    (circle : base.IsCircle inside) (edges : base.targetsInside inside = graph.targetsInside inside)
    (here : inside node = true) :
    (∀ first second, inside first = true → inside second = true → base.Edge first second →
      Before base.order second first → Before graph.order second first) ↔
    (base.order.filter inside).getLast? = (graph.order.filter inside).getLast? := by
  have circle' := grown.isCircle circle
  constructor
  · intro keeps
    obtain ⟨last, inner, isLast, whole, -⟩ := circle'.exists_entry grown.closed here
    rw [whole, List.getLast?_concat]
    by_contra apart
    obtain ⟨parent, isParent, edge, before⟩ := circle.exists_parent closed isLast apart
    have kept :=
      (before_filter_iff isLast isParent).2 (keeps parent last isParent isLast edge before)
    have nodup : (graph.order.filter inside).Nodup :=
      ((order_perm grown.closed).nodup_iff.2 grown.closed.nodup).filter _
    rw [whole] at kept nodup
    exact not_before_last nodup kept
  · intro last first second isFirst isSecond _ before
    have same := circle.order_eq closed circle' grown.closed grown.nodes.symm edges here last
    rw [← before_filter_iff isSecond isFirst] at before ⊢
    rwa [← same]

/-- A graph that grows by edges that close no cycle keeps every edge in order that was in order
before exactly when the same node of each circle is last. -/
theorem keeps_iff (closed : base.IsClosed) (grown : Grown base graph)
    (edges : ∀ inside, base.IsCircle inside →
      base.targetsInside inside = graph.targetsInside inside) :
    (∀ first second, base.Edge first second → Before base.order second first →
      Before graph.order second first) ↔ ∀ node ∈ base.nodes, ∃ last,
      base.PutsLast base.order node last ∧ base.PutsLast graph.order node last := by
  have perm := order_perm closed
  have perm' : graph.order.Perm base.nodes := grown.nodes ▸ order_perm grown.closed
  have self {node : String} : base.circleOf node node = true :=
    (circleOf_iff closed).2 ⟨.refl, .refl⟩
  constructor
  · intro keeps node isNode
    have circle := isCircle_circleOf closed isNode
    have same :=
      (keeps_circle_iff closed grown circle (edges _ circle) self).1 fun first second _ _ edge =>
        keeps first second edge
    obtain ⟨last, inner, -, whole, -⟩ := circle.exists_entry closed self
    rw [whole, List.getLast?_concat] at same
    refine ⟨last, (putsLast_iff closed perm isNode).2 ?_,
      (putsLast_iff closed perm' isNode).2 same.symm⟩
    rw [whole, List.getLast?_concat]
  · intro alike first second edge before
    by_cases back : base.Reaches second first
    · obtain ⟨last, isLast, isLast'⟩ := alike first (source_mem edge)
      have circle := isCircle_circleOf closed (source_mem edge)
      have same := ((putsLast_iff closed perm (source_mem edge)).1 isLast).trans
        ((putsLast_iff closed perm' (source_mem edge)).1 isLast').symm
      have around := (circleOf_iff closed).2 ⟨.single edge, back⟩
      exact (keeps_circle_iff closed grown circle (edges _ circle) self).2 same first second self
        around edge before
    · refine (before_or_reaches grown.closed (grown.kept first second edge)).resolve_right
        fun back' => back ?_
      exact grown.cycles first second edge back'

end Graph

namespace Schema

variable {s : Schema}

/-- The graph of the dependencies has no edges on a circle but relations. -/
theorem targetsInside_dependencyGraph {inside : String → Bool}
    (circle : s.belongsToGraph.IsCircle inside) :
    s.dependencyGraph.targetsInside inside = s.belongsToGraph.targetsInside inside := by
  have along : ∀ keys ⊆ s.foreignKeys, (s.graphAfter keys).targetsInside inside =
      s.belongsToGraph.targetsInside inside := by
    intro keys known
    induction keys using List.reverseRecOn with
    | nil => rfl
    | append_singleton keys key ih =>
      obtain ⟨known, isKey⟩ := List.append_subset.1 known
      have grown := graphAfter_grown known
      rw [graphAfter_concat, ← ih known]
      rcases addForeign_cases grown.closed key.1 key.2 with ⟨same, -⟩ | ⟨owner, -, -, -,
        noWalk, added⟩
      · rw [same]
      · have isNode := foreignKey_mem_nodes known (isKey (List.mem_singleton_self key))
        rw [added, grown.targetsInside_addEdge circle isNode noWalk]
  rw [← graphAfter_foreignKeys]
  exact along _ (List.Subset.refl _)

end Schema

/-! ## Without foreign keys -/

/-- An entity without its foreign keys. -/
def Entity.withoutForeignKeys (e : Entity) : Entity :=
  { e with
    fields :=
      { entries := e.fields.entries.filter fun entry => entry.2.foreignTable?.isNone
        nodup_keys := e.fields.nodup_keys.sublist (List.filter_sublist.map _) }
    fieldNames :=
      e.fieldNames.filter fun name => ((e.fields.get? name).bind Field.foreignTable?).isNone }

/-- A schema without the foreign keys of its entities. -/
def Schema.withoutForeignKeys (s : Schema) : Schema :=
  { s with
    entities := s.entities.map Entity.withoutForeignKeys
    entities_named := by
      intro entry mem
      obtain ⟨known, isEntry, rfl⟩ := List.mem_map.1 mem
      exact s.entities_named known isEntry }

namespace Schema

variable {s : Schema}

theorem belongsToGraph_withoutForeignKeys (s : Schema) :
    s.withoutForeignKeys.belongsToGraph = s.belongsToGraph := by
  have known : ∀ name, s.withoutForeignKeys.entities.has name = s.entities.has name := by
    intro name
    have found : s.withoutForeignKeys.entities.get? name =
      (s.entities.get? name).map Entity.withoutForeignKeys :=
      OrderedMap.get?_map Entity.withoutForeignKeys s.entities name
    rw [OrderedMap.has, found, Option.isSome_map, ← OrderedMap.has]
  have entries : s.withoutForeignKeys.entities.entries =
      s.entities.entries.map fun entry => (entry.1, entry.2.withoutForeignKeys) := rfl
  simp only [belongsToGraph, entries, List.map_map, known]
  rfl

theorem foreignKeys_withoutForeignKeys (s : Schema) : s.withoutForeignKeys.foreignKeys = [] := by
  refine List.eq_nil_iff_forall_not_mem.2 fun key isKey => ?_
  obtain ⟨e, found, field, isField, refers⟩ := mem_foreignKeys.1 isKey
  obtain ⟨known, -, same⟩ := List.mem_map.1 (OrderedMap.mem_of_get? found)
  obtain rfl := (Prod.mk.inj same).2
  obtain ⟨entry, isEntry, rfl⟩ := List.mem_map.1 isField
  have absent := (List.mem_filter.1 isEntry).2
  rw [refers] at absent
  exact Bool.false_ne_true absent

theorem dependencyOrder_withoutForeignKeys (s : Schema) :
    s.withoutForeignKeys.dependencyOrder = s.belongsToGraph.order := by
  rw [dependencyOrder, ← graphAfter_foreignKeys, foreignKeys_withoutForeignKeys, graphAfter,
    List.foldl_nil, belongsToGraph_withoutForeignKeys]

/-- Every relation that the order keeps to without the foreign keys it keeps to with them, exactly
when for each entity, of all that relations connect with it both ways, the same one is last in both
orders. -/
theorem keeps_relations_iff (s : Schema) :
    (∀ name target, s.BelongsTo name target →
      Before s.withoutForeignKeys.dependencyOrder target name →
      Before s.dependencyOrder target name) ↔
    ∀ name ∈ s.entities.keys, ∃ last,
      s.belongsToGraph.PutsLast s.withoutForeignKeys.dependencyOrder name last ∧
      s.belongsToGraph.PutsLast s.dependencyOrder name last := by
  have keeps := Graph.keeps_iff s.belongsToGraph_closed s.dependencyGraph_grown fun inside circle =>
    (targetsInside_dependencyGraph circle).symm
  simp only [dependencyOrder_withoutForeignKeys, ← edge_belongsToGraph, ← nodes_belongsToGraph]
  exact keeps

/-- Two models that belong to each other, after one with a foreign key to the second. -/
def enteredDocument : Json.Members :=
  [("meta", .object []),
    ("models", .object [("X", modelWith [("b_id", "foreign:bs")] []),
      ("A", modelWith [("n", "string")] [("b", "belongsTo:B")]),
      ("B", modelWith [("n", "string")] [("a", "belongsTo:A")])])]

/-- With the foreign key, the search enters the circle at `B`, and the order breaks the relation
from `A` to `B`. -/
theorem relation_displaced : ¬ ∀ (document : Json.Members) (s : Schema) (name target : String),
    build document = .ok s → s.findings.isValid = true → s.BelongsTo name target →
      Before s.withoutForeignKeys.dependencyOrder target name →
      Before s.dependencyOrder target name := by
  have checked : succeeds (build enteredDocument) (fun s => s.findings.isValid &&
      (s.belongsToGraph.targets "A").contains "B" && s.withoutForeignKeys.dependencyOrder ==
        ["X", "B", "A"] &&
      s.dependencyOrder == ["A", "B", "X"]) = true := by
    decide +kernel
  obtain ⟨s, built, holds⟩ := succeeds_eq_true.1 checked
  simp only [Bool.and_eq_true, beq_iff_eq, List.contains_iff_mem] at holds
  obtain ⟨⟨⟨valid, edge⟩, without⟩, order⟩ := holds
  intro claimed
  have kept := claimed _ s "A" "B" built valid (edge_belongsToGraph.1 edge)
  rw [without, order] at kept
  have before : Before ["X", "B", "A"] "B" "A" := ⟨["X", "B"], [], rfl, by simp⟩
  exact absurd ((kept before).idxOf_lt (by decide)) (by decide)

end Schema
end Scaffold
